import DynamicObjects.Proofs.Runs.Updates

/-!
# Updates that leave frames alone

Frames are opened, closed and marked by guards and runs, and while calls are passed on. Every other update leaves the
stack as it is, and the number of open guards.
-/
namespace DynamicObjects

/-- The frames are the same, and as many guards are open. -/
structure Level (v w : World) : Prop where
  stack : w.stack = v.stack
  guardDepth : w.guardDepth = v.guardDepth

namespace Level

open Update

variable {α β ι : Type} {u v w : World}

theorem refl (v : World) : Level v v :=
  ⟨rfl, rfl⟩

theorem trans (first : Level u v) (second : Level v w) : Level u w :=
  ⟨second.stack.trans first.stack, second.guardDepth.trans first.guardDepth⟩

theorem of_along {u : Update α} (along : u.Along Level) (w : World) : Level w (u.exec w).2 := by
  have path := along w
  generalize (u.exec w).2 = v at path
  induction path with
  | refl => exact .refl w
  | tail _ last ih => exact ih.trans last

theorem of_relinks (relinks : Relinks v w) : Level v w := by
  rw [relinks.rest]
  exact ⟨rfl, rfl⟩

/-! ## Changes of objects and tables -/

theorem along_modify {f : World → World} (level : ∀ w, Level w (f w)) : Along Level (modify f : Update PUnit) :=
  .of_step level

theorem along_changeObjects (f : Objects → Objects) : Along Level (Update.changeObjects f) :=
  along_modify fun _ => ⟨rfl, rfl⟩

theorem along_changeObject (h : Handle) (f : Object → Object) : Along Level (Update.changeObject h f) :=
  (Along.object h).bind fun _ => along_modify fun _ => ⟨rfl, rfl⟩

theorem along_changeClass (h : Handle) (f : ClassPart → ClassPart) : Along Level (Update.changeClass h f) :=
  (Along.classPart h).bind fun _ => along_modify fun _ => ⟨rfl, rfl⟩

theorem along_trackFilters (user : Handle) (old new : List Filter) : Along Level (Interception.trackFilters user old new) :=
  along_modify fun _ => ⟨rfl, rfl⟩

theorem along_claimName (name : String) : Along Level (Lifecycle.claimName name) :=
  Along.get.bind fun _ => .ite (fun _ => (Along.throw _).bind fun _ => .pure _) fun _ => .pure _

theorem along_firstFree (tries : Nat) : Along Level (Lifecycle.firstFree tries) := by
  have automatic : ∀ start, Along Level (Lifecycle.autoname start) := fun _ => .of_step fun _ => ⟨rfl, rfl⟩
  induction tries with
  | zero => exact automatic _
  | succ tries ih => exact (automatic _).bind fun _ => Along.get.bind fun _ => .ite (fun _ => ih) fun _ => .pure _

theorem along_freshName : Along Level Lifecycle.freshName :=
  Along.get.bind fun _ => along_firstFree _

theorem along_allocate (o : Object) : Along Level (Lifecycle.allocate o) :=
  .of_step fun _ => ⟨rfl, rfl⟩

/-! ## Orders -/

theorem along_precedenceOrder (c : Handle) : Along Level (Update.precedenceOrder c) := by
  unfold Update.precedenceOrder
  refine (Along.classPart c).bind fun _ => Along.get.bind fun w => ?_
  split
  · exact (along_modify (by intro _; exact ⟨rfl, rfl⟩)).bind fun _ => .pure _
  · exact .throw _

theorem of_consults {u : Update α} (along : u.Along Consults) : u.Along Level :=
  along.mono fun v _ ⟨c, same⟩ => same ▸ along_precedenceOrder c v

theorem along_mixinOrder (h : Handle) : Along Level (Interception.mixinOrder h) := by
  unfold Interception.mixinOrder
  refine (Along.object h).bind fun o => ?_
  cases o.mixinOrder with
  | some order => exact .pure _
  | none =>
    refine (of_consults (Consults.along_computeMixinOrder _ _)).bind fun order => ?_
    exact (along_changeObject h _).bind fun _ => .pure _

theorem along_filterOrder (h : Handle) : Along Level (Interception.filterOrder h) := by
  unfold Interception.filterOrder
  refine (Along.object h).bind fun o => ?_
  cases o.filterOrder with
  | some order => exact .pure _
  | none =>
    refine (along_mixinOrder h).bind fun mixins => ?_
    refine (of_consults (Consults.along_computeFilterOrder h _)).bind fun order => ?_
    exact (along_changeObject h _).bind fun _ => .pure _

theorem along_forgetAffected (classes : List Handle) : Along Level (Interception.forgetAffected classes) :=
  Along.get.bind fun _ => .forM (fun _ => along_changeObjects _) _

theorem along_forgetDependents (c : Handle) : Along Level (Interception.forgetDependents c) :=
  Along.get.bind fun _ => along_forgetAffected _

/-! ## Superclasses -/


theorem along_defaultSuperclass (c : Handle) (system : ObjectSystem) :
    Along Level (Hierarchy.defaultSuperclass c system) :=
  (Along.isMetaclass c).bind fun _ => .pure _

theorem along_requireSuperclass (name : String) (system : Nat) (sup : Handle) :
    Along Level (Hierarchy.requireSuperclass name system sup) := by
  unfold Hierarchy.requireSuperclass
  have last : Along Level (do
      unless (← Update.object sup).system = system do
        throw (.structural (.foreignSuperclass (← Update.nameOf sup) name)) : Update PUnit) :=
    (Along.object sup).bind fun _ => .ite (fun _ => .pure _) fun _ => (Along.nameOf sup).bind fun _ => .throw _
  refine Along.get.bind fun w => .ite (fun _ => last) fun _ => ?_
  exact (Along.nameOf sup).bind fun _ => (Along.throw _).bind fun _ => last

theorem along_requireDependenceOrder (name : String) (classes : List Handle) :
    Along Level (Hierarchy.requireDependenceOrder name classes) := by
  induction classes with
  | nil => exact .pure _
  | cons earlier rest ih =>
    unfold Hierarchy.requireDependenceOrder
    refine Along.bind (.forIn (fun later _ => ?_) rest _) fun _ => ih
    refine (along_precedenceOrder later).bind fun order => .ite (fun _ => ?_) fun _ => .pure _
    exact (Along.nameOf earlier).bind fun _ => (Along.nameOf later).bind fun _ => (Along.throw _).bind fun _ => .pure _

theorem along_replaceChecked (c : Handle) (o : Object) (old new : List Handle) :
    Along Level (WellFormed.replaceChecked c o old new) := by
  unfold WellFormed.replaceChecked
  refine (Along.forM (along_requireSuperclass o.name o.system) new).bind fun _ => ?_
  refine (along_requireDependenceOrder o.name new).bind fun _ => Along.get.bind fun w => ?_
  dsimp only
  refine (along_modify (by intro _; exact ⟨rfl, rfl⟩)).bind fun _ => ?_
  split
  · exact along_forgetAffected _
  · exact .throw _

theorem along_setSuperclasses (c : Handle) (supers : List Handle) : Along Level (Hierarchy.setSuperclasses c supers) := by
  unfold Hierarchy.setSuperclasses
  refine (Along.object c).bind fun o => ?_
  have rest : Along Level (do
      let system ← Update.systemOf c
      let old := (← Update.classPart c).supers
      let new ← if supers.isEmpty then pure [← Hierarchy.defaultSuperclass c system] else pure supers
      WellFormed.replaceChecked c o old new) := by
    refine (Along.systemOf c).bind fun system => (Along.classPart c).bind fun part => .ite (fun _ => ?_) fun _ => ?_
    · exact (along_defaultSuperclass c system).bind fun root => (Along.pure _).bind fun new =>
        along_replaceChecked c o part.supers new
    · exact (Along.pure _).bind fun new => along_replaceChecked c o part.supers new
  exact .ite (fun _ => (Along.throw _).bind fun _ => rest) fun _ => rest

/-! ## Creation and destruction -/

theorem along_giveName (name : String) (h : Handle) : Along Level (Lifecycle.giveName name h) :=
  along_modify fun _ => ⟨rfl, rfl⟩

theorem along_createSystem (root metaclass : String) (methods : SystemMethods) :
    Along Level (Lifecycle.createSystem root metaclass methods) := by
  unfold Lifecycle.createSystem
  refine (along_claimName root).bind fun rootName => (along_claimName metaclass).bind fun metaName => ?_
  have founds : Along Level (do
      let system := (← get).systems.length
      let rootClass ← Lifecycle.allocate (.newClass rootName default system)
      let rootMetaclass ← Lifecycle.allocate (.newClass metaName default system)
      Update.changeObject rootClass ({ · with cls := rootMetaclass, isRootClass := true })
      Update.changeObject rootMetaclass ({ · with cls := rootMetaclass, isRootMetaclass := true })
      Update.changeObjects (Hierarchy.link · rootMetaclass rootClass)
      Update.changeClass rootMetaclass fun c =>
        { c with instances := (c.instances.insert rootClass).insert rootMetaclass }
      Lifecycle.giveName rootName rootClass
      Lifecycle.giveName metaName rootMetaclass
      modify fun w => { w with systems := w.systems ++ [⟨rootClass, rootMetaclass, methods⟩] }
      return (rootClass, rootMetaclass) : Update (Handle × Handle)) := by
    refine Along.get.bind fun w => (along_allocate _).bind fun rootClass => (along_allocate _).bind fun rootMetaclass => ?_
    refine (along_changeObject _ _).bind fun _ => (along_changeObject _ _).bind fun _ => ?_
    refine (along_changeObjects _).bind fun _ => (along_changeClass _ _).bind fun _ => ?_
    refine (along_giveName _ _).bind fun _ => (along_giveName _ _).bind fun _ => ?_
    exact (along_modify (by intro _; exact ⟨rfl, rfl⟩)).bind fun _ => .pure _
  exact .ite (fun _ => (Along.throw _).bind fun _ => founds) fun _ => founds

theorem along_enroll (o : Object) : Along Level (Lifecycle.enroll o) :=
  (along_allocate o).bind fun h => (along_giveName o.name h).bind fun _ => (along_changeClass _ _).bind fun _ => .pure _

theorem along_discard (h metaclass : Handle) (name : String) : Along Level (Lifecycle.discard h metaclass name) := by
  refine (along_changeObjects _).bind fun _ => Along.get.bind fun w => Along.bind (.forIn (fun sup _ => ?_) _ _) fun _ => ?_
  · exact (along_changeObjects _).bind fun _ => .pure _
  · exact along_modify fun _ => ⟨rfl, rfl⟩

theorem along_enrollClass (name : String) (metaclass : Handle) (supers : List Handle) :
    Along Level (Lifecycle.enrollClass name metaclass supers) := by
  unfold Lifecycle.enrollClass
  have enrolls : Along Level (do
      let name ← Lifecycle.claimName name
      let h ← Lifecycle.enroll (.newClass name metaclass (← Update.object metaclass).system)
      try Hierarchy.setSuperclasses h supers
      catch f =>
        Lifecycle.discard h metaclass name
        throw f
      return h : Update Handle) := by
    refine (along_claimName name).bind fun name => (Along.object metaclass).bind fun o => (along_enroll _).bind fun h => ?_
    refine (Along.tryCatch (along_setSuperclasses h supers) fun f => ?_).bind fun _ => .pure _
    exact (along_discard h metaclass name).bind fun _ => .throw f
  refine (Along.isMetaclass metaclass).bind fun is => .ite (fun _ => enrolls) fun _ => ?_
  exact (Along.nameOf metaclass).bind fun _ => (Along.throw _).bind fun _ => enrolls

theorem along_moveInstance (fallback h : Handle) : Along Level (Lifecycle.moveInstance fallback h) :=
  (along_changeObjects _).bind fun _ => (along_changeClass _ _).bind fun _ => along_changeObjects _

theorem along_detachSubclass (c : Handle) (system : ObjectSystem) (sub : Handle) :
    Along Level (Lifecycle.detachSubclass c system sub) := by
  refine (along_defaultSuperclass sub system).bind fun root => (along_changeObjects _).bind fun _ =>
    Along.get.bind fun w => ?_
  exact .ite (fun _ => along_changeObjects _) fun _ => .pure _

theorem along_forgetUser (reach : Reach) (user : Handle) (mixins : List Mixin) :
    Along Level (Lifecycle.forgetUser reach user mixins) :=
  .forM (fun _ => along_changeObjects _) mixins

theorem along_unlinkClass (c : Handle) : Along Level (Lifecycle.unlinkClass c) := by
  refine (Along.systemOf c).bind fun system => (along_defaultSuperclass c system).bind fun fallback => ?_
  refine Along.get.bind fun w => (Along.classPart c).bind fun part => ?_
  refine (Along.forM (along_moveInstance fallback) _).bind fun _ => (along_changeObjects _).bind fun _ => ?_
  refine (Along.forM (along_detachSubclass c system) _).bind fun _ => ?_
  refine (Along.forM (fun _ => along_changeObjects _) _).bind fun _ => ?_
  refine (Along.forM (fun _ => (along_changeObjects _).bind fun _ => along_changeObjects _) _).bind fun _ => ?_
  refine (Along.forM (fun _ => (along_changeObjects _).bind fun _ => along_forgetDependents _) _).bind fun _ => ?_
  refine (along_forgetUser _ _ _).bind fun _ => (along_trackFilters _ _ _).bind fun _ => ?_
  exact (along_changeObjects _).bind fun _ => along_forgetAffected _

theorem along_unlink (h : Handle) : Along Level (Lifecycle.unlink h) := by
  refine (along_changeObject h _).bind fun _ => Along.get.bind fun w => ?_
  have leaves : Along Level (do
      let o ← Update.object h
      modify fun w => { w with
        names := if w.names.get? o.name = some h then w.names.erase o.name else w.names
        registry := w.registry.filter fun _ r => r.owner ≠ some h }
      Lifecycle.forgetUser .object h o.registrations.mixins
      Interception.trackFilters h o.registrations.filters []
      Update.changeObjects (·.modifyClass o.cls fun c => { c with instances := c.instances.erase h })
      Update.changeObject h fun o => { o.withoutOrders with deleted := true }
      if o.holders = 0 then Update.changeObjects (·.release h) : Update Unit) := by
    refine (Along.object h).bind fun o => (along_modify (by intro _; exact ⟨rfl, rfl⟩)).bind fun _ => ?_
    refine (along_forgetUser _ _ _).bind fun _ => (along_trackFilters _ _ _).bind fun _ => ?_
    refine (along_changeObjects _).bind fun _ => (along_changeObject h _).bind fun _ => ?_
    exact .ite (fun _ => along_changeObjects _) fun _ => .pure _
  exact .ite (fun _ => (along_unlinkClass h).bind fun _ => leaves) fun _ => leaves

/-! ## Open calls -/

theorem along_changeHeld (h : Handle) (f : Object → Object) : Along Level (Invocation.changeHeld h f) :=
  along_changeObjects _

theorem along_popPositions (h : Handle) (filter mixin : Bool) : Along Level (Invocation.popPositions h filter mixin) := by
  have mixins : Along Level (if mixin then Invocation.popMixinPosition h else pure ⟨⟩ : Update Unit) :=
    .ite (fun _ => along_changeHeld h _) fun _ => .pure _
  unfold Invocation.popPositions
  exact .ite (fun _ => (along_changeHeld h _).bind fun _ => mixins) fun _ => mixins

theorem along_letGo (h : Handle) : Along Level (Invocation.letGo h) := by
  unfold Invocation.letGo
  refine (along_changeHeld h _).bind fun _ => Along.get.bind fun w => ?_
  exact .ite (fun _ => along_changeObjects _) fun _ => .pure _

end Level

/-! ## All updates -/

/-- Whatever is done in a world leaves the frames alone, if changes aside do. -/
theorem Deed.level {side : World → World → Prop} {terms : Terms} {v w : World} (deed : Deed side terms v w)
    (aside : ∀ v w, side v w → Level v w) : Level v w := by
  cases deed with
  | aside beside => exact aside v w beside
  | precedenceOrder c => exact .of_along (Level.along_precedenceOrder c) v
  | mixinOrder h => exact .of_along (Level.along_mixinOrder h) v
  | filterOrder h => exact .of_along (Level.along_filterOrder h) v
  | setSuperclasses c supers => exact .of_along (Level.along_setSuperclasses c supers) v
  | changeClass h cls =>
    obtain ⟨b, done, -⟩ := alone_of_changeClass h cls v
    rw [done]
    exact ⟨rfl, rfl⟩
  | setMixins reach on mixins => exact .of_relinks (.setMixins reach on mixins v)
  | setMixinGuard reach on cls guard => exact .of_relinks (.setMixinGuard reach on cls guard v)
  | setFilters reach on filters => exact .of_relinks (.setFilters reach on filters v)
  | setFilterGuard reach on name guard => exact .of_relinks (.setFilterGuard reach on name guard v)
  | defineMethod reach on method =>
    rcases Definition.exec_defineMethod reach on method v with ⟨e, failed⟩ | ⟨o, table, b, -, -, done, -⟩
    · rw [failed]
      exact .refl v
    · rw [done]
      exact ⟨rfl, rfl⟩
  | removeMethod reach on name =>
    rcases Definition.exec_removeMethod reach on name v with ⟨e, failed⟩ | ⟨o, table, b, -, -, -, done, -⟩
    · rw [failed]
      exact .refl v
    · rw [done]
      exact ⟨rfl, rfl⟩
  | createSystem root metaclass methods => exact .of_along (Level.along_createSystem root metaclass methods) v
  | enroll name cls => exact .of_along (Level.along_enroll _) v
  | enrollClass name metaclass supers => exact .of_along (Level.along_enrollClass name metaclass supers) v
  | unlink h => exact .of_along (Level.along_unlink h) v
  | release => exact ⟨rfl, rfl⟩

theorem Level.of_calmly {terms : Terms} {v w : World} (path : Calmly terms v w) : Level v w := by
  induction path with
  | refl => exact .refl v
  | tail _ deed ih => exact ih.trans (deed.level fun _ _ hushed => ⟨hushed.stack, hushed.guardDepth⟩)

/-- So does an update that leaves the marks of open calls alone. -/
theorem Level.of_deeds {α : Type} {u : Update α} (along : u.Along (Deed Hushed ⟨fun _ => True, False⟩)) :
    u.Along Level :=
  along.mono fun _ _ deed => .single (deed.level fun _ _ hushed => ⟨hushed.stack, hushed.guardDepth⟩)

theorem Level.of_exec {α : Type} {u : Update α} {v w : World} {r : Except Failure α}
    (along : u.Along (Deed Hushed ⟨fun _ => True, False⟩)) (done : u.exec v = (r, w)) : Level v w := by
  have level := Level.of_along (Level.of_deeds along) v
  rwa [done] at level

end DynamicObjects
