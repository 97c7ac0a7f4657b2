import DynamicObjects.Proofs.Runs.Population

/-!
# What changes leave alone

No change gives a handle out again. Changes of links and orders, of names and registrations leave the marks of open
calls alone and objects their own methods; changes of method tables leave the marks alone.
-/
namespace DynamicObjects

open Object

variable {loose : Handle → Prop} {v w : World} {good : Objects → Prop}

/-! ## What objects hold -/

/-- The standing of an object and its own methods. -/
def Object.holding (o : Object) : (Bool × OpenCalls) × NameTable Method :=
  (o.standing, o.methods)

@[simp] theorem Object.standing_mapMethods (reach : Reach) (f : NameTable Method → NameTable Method) (o : Object) :
    (o.mapMethods reach f).standing = o.standing := by
  cases reach <;> rfl

theorem holding_of_withoutAncestry {a b : Objects} (alike : Heap.Alike withoutAncestry a b) :
    Heap.Alike holding a b :=
  alike.comp holding fun _ => rfl

/-! ## Holdings that are kept -/

/-- What keeps its handle holds what it held, and newcomers hold nothing. -/
structure Retains (a b : Objects) : Prop where
  spent : ∀ h, a.Spent h → b.Spent h
  before : ∀ h p, a.Spent h → b.get? h = some p → ∃ o, a.get? h = some o ∧ p.holding = o.holding
  new : ∀ h p, a.get? h = none → b.get? h = some p → p.openCalls = {} ∧ p.methods = .empty

namespace Retains

variable {a b c : Objects}

theorem refl (a : Objects) : Retains a a := by
  refine ⟨fun _ spent => spent, fun _ p _ found => ⟨p, found, rfl⟩, fun _ p missing found => ?_⟩
  rw [missing] at found
  cases found

theorem trans (first : Retains a b) (second : Retains b c) : Retains a c := by
  refine ⟨fun h spent => second.spent h (first.spent h spent), fun h p spent found => ?_, fun h p missing found => ?_⟩
  · obtain ⟨q, between, later⟩ := second.before h p (first.spent h spent) found
    obtain ⟨o, here, earlier⟩ := first.before h q spent between
    exact ⟨o, here, later.trans earlier⟩
  · cases between : b.get? h with
    | none => exact second.new h p between found
    | some q =>
      obtain ⟨q', here, same⟩ := second.before h p (Heap.spent_of_get? between) found
      rw [between] at here
      cases here
      obtain ⟨calls, methods⟩ := first.new h q missing between
      exact ⟨(congrArg (·.1.2) same).trans calls, (congrArg (·.2) same).trans methods⟩

theorem of_alike (alike : Heap.Alike Object.holding a b) : Retains a b := by
  refine ⟨fun h spent => spent.of_layout alike.layout, fun h p _ found => ?_, fun h p missing found => ?_⟩
  · obtain ⟨o, here, same⟩ := alike.symm.exists_of_get? found
    exact ⟨o, here, same.symm⟩
  · obtain ⟨o, here, -⟩ := alike.symm.exists_of_get? found
    rw [missing] at here
    cases here

theorem of_arrives {h : Handle} {o : Object} (arrives : Arrives h o a b) (closed : o.openCalls = {})
    (untaught : o.methods = .empty) : Retains a b := by
  refine ⟨fun k spent => (arrives.spent k spent).2, fun k p spent found => ?_, fun k p missing found => ?_⟩
  · rw [arrives.get?, if_neg (arrives.spent k spent).1] at found
    exact ⟨p, found, rfl⟩
  · rw [arrives.get?] at found
    split at found
    · cases found
      exact ⟨closed, untaught⟩
    · rw [missing] at found
      cases found

theorem release (a : Objects) (h : Handle) : Retains a (a.release h) := by
  have kept : ∀ k p, (a.release h).get? k = some p → a.get? k = some p := by
    intro k p found
    rw [Heap.get?_release] at found
    split at found
    · cases found
    · exact found
  refine ⟨fun k spent => spent.release h, fun k p _ found => ⟨p, kept k p found, rfl⟩, fun k p missing found => ?_⟩
  rw [kept k p found] at missing
  cases missing

theorem undisturbed (retains : Retains a b) : Undisturbed a b := by
  refine ⟨⟨retains.spent, fun h p spent found => ?_⟩, fun h p found => ?_⟩
  · obtain ⟨o, here, same⟩ := retains.before h p spent found
    exact ⟨o, here, (congrArg (·.1.1) same).symm⟩
  · cases here : a.get? h with
    | none => rw [Heap.openCalls_of_get?_eq_none here, (retains.new h p here found).1]
    | some o =>
      obtain ⟨o', here', same⟩ := retains.before h p (Heap.spent_of_get? here) found
      rw [Heap.openCalls_of_get? here']
      exact congrArg (·.1.2) same

end Retains

/-- Nothing happens to what objects hold, to frames and to counters, and nothing is registered or remembered anew. -/
structure Quiet (v w : World) : Prop where
  objects : Retains v.objects w.objects
  stack : w.stack = v.stack
  guardDepth : w.guardDepth = v.guardDepth
  assertionDepth : w.assertionDepth = v.assertionDepth
  epoch : w.epoch = v.epoch
  registry : ∀ path r, w.registry.get? path = some r → v.registry.get? path = some r
  aliasTargets : w.aliasTargets = v.aliasTargets

theorem Quiet.balanced (quiet : Quiet v w) : Balanced v w :=
  .of_objects quiet.objects.undisturbed quiet.stack quiet.guardDepth quiet.assertionDepth

namespace Quiet

theorem refl (v : World) : Quiet v v :=
  ⟨.refl _, rfl, rfl, rfl, rfl, fun _ _ found => found, rfl⟩

theorem trans {u : World} (first : Quiet u v) (second : Quiet v w) : Quiet u w where
  objects := first.objects.trans second.objects
  stack := second.stack.trans first.stack
  guardDepth := second.guardDepth.trans first.guardDepth
  assertionDepth := second.assertionDepth.trans first.assertionDepth
  epoch := second.epoch.trans first.epoch
  registry := fun path r found => first.registry path r (second.registry path r found)
  aliasTargets := second.aliasTargets.trans first.aliasTargets

theorem of_holding {b : Objects} (alike : Heap.Alike holding v.objects b) : Quiet v { v with objects := b } :=
  ⟨.of_alike alike, rfl, rfl, rfl, rfl, fun _ _ found => found, rfl⟩

/-! ## Quiet changes -/

theorem of_relinks (relinks : Relinks v w) : Quiet v w := by
  have alike : Heap.Alike holding v.objects w.objects := relinks.objects.comp holding fun _ => rfl
  rw [relinks.rest]
  exact ⟨.of_alike alike, rfl, rfl, rfl, rfl, fun _ _ found => found, rfl⟩

theorem changeClass (h cls : Handle) (v : World) : Quiet v ((Lifecycle.changeClass h cls).exec v).2 := by
  obtain ⟨b, done, alike⟩ := alone_of_changeClass h cls v
  rw [done]
  exact .of_holding (alike.comp holding fun _ => rfl)

theorem createSystem (sound : v.objects.Sound) (remain : v.objects.HandlesRemain) (root metaclass : String)
    (methods : SystemMethods) : Quiet v ((Lifecycle.createSystem root metaclass methods).exec v).2 := by
  rcases Lifecycle.exec_createSystem sound remain root metaclass methods with
    ⟨e, failed⟩ | ⟨rootClass, rootMetaclass, a, b, -, -, -, first, second, -, done⟩
  · rw [failed]
    exact .refl _
  · rw [done]
    have founded : Heap.Alike holding b
        (Lifecycle.founded v root metaclass rootClass rootMetaclass methods b).objects :=
      (holding_of_withoutAncestry (Hierarchy.alike_withoutAncestry_link b rootMetaclass rootClass)).trans
        (alike_founded fun _ _ => rfl)
    have arrived : Retains v.objects b := (Retains.of_arrives first rfl rfl).trans (.of_arrives second rfl rfl)
    exact ⟨arrived.trans (.of_alike founded), rfl, rfl, rfl, rfl, fun _ _ found => found, rfl⟩

theorem enroll (well : WellFormed loose v) (remain : v.objects.HandlesRemain) {c : Object} {cls : Handle} (name : String)
    (live : v.live? cls = some c) (isClass : c.isClass = true) (free : v.names.get? name = none) :
    Quiet v ((Lifecycle.enroll (.ofClass name cls c.system)).exec v).2 := by
  have listed := World.isClass_iff.2 ⟨c, _, live, Option.some_get isClass |>.symm⟩
  obtain ⟨h, a, arrives, -, done, -⟩ := well.exec_enroll remain.hasRoom
    (Object.unlinked_ofClass name cls c.system) listed free (well.rooted.system cls c live) rfl
  have joined : Heap.Alike holding a (a.join h cls) := .modify _ _ fun _ => rfl
  rw [done]
  exact ⟨(Retains.of_arrives arrives rfl rfl).trans (.of_alike joined), rfl, rfl, rfl, rfl, fun _ _ found => found, rfl⟩

theorem enrollClass (well : WellFormed loose v) (room : v.objects.HasRoom) (name : String) (metaclass : Handle)
    (supers : List Handle) : Quiet v ((Lifecycle.enrollClass name metaclass supers).exec v).2 := by
  rcases well.exec_enrolledClass room name metaclass supers with ⟨r, kept⟩ |
    ⟨p, h, a, u, -, -, arrives, -, -, is, wellAfter, outcome⟩
  · rw [kept]
    exact .refl _
  have joined : Quiet v u := by
    have joins : Heap.Alike holding a (a.join h metaclass) := .modify _ _ fun _ => rfl
    rw [is]
    exact ⟨(Retains.of_arrives arrives rfl rfl).trans (.of_alike joins), rfl, rfl, rfl, rfl, fun _ _ found => found, rfl⟩
  have set := Quiet.of_relinks (.setSuperclasses wellAfter h supers)
  rcases outcome with ⟨t, done, ended⟩ | ⟨e, t, refused, -, -, ended⟩
  · rw [ended]
    rw [done] at set
    exact joined.trans set
  · rw [refused] at set
    have left : Heap.Alike holding t.objects (t.objects.leave h metaclass) := .modify _ _ fun _ => rfl
    rw [ended]
    exact (joined.trans set).trans
      ⟨(Retains.of_alike left).trans (.release _ h), rfl, rfl, rfl, rfl, fun _ _ found => found, rfl⟩

theorem unlink {h : Handle} {o : Object} (well : WellFormed loose v) (live : v.live? h = some o)
    (root : o.isRoot = false) : Quiet v ((Lifecycle.unlink h).exec v).2 := by
  obtain ⟨u, t, is, well', here, disbands, done⟩ := well.exec_unlink live root
  obtain ⟨p, there, -⟩ := disbands.exists_live here
  have disbanded := disbands.disbanded well' here
  obtain ⟨b, remade, retires⟩ :=
    Lifecycle.exec_retire there ((disbanded.named.name p.name h).2 ⟨p, there, rfl⟩)
  have marked : Quiet v u := by
    rw [is]
    exact .of_holding (.modify _ _ fun _ => rfl)
  have apart : Quiet u t := by
    have holding : Heap.Alike holding u.objects t.objects := disbands.alone.comp holding fun _ => rfl
    rcases disbands with ⟨-, rfl⟩ | ⟨part, -, d, rfl⟩
    · exact .refl _
    · exact ⟨.of_alike holding, rfl, rfl, rfl, rfl, fun _ _ found => found, rfl⟩
  have deserts : Heap.Alike holding t.objects b :=
    remade.alike fun k o _ => view_deserted (fun _ _ => rfl) k o
  have left : Heap.Alike holding b (b.leave h p.cls) := .modify b p.cls fun _ => rfl
  have buried : Retains t.objects ((b.leave h p.cls).modify h Lifecycle.buried) :=
    .of_alike ((deserts.trans left).trans (.modify _ _ fun _ => rfl))
  rw [done, retires]
  have gone : Retains t.objects (Lifecycle.retired b h p) := by
    unfold Lifecycle.retired
    split
    · exact buried.trans (.release _ h)
    · exact buried
  have fewer : ∀ path r, (t.registry.filter fun _ r => r.owner ≠ some h).get? path = some r →
      t.registry.get? path = some r := by
    intro path r found
    rw [NameTable.get?_filter] at found
    exact (Option.filter_eq_some_iff.1 found).1
  exact (marked.trans apart).trans ⟨gone, rfl, rfl, rfl, rfl, fewer, rfl⟩

end Quiet

/-! ## Changes of method tables -/

/-- A method is defined or removed. -/
inductive Redefines (v : World) : World → Prop where
  | define (reach : Reach) (on : Handle) (method : Method) :
      Redefines v ((Definition.defineMethod reach on method).exec v).2
  | remove (reach : Reach) (on : Handle) (name : String) :
      Redefines v ((Definition.removeMethod reach on name).exec v).2

theorem Redefines.balanced (redefines : Redefines v w) : Balanced v w := by
  have changed : ∀ {reach on f registry} {s : Handle → Prop} {b : Objects},
      Forgets s (Definition.redefined reach on f registry v).objects b →
      Balanced v { Definition.redefined reach on f registry v with objects := b } := by
    intro reach on f registry s b forgets
    have alike : Heap.Alike standing v.objects b :=
      (Heap.Alike.modify v.objects on (standing_mapMethods reach f)).trans (forgets.alike fun _ => rfl)
    exact .of_objects (.of_standing alike) rfl rfl rfl
  cases redefines with
  | define reach on method =>
    rcases Definition.exec_defineMethod reach on method v with ⟨e, failed⟩ | ⟨o, table, b, -, -, done, forgets⟩
    · rw [failed]
      exact .refl _
    · rw [done]
      exact changed forgets
  | remove reach on name =>
    rcases Definition.exec_removeMethod reach on name v with ⟨e, failed⟩ | ⟨o, table, b, -, -, -, done, forgets⟩
    · rw [failed]
      exact .refl _
    · rw [done]
      exact changed forgets

/-! ## All changes -/

section changes

variable (remain : ∀ a, good a → a.HandlesRemain)

include remain

/-- What is neither changed aside nor a change of method tables is quiet. -/
theorem WellFormed.quiet_or {side : World → World → Prop} (well : WellFormed loose v) (change : Change side good v w) :
    side v w ∨ Redefines v w ∨ Quiet v w := by
  cases change with
  | aside beside => exact .inl beside
  | defineMethod reach on method => exact .inr (.inl (.define reach on method))
  | removeMethod reach on name => exact .inr (.inl (.remove reach on name))
  | precedenceOrder c => exact .inr (.inr (.of_relinks (.precedenceOrder well c)))
  | mixinOrder h => exact .inr (.inr (.of_relinks (.mixinOrder well h)))
  | filterOrder h => exact .inr (.inr (.of_relinks (.filterOrder well h)))
  | setSuperclasses c supers => exact .inr (.inr (.of_relinks (.setSuperclasses well c supers)))
  | changeClass h cls => exact .inr (.inr (.changeClass h cls v))
  | setMixins reach on mixins => exact .inr (.inr (.of_relinks (.setMixins reach on mixins v)))
  | setMixinGuard reach on cls guard => exact .inr (.inr (.of_relinks (.setMixinGuard reach on cls guard v)))
  | setFilters reach on filters => exact .inr (.inr (.of_relinks (.setFilters reach on filters v)))
  | setFilterGuard reach on name guard => exact .inr (.inr (.of_relinks (.setFilterGuard reach on name guard v)))
  | createSystem root metaclass methods permits =>
    exact .inr (.inr (.createSystem well.sound (remain _ permits) root metaclass methods))
  | enroll name cls permits live isClass free =>
    exact .inr (.inr (.enroll well (remain _ permits) name live isClass free))
  | enrollClass name metaclass supers permits =>
    exact .inr (.inr (.enrollClass well (remain _ permits).hasRoom name metaclass supers))
  | unlink h live root => exact .inr (.inr (.unlink well live root))
  | release dead => exact .inr (.inr ⟨.release _ _, rfl, rfl, rfl, rfl, fun _ _ found => found, rfl⟩)

/-- What is not changed aside leaves open calls alone. -/
theorem WellFormed.balanced_or {side : World → World → Prop} (well : WellFormed loose v) (change : Change side good v w) :
    side v w ∨ Balanced v w := by
  rcases well.quiet_or remain change with beside | redefines | quiet
  · exact .inl beside
  · exact .inr redefines.balanced
  · exact .inr quiet.balanced

omit remain in
/-- What is known stays dated. -/
theorem WellFormed.dated (well : WellFormed loose v) {terms : Terms} (remain : ∀ a, terms.good a → a.HandlesRemain)
    (path : Proceeds terms v w) (dated : v.Dated) : w.Dated := by
  induction path with
  | refl => exact dated
  | @tail u x path last ih =>
    have change : Change Mindful terms.good u x := last.mono (fun _ _ mindful => mindful) False.elim
    rcases (well.evolves remain (Proceeds.evolves path)).quiet_or remain change with mindful | redefines | quiet
    · exact mindful.dated ih
    · cases redefines with
      | define reach on method => exact ih.defineMethod reach on method
      | remove reach on name => exact ih.removeMethod reach on name
    · exact ih.of_registry quiet.registry quiet.aliasTargets quiet.epoch.ge

/-- No change gives a handle out again or makes a root of an object. -/
theorem WellFormed.persists (well : WellFormed loose v) (change : Change Beside good v w) :
    Persists v.objects w.objects := by
  rcases well.balanced_or remain change with beside | balanced
  · exact .of_alike (((beside.core.comp _ Object.links_core).comp (·.1.1) fun _ => rfl).comp
      (fun i => i.isRootClass || i.isRootMetaclass) fun _ => rfl)
  · exact balanced.objects.toPersists

theorem WellFormed.persists_of_evolves (well : WellFormed loose v) (path : Evolves good v w) :
    Persists v.objects w.objects := by
  induction path with
  | refl => exact .refl _
  | tail path last ih => exact ih.trans ((well.evolves remain path).persists remain last)

omit remain in
theorem Hushed.balanced (hushed : Hushed v w) : Balanced v w := by
  have root : Heap.Alike Object.isRoot v.objects w.objects :=
    hushed.core.comp (fun o => o.isRootClass || o.isRootMetaclass) fun _ => rfl
  have standing : Heap.Alike standing v.objects w.objects := by
    refine ⟨root.layout, fun h => ?_⟩
    have first := root.view h
    have second := hushed.openCalls.view h
    cases before : v.objects.get? h <;> cases after : w.objects.get? h <;> simp_all [Object.standing]
  exact .of_objects (.of_standing standing) hushed.stack hushed.guardDepth hushed.assertionDepth

omit remain in
theorem WellFormed.balanced_of_calmly {terms : Terms} (remain : ∀ a, terms.good a → a.HandlesRemain)
    (well : WellFormed loose v) (path : Calmly terms v w) : Balanced v w := by
  induction path with
  | refl => exact .refl _
  | tail path last ih =>
    have well' := well.evolves remain (Calmly.proceeds path).evolves
    have change : Change Hushed terms.good _ _ := last.mono (fun _ _ hushed => hushed) False.elim
    exact ih.trans ((well'.balanced_or remain change).elim Hushed.balanced id)

end changes

end DynamicObjects
