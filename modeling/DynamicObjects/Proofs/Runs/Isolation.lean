import DynamicObjects.Proofs.Runs.Links
import DynamicObjects.Proofs.Runs.Population

/-!
# Object systems side by side

Superclass links stay inside one object system. So does the class of an object, unless a change of class leads out of
the system: new superclasses have to be of the system of the class, but a new class is not asked for its system. No
other deed takes an object out of the system of its class. In particular, instances that are left by a class that is
destroyed stay in its system.
-/
namespace DynamicObjects

/-- Where an object belongs: its class and its system. -/
def Object.place (o : Object) : Bool × Handle × Nat :=
  (o.deleted, o.cls, o.system)

/-- An object is of the system of its class. -/
def World.AtHome (w : World) (h : Handle) : Prop :=
  ∀ o, w.live? h = some o → ∃ p, w.live? o.cls = some p ∧ p.system = o.system

/-- An object changes to a class of another system. -/
def Strays (h : Handle) (v w : World) : Prop :=
  ∃ cls o p, v.live? h = some o ∧ v.live? cls = some p ∧ p.system ≠ o.system ∧
    (Lifecycle.changeClass h cls).exec v = (.ok ⟨⟩, w)

namespace Object

theorem place_core (o : Object) : o.place = o.core.place := rfl

theorem place_apart (o : Object) : o.place = o.apart.place := rfl

theorem place_mapMethods (reach : Reach) (f : NameTable Method → NameTable Method) (o : Object) :
    (o.mapMethods reach f).place = o.place := by
  cases reach <;> rfl

end Object

/-! ## One deed -/

section deeds

variable {loose : Handle → Prop} {v w : World} {h k : Handle}

/-- Objects stay in their systems. -/
theorem Turnover.system_eq {β : Type} {view : Object → β} {new : β → Prop} {gone : Handle → Prop}
    (turnover : Turnover view new gone v w) (sees : ∀ o p, view o = view p → o.system = p.system) {p q : Object}
    (before : v.live? k = some p) (after : w.live? k = some q) : q.system = p.system := by
  by_cases goes : gone k
  · rw [turnover.left k goes] at after
    cases after
  · obtain ⟨r, there, same⟩ := turnover.stays k p before goes
    cases there.symm.trans after
    exact sees q p same

namespace World.AtHome

variable (home : v.AtHome h)

include home

/-- Where objects stay in their systems, an object that stays in its class is at home as before. -/
theorem of_stays (classed : Classed w) (systems : ∀ {k p q}, v.live? k = some p → w.live? k = some q → q.system = p.system)
    {o q : Object} (before : v.live? h = some o) (after : w.live? h = some q) (cls : q.cls = o.cls) :
    ∃ c, w.live? q.cls = some c ∧ c.system = q.system := by
  obtain ⟨c, above, same⟩ := home o before
  rw [← cls] at above
  obtain ⟨d, part, there, -⟩ := World.isClass_iff.1 (classed.cls h q after)
  exact ⟨d, there, (systems above there).trans (same.trans (systems before after).symm)⟩

theorem of_turnover {β : Type} {view : Object → β} {new : β → Prop} {gone : Handle → Prop}
    (turnover : Turnover view new gone v w) (classed : Classed w)
    (sees : ∀ o p, view o = view p → o.cls = p.cls ∧ o.system = p.system)
    (fits : ∀ q, w.live? h = some q → new (view q) → ∃ c, w.live? q.cls = some c ∧ c.system = q.system) :
    w.AtHome h := by
  intro q live
  rcases turnover.came h q live with ⟨-, comes⟩ | ⟨o, before, same⟩
  · exact fits q live comes
  · exact home.of_stays classed (turnover.system_eq fun o p same => (sees o p same).2) before live (sees q o same).1

theorem of_place (classed : Classed w) (alike : Heap.Alike Object.place v.objects w.objects) : w.AtHome h := by
  have turnover : Turnover Object.place (fun _ => False) Nobody v w :=
    .of_alike alike fun _ _ same => congrArg Prod.fst same
  exact home.of_turnover turnover classed
    (fun _ _ same => ⟨congrArg (·.2.1) same, congrArg (·.2.2) same⟩) fun _ _ => False.elim

theorem relinks (classed : Classed w) (relinks : Relinks v w) : w.AtHome h :=
  home.of_place classed (relinks.objects.comp _ Object.place_apart)

private theorem of_mapMethods {s : Handle → Prop} {reach : Reach} {on : Handle}
    {f : NameTable Method → NameTable Method} (classed : Classed w)
    (forgets : Forgets s (v.objects.modify on (Object.mapMethods reach f)) w.objects) : w.AtHome h :=
  home.of_place classed
    ((Heap.Alike.modify _ _ (Object.place_mapMethods reach f)).trans (forgets.alike fun _ => rfl))

theorem defineMethod (reach : Reach) (on : Handle) (method : Method)
    (classed : Classed ((Definition.defineMethod reach on method).exec v).2) :
    ((Definition.defineMethod reach on method).exec v).2.AtHome h := by
  rcases Definition.exec_defineMethod reach on method v with ⟨e, failed⟩ | ⟨o, table, b, -, -, done, forgets⟩
  · rw [failed]
    exact home
  · rw [done] at classed ⊢
    exact home.of_mapMethods classed forgets

theorem removeMethod (reach : Reach) (on : Handle) (name : String)
    (classed : Classed ((Definition.removeMethod reach on name).exec v).2) :
    ((Definition.removeMethod reach on name).exec v).2.AtHome h := by
  rcases Definition.exec_removeMethod reach on name v with ⟨e, failed⟩ | ⟨o, table, b, -, -, -, done, forgets⟩
  · rw [failed]
    exact home
  · rw [done] at classed ⊢
    exact home.of_mapMethods classed forgets

/-- An object that changes its class stays at home unless the class is of another system. -/
theorem changeClass (well : WellFormed loose v) (k cls : Handle) :
    ((Lifecycle.changeClass k cls).exec v).2.AtHome h ∨ Strays h v ((Lifecycle.changeClass k cls).exec v).2 := by
  have classed := (well.changeClass k cls).classed
  obtain ⟨b, is, alone⟩ := alone_of_changeClass k cls v
  have turnover : Turnover Object.alone (fun _ => False) Nobody v ((Lifecycle.changeClass k cls).exec v).2 :=
    .of_alike (is ▸ alone) fun _ _ same => (congrArg Object.deleted same :)
  rcases cls_of_changeClass k cls v with ⟨r, kept⟩ | ⟨o, w, live, isClass, -, done, -, stays⟩
  · rw [kept]
    exact .inl home
  rw [done] at classed turnover ⊢
  obtain ⟨c, part, above, -⟩ := World.isClass_iff.1 isClass
  by_cases foreign : h = k ∧ c.system ≠ o.system
  · obtain ⟨rfl, foreign⟩ := foreign
    exact .inr ⟨cls, o, c, live, above, foreign, done⟩
  refine .inl fun q after => ?_
  obtain ⟨p, before, -, moved⟩ := stays h q after
  have systems : ∀ {x p q}, v.live? x = some p → w.live? x = some q → q.system = p.system :=
    turnover.system_eq fun _ _ same => (congrArg Object.system same :)
  by_cases here : h = k
  · subst here
    cases live.symm.trans before
    rw [if_pos rfl] at moved
    obtain ⟨d, part, there, -⟩ := World.isClass_iff.1 (classed.cls h q after)
    refine ⟨d, there, ?_⟩
    calc d.system = c.system := systems (moved ▸ above) there
      _ = o.system := by_contra fun other => foreign ⟨rfl, other⟩
      _ = q.system := (systems before after).symm
  · exact home.of_stays classed systems before after (moved.trans (if_neg here))

/-- The root classes of a new system are of that system, and so is the class of both. -/
theorem createSystem (well : WellFormed loose v) (remain : v.objects.HandlesRemain) (root metaclass : String)
    (methods : SystemMethods) : ((Lifecycle.createSystem root metaclass methods).exec v).2.AtHome h := by
  have classed := (well.createSystem remain root metaclass methods).classed
  obtain ⟨same | ⟨r, k, vacant, -, turnover⟩, -⟩ := Turnover.createSystem well.sound remain root metaclass methods
  · rw [same]
    exact home
  refine home.of_turnover turnover classed
    (fun _ _ same => ⟨(congrArg Object.cls same :), (congrArg Object.system same :)⟩) ?_
  rintro q live ⟨cls, system, -⟩
  obtain ⟨c, part, there, -⟩ := World.isClass_iff.1 (classed.cls h q live)
  refine ⟨c, there, ?_⟩
  rcases turnover.came _ c there with ⟨-, -, same, -⟩ | ⟨o, before, -⟩
  · exact same.trans system.symm
  · rw [show q.cls = k from cls, World.live?, vacant] at before
    cases before

theorem enroll (well : WellFormed loose v) (room : v.objects.HasRoom) {c : Object} {cls : Handle} (name : String)
    (live : v.live? cls = some c) (isClass : c.isClass = true) (free : v.names.get? name = none)
    (classed : Classed ((Lifecycle.enroll (.ofClass name cls c.system)).exec v).2) :
    ((Lifecycle.enroll (.ofClass name cls c.system)).exec v).2.AtHome h := by
  obtain ⟨turnover, -⟩ := Turnover.enroll well room name live isClass free
  refine home.of_turnover turnover classed
    (fun _ _ same => ⟨(congrArg Object.cls same :), (congrArg Object.system same :)⟩) fun q _ new => ?_
  have own : q.cls = cls := (congrArg Object.cls new :)
  have system : q.system = c.system := (congrArg Object.system new :)
  obtain ⟨d, there, same⟩ := turnover.stays cls c live id
  exact ⟨d, own ▸ there, (congrArg Object.system same :).trans system.symm⟩

theorem enrollClass (well : WellFormed loose v) (room : v.objects.HasRoom) (name : String) (metaclass : Handle)
    (supers : List Handle) : ((Lifecycle.enrollClass name metaclass supers).exec v).2.AtHome h := by
  obtain ⟨turnover, -⟩ := Turnover.enrollClass well room name metaclass supers
  refine home.of_turnover turnover (well.enrollClass room name metaclass supers).classed
    (fun _ _ same => ⟨(congrArg Object.cls same :), (congrArg Object.system same :)⟩) fun q _ new => ?_
  obtain ⟨-, m, live, new⟩ := new
  have own : q.cls = metaclass := (congrArg Object.cls new :)
  have system : q.system = m.system := (congrArg Object.system new :)
  obtain ⟨d, there, same⟩ := turnover.stays metaclass m live id
  rw [own]
  exact ⟨d, there, (congrArg Object.system same :).trans system.symm⟩

/-- An instance of an object that is unlinked gets a class of its system. -/
theorem unlink (well : WellFormed loose v) {k : Handle} {o : Object} (live : v.live? k = some o)
    (root : o.isRoot = false) : ((Lifecycle.unlink k).exec v).2.AtHome h := by
  have classed := (well.unlink live root).classed
  obtain ⟨s, listed⟩ := well.rooted.system k o live
  obtain ⟨turnover, -⟩ := Turnover.unlink well live root
  have systems : ∀ {x p q}, v.live? x = some p → ((Lifecycle.unlink k).exec v).2.live? x = some q →
      q.system = p.system := turnover.system_eq fun _ _ same => (congrArg Object.system same :)
  intro q after
  obtain ⟨-, p, before, identity, moved⟩ := well.cls_of_unlink live root listed after
  by_cases belongs : p.cls = k
  · rw [if_pos belongs] at moved
    obtain ⟨c, above, same⟩ := home p before
    rw [belongs] at above
    cases live.symm.trans above
    obtain ⟨r, there, system⟩ : ∃ r, v.live? q.cls = some r ∧ r.system = o.system := by
      rw [moved]
      split
      · obtain ⟨r, there, -, -, system, -⟩ := well.rooted.metaclass o.system s listed
        exact ⟨r, there, system⟩
      · obtain ⟨r, there, -, -, system, -⟩ := well.rooted.root o.system s listed
        exact ⟨r, there, system⟩
    obtain ⟨d, part, now, -⟩ := World.isClass_iff.1 (classed.cls h q after)
    refine ⟨d, now, ?_⟩
    calc d.system = r.system := systems there now
      _ = o.system := system
      _ = p.system := same
      _ = q.system := (systems before after).symm
  · exact home.of_stays classed systems before after (moved.trans (if_neg belongs))

/-- Only a change of class to a class of another system takes an object out of the system of its class. -/
theorem change {good : Objects → Prop} (remain : ∀ a, good a → a.HandlesRemain) (well : WellFormed loose v)
    (change : Change Beside good v w) : w.AtHome h ∨ Strays h v w := by
  have classed := (well.change remain change).classed
  cases change with
  | aside beside => exact .inl (home.of_place classed (beside.core.comp _ Object.place_core))
  | precedenceOrder c => exact .inl (home.relinks classed (.precedenceOrder well c))
  | mixinOrder h => exact .inl (home.relinks classed (.mixinOrder well h))
  | filterOrder h => exact .inl (home.relinks classed (.filterOrder well h))
  | setSuperclasses c supers => exact .inl (home.relinks classed (.setSuperclasses well c supers))
  | changeClass k cls => exact home.changeClass well k cls
  | setMixins reach on mixins => exact .inl (home.relinks classed (.setMixins reach on mixins v))
  | setMixinGuard reach on cls guard => exact .inl (home.relinks classed (.setMixinGuard reach on cls guard v))
  | setFilters reach on filters => exact .inl (home.relinks classed (.setFilters reach on filters v))
  | setFilterGuard reach on name guard => exact .inl (home.relinks classed (.setFilterGuard reach on name guard v))
  | defineMethod reach on method => exact .inl (home.defineMethod reach on method classed)
  | removeMethod reach on name => exact .inl (home.removeMethod reach on name classed)
  | createSystem root metaclass methods permits =>
    exact .inl (home.createSystem well (remain _ permits) root metaclass methods)
  | enroll name cls permits live isClass free =>
    exact .inl (home.enroll well (remain _ permits).hasRoom name live isClass free classed)
  | enrollClass name metaclass supers permits =>
    exact .inl (home.enrollClass well (remain _ permits).hasRoom name metaclass supers)
  | unlink k live root => exact .inl (home.unlink well live root)
  | release dead =>
    refine .inl fun o live => ?_
    rw [live?_release dead] at live ⊢
    exact home o live

end World.AtHome

/-- An object that has once left the system of its class has done so by a change of class. -/
theorem WellFormed.atHome_or_strays {good : Objects → Prop} (remain : ∀ a, good a → a.HandlesRemain)
    (well : WellFormed loose v) (home : v.AtHome h) (path : Evolves good v w) :
    w.AtHome h ∨ ∃ t u, Evolves good v t ∧ t.AtHome h ∧ Strays h t u ∧ Evolves good u w := by
  induction path with
  | refl => exact .inl home
  | tail path last ih =>
    rcases ih with still | ⟨t, u, before, was, strays, after⟩
    · rcases still.change remain (well.evolves remain path) last with still | strays
      · exact .inl still
      · exact .inr ⟨_, _, path, still, strays, .refl⟩
    · exact .inr ⟨t, u, before, was, strays, after.tail last⟩

end deeds

/-! ## Reachable worlds -/

/-- Two object systems, a class of each and an instance of each class. -/
def sideBySideSession : List Expr :=
  [foundation, .createSystem (Trial.text "Root") (Trial.text "Meta") {}, Trial.createClass "A",
    .createClass (Trial.text "B") (.name "Meta") [] none, Trial.createObject "o" "A", Trial.createObject "p" "B"]

def sideBySideWorld : World :=
  (sessionWithin Heap.HandlesRemain 3 sideBySideSession).get (by decide +kernel)

/-- An object of the first system is moved to the class of the second. -/
def strayedWorld : World :=
  (stepWithin Heap.HandlesRemain 3 sideBySideWorld (.ofPair .changeClass (.name "o") (.name "B"))).get
    (by decide +kernel)

/-- And this class is destroyed. -/
def strandedWorld : World :=
  (stepWithin Heap.HandlesRemain 3 strayedWorld (.ofObject .destroy (.name "B"))).get (by decide +kernel)

end DynamicObjects
