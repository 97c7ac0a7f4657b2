import DynamicObjects.Lifecycle.Creation
import DynamicObjects.Proofs.Structure.Departure
import DynamicObjects.Proofs.Structure.Naming
import DynamicObjects.Proofs.Structure.Superclasses

/-!
# Creation in well-formed worlds

A new object gets a handle that nothing in the world mentions, so it can be entered under its name and at its class
without disturbing any other link.
-/
namespace DynamicObjects

/-- An object without links of its own, apart from its class. -/
structure Object.Unlinked (o : Object) : Prop where
  live : o.deleted = false
  mixins : o.registrations.mixins = []
  part : ∀ c, o.classPart = some c → c = {}

theorem Object.unlinked_ofClass (name : String) (cls : Handle) (system : Nat) : (ofClass name cls system).Unlinked :=
  ⟨rfl, rfl, nofun⟩

theorem Object.unlinked_newClass (name : String) (cls : Handle) (system : Nat) : (newClass name cls system).Unlinked :=
  ⟨rfl, rfl, fun _ same => (Option.some.inj same).symm⟩

/-- `b` is `a` with a new object, under a handle that was not given out before. -/
structure Arrives (h : Handle) (o : Object) (a b : Objects) : Prop where
  vacant : a.get? h = none
  get? : ∀ k, b.get? k = if k = h then some o else a.get? k
  spent : ∀ k, a.Spent k → k ≠ h ∧ b.Spent k
  listed : a.Listed → b.Listed

namespace Arrives

variable {h : Handle} {o : Object} {a b : Objects}

theorem allocate (sound : a.Sound) (room : a.HasRoom) (o : Object) :
    Arrives (a.allocate o).1 o a (a.allocate o).2 :=
  ⟨Heap.get?_allocate_fst sound room o, Heap.get?_allocate sound room o, fun _ spent =>
    (Heap.spent_allocate sound room o spent).imp Ne.symm id, fun listed => listed.allocate o⟩

theorem modify (arrives : Arrives h o a b) (f : Object → Object) : Arrives h (f o) a (b.modify h f) := by
  refine ⟨arrives.vacant, fun k => ?_, fun k spent => ?_, fun listed => ?_⟩
  · rw [Heap.get?_modify, arrives.get?]
    split <;> rfl
  · exact (arrives.spent k spent).imp id fun kept => kept.of_layout (Heap.layout_modify _ _ _)
  · exact (arrives.listed listed).of_layout (Heap.layout_modify _ _ _)

theorem modify_other (arrives : Arrives h o a b) {k : Handle} (other : k ≠ h) (f : Object → Object) :
    Arrives h o (a.modify k f) (b.modify k f) := by
  refine ⟨by rw [Heap.get?_modify, if_neg (Ne.symm other), arrives.vacant], fun x => ?_, fun x spent => ?_,
    fun listed => ?_⟩
  · rw [Heap.get?_modify, Heap.get?_modify, arrives.get?]
    by_cases here : x = h
    · subst here
      rw [if_neg (Ne.symm other), if_pos rfl, if_pos rfl]
    · rw [if_neg here, if_neg here]
  · exact (arrives.spent x (spent.of_layout (Heap.layout_modify _ _ _).symm)).imp id fun kept =>
      kept.of_layout (Heap.layout_modify _ _ _)
  · exact (arrives.listed (listed.of_layout (Heap.layout_modify _ _ _).symm)).of_layout (Heap.layout_modify _ _ _)

theorem get?_self (arrives : Arrives h o a b) : b.get? h = some o := by
  rw [arrives.get?, if_pos rfl]

theorem get?_join (arrives : Arrives h o a b) {c : Handle} (different : h ≠ c) : (b.join h c).get? h = some o := by
  rw [Heap.join, Heap.get?_modify, if_neg different, arrives.get?_self]

theorem class?_vacant (arrives : Arrives h o a b) : a.class? h = none := by
  rw [Heap.class?, arrives.vacant]
  rfl

theorem class? (arrives : Arrives h o a b) (k : Handle) :
    b.class? k = if k = h then o.classPart else a.class? k := by
  unfold Heap.class?
  rw [arrives.get?]
  split <;> rfl

/-- A newcomer without links changes the links of nothing. -/
theorem of_class? {β : Type u} (arrives : Arrives h o a b) (unlinked : o.Unlinked) (view : ClassPart → Option β)
    (blank : view {} = none) (k : Handle) : (b.class? k).bind view = (a.class? k).bind view := by
  rw [arrives.class?]
  split
  · next same =>
    rw [same, arrives.class?_vacant]
    cases isPart : o.classPart with
    | none => rfl
    | some part => rw [unlinked.part part isPart]; exact blank
  · rfl

theorem supersOf (arrives : Arrives h o a b) (unlinked : o.Unlinked) : b.supersOf = a.supersOf := by
  funext k
  unfold Heap.supersOf
  rw [arrives.class?]
  split
  · next same =>
    rw [same, arrives.class?_vacant]
    cases isPart : o.classPart with
    | none => rfl
    | some part => rw [unlinked.part part isPart]; rfl
  · rfl

theorem subsOf (arrives : Arrives h o a b) (unlinked : o.Unlinked) : b.subsOf = a.subsOf := by
  funext k
  unfold Heap.subsOf
  rw [arrives.class?]
  split
  · next same =>
    rw [same, arrives.class?_vacant]
    cases isPart : o.classPart with
    | none => rfl
    | some part => rw [unlinked.part part isPart]; rfl
  · rfl

theorem cachedOrder? (arrives : Arrives h o a b) (unlinked : o.Unlinked) (k : Handle) :
    b.cachedOrder? k = a.cachedOrder? k :=
  arrives.of_class? unlinked (·.order) rfl k

section worlds

variable {v w : World} (arrives : Arrives h o v.objects w.objects)

include arrives

theorem live?_vacant : v.live? h = none := by
  unfold World.live?
  rw [arrives.vacant]
  rfl

theorem live? (unlinked : o.Unlinked) (k : Handle) : w.live? k = if k = h then some o else v.live? k := by
  unfold World.live?
  rw [arrives.get?]
  split
  · simp [Option.filter, unlinked.live]
  · rfl

theorem exists_of_live? (unlinked : o.Unlinked) {k : Handle} {p : Object} (live : v.live? k = some p) :
    w.live? k = some p ∧ k ≠ h := by
  have different : k ≠ h := by
    rintro rfl
    rw [arrives.live?_vacant] at live
    cases live
  exact ⟨by rw [arrives.live? unlinked, if_neg different, live], different⟩

theorem isClass_of_isClass (unlinked : o.Unlinked) {k : Handle} (cls : v.isClass k = true) : w.isClass k = true := by
  obtain ⟨p, part, live, isPart⟩ := World.isClass_iff.1 cls
  exact World.isClass_iff.2 ⟨p, part, (arrives.exists_of_live? unlinked live).1, isPart⟩

theorem isClass_vacant : v.isClass h = false := by
  unfold World.isClass
  rw [arrives.live?_vacant]
  rfl

theorem targetsOf (unlinked : o.Unlinked) (reach : Reach) (k : Handle) :
    w.targetsOf reach k = v.targetsOf reach k := by
  unfold World.targetsOf World.mixinsOf World.registrations?
  rw [arrives.live? unlinked]
  split
  · next same =>
    rw [same, arrives.live?_vacant]
    cases reach with
    | object => simp [Object.registrations?, unlinked.mixins]
    | instances =>
      cases isPart : o.classPart with
      | none => simp [Object.registrations?, isPart]
      | some part => simp [Object.registrations?, isPart, unlinked.part part isPart]
  · rfl

theorem usersOf (unlinked : o.Unlinked) (reach : Reach) (k : Handle) : w.usersOf reach k = v.usersOf reach k := by
  unfold World.usersOf World.classPart?
  rw [arrives.live? unlinked]
  split
  · next same =>
    rw [same, arrives.live?_vacant]
    cases isPart : o.classPart with
    | none => simp [isPart]
    | some part => cases reach <;> simp [isPart, unlinked.part part isPart, ClassPart.users]
  · rfl

theorem instancesOf (unlinked : o.Unlinked) (k : Handle) : w.instancesOf k = v.instancesOf k := by
  unfold World.instancesOf World.classPart?
  rw [arrives.live? unlinked]
  split
  · next same =>
    rw [same, arrives.live?_vacant]
    cases isPart : o.classPart with
    | none => simp [isPart]
    | some part => simp [isPart, unlinked.part part isPart]
  · rfl

end worlds

end Arrives

/-! ## What a newcomer leaves alone -/

section newcomer

variable {loose : Handle → Prop} {h : Handle} {o : Object} {v w : World}

theorem Linked.arrives (linked : Linked v) (arrives : Arrives h o v.objects w.objects) (unlinked : o.Unlinked) :
    Linked w := by
  have supers := arrives.supersOf unlinked
  refine ⟨⟨?_, ?_, ?_⟩, fun c s link => ?_, ?_⟩
  · rw [supers, arrives.subsOf unlinked]
    exact linked.mirrored.subs
  · rw [supers]
    exact linked.mirrored.nodupSupers
  · rw [arrives.subsOf unlinked]
    exact linked.mirrored.nodupSubs
  · rw [supers] at link
    obtain ⟨p, q, below, above, system⟩ := linked.live c s link
    exact ⟨p, q, (arrives.exists_of_live? unlinked below).1, (arrives.exists_of_live? unlinked above).1, system⟩
  · rw [supers]
    exact linked.grounded

theorem Rooted.arrives (rooted : Rooted loose v) (arrives : Arrives h o v.objects w.objects) (unlinked : o.Unlinked)
    (systems : w.systems = v.systems) (system : ∃ s, v.systems[o.system]? = some s) (root : o.isRoot = false) :
    Rooted (fun k => loose k ∨ (k = h ∧ o.isClass = true)) w := by
  have supers := arrives.supersOf unlinked
  have lives := arrives.live? unlinked
  have flags : o.isRootClass = false ∧ o.isRootMetaclass = false := by simpa [Object.isRoot] using root
  refine ⟨fun k p live => ?_, fun i s listed => ?_, fun i s listed => ?_, fun k p s live listed flag => ?_,
    fun k p s live listed flag => ?_, fun k p live cls links apart => ?_⟩
  · rw [systems]
    rw [lives] at live
    split at live
    · cases live
      exact system
    · exact rooted.system k p live
  · rw [systems] at listed
    obtain ⟨p, live, rest⟩ := rooted.root i s listed
    rw [supers]
    exact ⟨p, (arrives.exists_of_live? unlinked live).1, rest⟩
  · rw [systems] at listed
    obtain ⟨p, live, rest⟩ := rooted.metaclass i s listed
    rw [supers]
    exact ⟨p, (arrives.exists_of_live? unlinked live).1, rest⟩
  · rw [systems] at listed
    rw [lives] at live
    split at live
    · cases live
      rw [flags.1] at flag
      cases flag
    · exact rooted.rootOnly k p s live listed flag
  · rw [systems] at listed
    rw [lives] at live
    split at live
    · cases live
      rw [flags.2] at flag
      cases flag
    · exact rooted.metaclassOnly k p s live listed flag
  · rw [supers] at links
    rw [lives] at live
    split at live
    · next same =>
      cases live
      exact absurd (.inr ⟨same, cls⟩) apart
    · exact rooted.top k p live cls links fun no => apart (.inl no)

theorem Mixed.arrives {reach : Reach} (mixed : Mixed reach v) (arrives : Arrives h o v.objects w.objects)
    (unlinked : o.Unlinked) : Mixed reach w := by
  refine ⟨fun u c member => ?_, fun c u => ?_, fun c => ?_⟩
  · rw [arrives.targetsOf unlinked] at member
    exact arrives.isClass_of_isClass unlinked (mixed.target u c member)
  · rw [arrives.usersOf unlinked, arrives.targetsOf unlinked]
    exact mixed.users c u
  · rw [arrives.usersOf unlinked]
    exact mixed.nodup c

theorem Hierarchy.OrdersKept.arrives {a b : Objects} (kept : Hierarchy.OrdersKept a) (arrives : Arrives h o a b)
    (unlinked : o.Unlinked) (known : ∀ c s, s ∈ a.supersOf c → s ≠ h) : Hierarchy.OrdersKept b := by
  have supers := arrives.supersOf unlinked
  refine ⟨fun c l found => ?_, fun c l found s link cls => ?_⟩
  · rw [arrives.cachedOrder? unlinked] at found
    rw [supers]
    exact kept.linearizes c l found
  · rw [arrives.cachedOrder? unlinked] at found ⊢
    rw [supers] at link
    rw [arrives.class?, if_neg (known c s link)] at cls
    exact kept.above c l found s link cls

theorem Named.arrives (named : Named v) (arrives : Arrives h o v.objects w.objects) (unlinked : o.Unlinked)
    (fresh : v.names.get? o.name = none) (names : w.names = v.names.insert o.name h) : Named w := by
  refine ⟨fun n k => ?_⟩
  rw [names, NameTable.get?_insert, arrives.live? unlinked]
  by_cases here : n = o.name
  · subst here
    rw [if_pos rfl]
    constructor
    · intro same
      cases same
      exact ⟨o, by rw [if_pos rfl], rfl⟩
    · rintro ⟨p, live, name⟩
      split at live
      · next same => rw [same]
      · have taken := (named.name o.name k).2 ⟨p, live, name⟩
        rw [fresh] at taken
        cases taken
  · rw [if_neg here, named.name]
    by_cases same : k = h
    · subst same
      simp only [arrives.live?_vacant, if_true, Option.some.injEq, exists_eq_left', reduceCtorEq, false_and, exists_false,
        false_iff]
      exact fun no => here no.symm
    · simp only [if_neg same]

theorem Classed.arrives {b : Objects} (classed : Classed v) (arrives : Arrives h o v.objects b)
    (unlinked : o.Unlinked) (cls : v.isClass o.cls = true) (objects : w.objects = b.join h o.cls) : Classed w := by
  have came : Arrives h o v.objects { v with objects := b }.objects := arrives
  have identity : Heap.Alike Object.identity b w.objects := by
    rw [objects]
    exact .modify b o.cls fun _ => Object.identity_mapInstances _ _
  have isClass : ∀ k, w.isClass k = World.isClass { v with objects := b } k := fun k =>
    identity.isClass (v := { v with objects := b })
  have entered : ∀ c, w.instancesOf c = if c = o.cls then (v.instancesOf c).insert h else v.instancesOf c := by
    intro c
    rw [World.instancesOf_mapInstances (v := { v with objects := b }) objects (came.isClass_of_isClass unlinked cls),
      came.instancesOf unlinked]
  have lives : ∀ k c, (∃ p, w.live? k = some p ∧ p.cls = c) ↔
      (k = h ∧ o.cls = c) ∨ ∃ p, v.live? k = some p ∧ p.cls = c := by
    intro k c
    have remade := Heap.Remade.modify b o.cls (Object.mapInstances (·.insert h))
    have here : w.live? k = (World.live? { v with objects := b } k).map _ := Heap.Remade.live?
      (v := { v with objects := b }) (by rw [objects]; exact remade) (fun k o => by split <;> rfl) k
    have same : (∃ p, w.live? k = some p ∧ p.cls = c) ↔ ∃ p, World.live? { v with objects := b } k = some p ∧ p.cls = c := by
      rw [here]
      cases World.live? { v with objects := b } k with
      | none => simp
      | some p => simp only [Option.map_some, Option.some.injEq, exists_eq_left']; split <;> rfl
    rw [same, came.live? unlinked]
    by_cases new : k = h
    · subst new
      simp [came.live?_vacant]
    · simp [new]
  refine ⟨fun k p live => ?_, fun c k => ?_⟩
  · rw [isClass]
    rcases (lives k p.cls).1 ⟨p, live, rfl⟩ with ⟨-, same⟩ | ⟨q, before, same⟩
    · exact came.isClass_of_isClass unlinked (same ▸ cls)
    · exact came.isClass_of_isClass unlinked (same ▸ classed.cls k q before)
  · rw [lives, entered, ← classed.instances]
    by_cases here : c = o.cls
    · subst here
      simp
    · simp [here, Ne.symm here]

end newcomer

theorem Lifecycle.exec_allocate {w : World} {o : Object} {h : Handle} {a : Objects}
    (allocated : w.objects.allocate o = (h, a)) : (allocate o).exec w = (.ok h, { w with objects := a }) := by
  unfold allocate
  rw [Update.exec_modifyGet, allocated]

theorem Lifecycle.exec_giveName (name : String) (h : Handle) (w : World) :
    (giveName name h).exec w = (.ok ⟨⟩, { w with names := w.names.insert name h }) := rfl

namespace WellFormed

variable {loose : Handle → Prop} {w : World}

/-- Objects without links of their own can be enrolled at live classes under free names. -/
theorem exec_enroll (well : WellFormed loose w) (room : w.objects.HasRoom) {o : Object} (unlinked : o.Unlinked)
    (cls : w.isClass o.cls = true) (free : w.names.get? o.name = none)
    (system : ∃ s, w.systems[o.system]? = some s) (root : o.isRoot = false) :
    ∃ h a, Arrives h o w.objects a ∧ h ≠ o.cls ∧
      (Lifecycle.enroll o).exec w =
        (.ok h, { w with objects := a.join h o.cls, names := w.names.insert o.name h }) ∧
      WellFormed (fun k => loose k ∨ (k = h ∧ o.isClass = true))
        { w with objects := a.join h o.cls, names := w.names.insert o.name h } := by
  have arrives := Arrives.allocate well.sound room o
  generalize allocated : w.objects.allocate o = allocation at arrives
  obtain ⟨h, a⟩ := allocation
  have came : Arrives h o w.objects { w with objects := a, names := w.names.insert o.name h }.objects := arrives
  have different : h ≠ o.cls := by
    rintro rfl
    rw [came.isClass_vacant] at cls
    cases cls
  have joined : ∀ {β : Type} {view : Object → β},
      (∀ (f : HandleSet → HandleSet) o, view (o.mapInstances f) = view o) → Heap.Alike view a (a.join h o.cls) :=
    fun blind => .modify a o.cls fun o => blind _ o
  have ancestry : Heap.Alike Object.ancestry a (a.join h o.cls) := joined Object.ancestry_mapInstances
  refine ⟨h, a, arrives, different, ?_, ?_⟩
  · unfold Lifecycle.enroll
    rw [Update.exec_bind_of_ok (Lifecycle.exec_allocate allocated),
      Update.exec_bind_of_ok (Lifecycle.exec_giveName o.name h _)]
    exact Update.exec_bind_of_ok (Update.exec_changeClass_of_isClass (came.isClass_of_isClass unlinked cls) _) _
  · have sound := Heap.sound_allocate well.sound o
    rw [allocated] at sound
    have known : ∀ c s, s ∈ w.objects.supersOf c → s ≠ h := by
      rintro c s link rfl
      obtain ⟨-, p, -, live, -⟩ := well.linked.live c s link
      rw [came.live?_vacant] at live
      cases live
    exact {
      sound := sound.of_layout ancestry.layout
      named := (well.named.arrives came unlinked free rfl).of_alike ancestry.identity_of_ancestry rfl
      classed := well.classed.arrives arrives unlinked cls rfl
      linked := (well.linked.arrives came unlinked).of_ancestry ancestry
      rooted := (well.rooted.arrives came unlinked rfl system root).of_ancestry ancestry rfl
      mixed := fun reach => ((well.mixed reach).arrives came unlinked).of_alike
        (joined (Object.mixing_mapInstances reach))
      kept := (well.kept.arrives arrives unlinked known).of_alike (joined Object.precedence_mapInstances) }

/-! ## New classes -/

end WellFormed

namespace Lifecycle

variable {w : World}

/-- A class is enrolled and then linked to its superclasses, or discarded if they are refused. -/
theorem exec_enrollClass (name : String) (metaclass : Handle) (supers : List Handle) (w : World) :
    (∃ e, (enrollClass name metaclass supers).exec w = (.error e, w)) ∨
      ∃ o, w.live? metaclass = some o ∧ w.isMetaclass metaclass = true ∧
        let newcomer := Object.newClass (Definition.qualify name) metaclass o.system
        w.names.get? newcomer.name = none ∧
          ((∃ r v, (enroll newcomer).exec w = (.error r, v) ∧
              (enrollClass name metaclass supers).exec w = (.error r, v)) ∨
            ∃ h v, (enroll newcomer).exec w = (.ok h, v) ∧
              ((∃ t, (Hierarchy.setSuperclasses h supers).exec v = (.ok ⟨⟩, t) ∧
                  (enrollClass name metaclass supers).exec w = (.ok h, t)) ∨
                ∃ e t, (Hierarchy.setSuperclasses h supers).exec v = (.error e, t) ∧
                  (enrollClass name metaclass supers).exec w =
                    ((discard h metaclass (Definition.qualify name) >>= fun _ => throw e : Update Handle).exec t))) := by
  unfold enrollClass
  rw [Update.exec_bind_of_ok (Update.exec_isMetaclass metaclass w)]
  cases meta_ : w.isMetaclass metaclass with
  | false => exact .inl ⟨_, rfl⟩
  | true =>
    simp only [if_true]
    obtain ⟨o, live⟩ : ∃ o, w.live? metaclass = some o := by
      cases live : w.live? metaclass with
      | none => simp [World.isMetaclass, live] at meta_
      | some o => exact ⟨o, rfl⟩
    rcases exec_claimName name w with ⟨e, failed⟩ | ⟨claimed, free⟩
    · exact .inl ⟨e, Update.exec_bind_of_error failed _⟩
    · refine .inr ⟨o, live, trivial, free, ?_⟩
      rw [Update.exec_bind_of_ok claimed, Update.exec_bind_of_ok (Update.exec_object_of_live live)]
      rcases enrolled : (enroll (.newClass (Definition.qualify name) metaclass o.system)).exec w with ⟨r, v⟩
      cases r with
      | error e => exact .inl ⟨e, v, rfl, Update.exec_bind_of_error enrolled _⟩
      | ok h =>
        refine .inr ⟨h, v, rfl, ?_⟩
        rw [Update.exec_bind_of_ok enrolled]
        rcases set : (Hierarchy.setSuperclasses h supers).exec v with ⟨r, t⟩
        cases r with
        | ok u => exact .inl ⟨t, rfl, by rw [Update.exec_bind, Update.exec_tryCatch, set]; rfl⟩
        | error e =>
          refine .inr ⟨e, t, rfl, ?_⟩
          rw [Update.exec_bind, Update.exec_tryCatch, set]
          simp only [Update.exec_bind]
          rcases (discard h metaclass (Definition.qualify name)).exec t with ⟨r, u⟩
          cases r <;> rfl

theorem exec_discard {h metaclass : Handle} {name : String} (top : (w.objects.leave h metaclass).supersOf h = []) :
    (discard h metaclass name).exec w =
      (.ok ⟨⟩, { w with
        objects := (w.objects.leave h metaclass).release h
        names := w.names.erase name }) := by
  unfold discard
  rw [Update.exec_bind_of_ok (Update.exec_changeObjects _ _), Update.exec_bind_of_ok (Update.exec_get _)]
  have none : (Heap.supersOf (w.objects.modifyClass metaclass fun c => { c with instances := c.instances.erase h }) h) =
      [] := top
  simp only [none]
  rfl

end Lifecycle

namespace WellFormed

variable {loose : Handle → Prop} {w : World}

/-- A class without any links can be discarded. -/
theorem discard {h : Handle} {o : Object} (well : WellFormed (fun k => loose k ∨ k = h) w) (live : w.live? h = some o)
    (root : o.isRoot = false) (top : w.objects.supersOf h = []) (bottom : w.objects.subsOf h = [])
    (instances : ∀ k, k ∉ w.instancesOf h) (users : ∀ reach, w.usersOf reach h = [])
    (targets : ∀ reach, w.targetsOf reach h = []) :
    WellFormed loose { w with
      objects := (w.objects.leave h o.cls).release h
      names := w.names.erase o.name } := by
  have ancestry : Heap.Alike Object.ancestry w.objects (w.objects.leave h o.cls) :=
    .modify _ _ fun o => Object.ancestry_mapInstances _ o
  have severed : Severed loose h w := {
    sound := well.sound
    named := well.named
    vacated := well.classed.vacated fun k member => absurd member (instances k)
    linked := well.linked
    supers := top
    subs := bottom
    rooted := well.rooted
    unmixed := fun reach => (well.mixed reach).unmixed (users reach) (targets reach)
    kept := well.kept }
  exact severed.depart live root (departs_release _ h) ((well.sound.of_layout ancestry.layout).release h) rfl rfl

/-- What is left of a new class when its superclass links and its order are put aside. -/
private theorem newClass_of_withoutAncestry {o : Object} {name : String} {metaclass : Handle} {system : Nat}
    (looks : o.withoutAncestry = (Object.newClass name metaclass system).withoutAncestry) :
    ∃ part, o.classPart = some part ∧ part.instances = .empty ∧ (∀ reach, part.users reach = []) ∧
      part.registrations.mixins = [] := by
  have same : o.classPart.map _ = some _ := congrArg Object.classPart looks
  obtain ⟨part, isPart, bare⟩ := Option.map_eq_some_iff.1 same
  refine ⟨part, isPart, congrArg ClassPart.instances bare, fun reach => ?_,
    congrArg (·.registrations.mixins) bare⟩
  cases reach with
  | object => exact congrArg ClassPart.objectUsers bare
  | instances => exact congrArg ClassPart.classUsers bare

private theorem discard_refused {v t : World} {h metaclass : Handle} {name : String} {system : Nat}
    (well : WellFormed (fun k => loose k ∨ k = h) t)
    (after : Hierarchy.Replaced v.objects v.objects.supersOf t.objects)
    (here : v.objects.get? h = some (.newClass name metaclass system)) (top : v.objects.supersOf h = [])
    (apart : ∀ k, h ∉ v.objects.supersOf k) :
    WellFormed loose { t with
      objects := (t.objects.leave h metaclass).release h
      names := t.names.erase name } := by
  obtain ⟨o, found, looks⟩ := after.alike.exists_of_get? here
  obtain ⟨part, isPart, instances, users, mixins⟩ := newClass_of_withoutAncestry looks
  have live : t.live? h = some o := World.live?_eq_some_iff.2 ⟨found, congrArg Object.deleted looks⟩
  have cls : o.cls = metaclass := congrArg Object.cls looks
  have named : o.name = name := congrArg Object.name looks
  have own : o.registrations.mixins = [] := congrArg (·.registrations.mixins) looks
  subst cls named
  refine well.discard live (congrArg Object.isRoot looks) ?_ ?_ ?_ ?_ ?_
  · rw [after.supers, top]
  · refine List.eq_nil_iff_forall_not_mem.2 fun k sub => apart k ?_
    rw [← after.supers]
    exact (after.mirrored.subs k h).1 sub
  · intro k member
    rw [World.mem_instancesOf_of_live live isPart, instances] at member
    exact List.not_mem_nil member
  · intro reach
    simp [World.usersOf, World.classPart?, live, isPart, users]
  · intro reach
    cases reach <;>
      simp [World.targetsOf, World.mixinsOf, World.registrations?, live, Object.registrations?, isPart, own, mixins]

theorem isClass_of_isMetaclass {c : Handle} (isMetaclass : w.isMetaclass c = true) : w.isClass c = true := by
  unfold World.isMetaclass at isMetaclass
  split at isMetaclass
  · exact (Bool.and_eq_true_iff.1 isMetaclass).1
  · cases isMetaclass

/-- A new class arrives and is linked to its superclasses; if they are refused, it leaves its metaclass and goes. -/
theorem exec_enrolledClass (well : WellFormed loose w) (room : w.objects.HasRoom) (name : String)
    (metaclass : Handle) (supers : List Handle) :
    (∃ e, (Lifecycle.enrollClass name metaclass supers).exec w = (.error e, w)) ∨
      ∃ (p : Object) (h : Handle) (a : Objects) (v : World), w.live? metaclass = some p ∧
        w.names.get? (Definition.qualify name) = none ∧
        Arrives h (.newClass (Definition.qualify name) metaclass p.system) w.objects a ∧ h ≠ metaclass ∧
        w.isMetaclass metaclass = true ∧
        v = { w with objects := a.join h metaclass, names := w.names.insert (Definition.qualify name) h } ∧
        WellFormed (fun k => loose k ∨ k = h) v ∧
        ((∃ t, (Hierarchy.setSuperclasses h supers).exec v = (.ok ⟨⟩, t) ∧
            (Lifecycle.enrollClass name metaclass supers).exec w = (.ok h, t)) ∨
          ∃ e t, (Hierarchy.setSuperclasses h supers).exec v = (.error e, t) ∧ t = { v with objects := t.objects } ∧
            Refused h e v.objects t.objects ∧
            (Lifecycle.enrollClass name metaclass supers).exec w = (.error e, { t with
              objects := (t.objects.leave h metaclass).release h
              names := t.names.erase (Definition.qualify name) })) := by
  rcases Lifecycle.exec_enrollClass name metaclass supers w with ⟨e, kept⟩ | ⟨p, found, isMetaclass, free, rest⟩
  · exact .inl ⟨e, kept⟩
  have cls := isClass_of_isMetaclass isMetaclass
  have blank := Object.unlinked_newClass (Definition.qualify name) metaclass p.system
  obtain ⟨h, a, arrives, different, enrolled, wellAfter⟩ :=
    well.exec_enroll room blank cls free (well.rooted.system metaclass p found) rfl
  obtain ⟨v, is⟩ : ∃ v : World, v = { w with
    objects := a.join h metaclass
    names := w.names.insert (Definition.qualify name) h } := ⟨_, rfl⟩
  have enters : (Lifecycle.enroll (.newClass (Definition.qualify name) metaclass p.system)).exec w = (.ok h, v) :=
    is ▸ enrolled
  have kept : WellFormed (fun k => loose k ∨ k = h) v :=
    is ▸ wellAfter.mono fun k either => either.imp id And.left
  have objects : v.objects = a.join h metaclass := congrArg World.objects is
  clear enrolled wellAfter
  rw [enters] at rest
  rcases rest with ⟨r, u, no, -⟩ | ⟨k, u, same, outcome⟩
  · cases no
  cases same
  refine .inr ⟨p, h, a, v, found, free, arrives, different, isMetaclass, is, kept, ?_⟩
  rcases outcome with ⟨t, done, ended⟩ | ⟨e, t, refused, ended⟩
  · exact .inl ⟨t, done, ended⟩
  rcases kept.exec_setSuperclasses h supers with ⟨e', b, failed, after⟩ | ⟨o, new, c, b, -, -, -, -, -, done, -⟩
  · rw [refused] at failed
    obtain ⟨same, changed⟩ := Prod.mk.inj failed
    cases same
    have now : t.objects = b := congrArg World.objects changed
    have joined : (a.join h metaclass).supersOf = w.objects.supersOf :=
      (Heap.Alike.supersOf_of_ancestry (.modify a metaclass fun o => Object.ancestry_mapInstances _ o)).trans
        (arrives.supersOf blank)
    have left : (t.objects.leave h metaclass).supersOf = t.objects.supersOf :=
      Heap.Alike.supersOf_of_ancestry (.modify t.objects metaclass fun o => Object.ancestry_mapInstances _ o)
    have top : (t.objects.leave h metaclass).supersOf h = [] := by
      rw [left, now, after.supers, objects, joined]
      exact Heap.supersOf_eq_nil arrives.class?_vacant
    refine .inr ⟨e, t, refused, by rw [now, changed], now ▸ after, ?_⟩
    rw [ended, Update.exec_bind_of_ok (Lifecycle.exec_discard top), Update.exec_throw]
  · rw [refused] at done
    cases done

/-- Creating a class keeps a world well-formed, whether its superclasses are accepted or not. -/
theorem enrollClass (well : WellFormed loose w) (room : w.objects.HasRoom) (name : String) (metaclass : Handle)
    (supers : List Handle) : WellFormed loose ((Lifecycle.enrollClass name metaclass supers).exec w).2 := by
  rcases well.exec_enrolledClass room name metaclass supers with ⟨e, kept⟩ |
    ⟨p, h, a, v, -, -, arrives, different, -, rfl, wellAfter, outcome⟩
  · rw [kept]
    exact well
  obtain ⟨kept, placed⟩ := wellAfter.setSuperclasses h supers
  rcases outcome with ⟨t, done, ended⟩ | ⟨e, t, refused, -, after, ended⟩
  · rw [ended]
    rw [done] at placed
    exact (placed rfl).mono fun k ⟨either, other⟩ => either.resolve_right other
  · clear placed
    rw [refused] at kept
    have blank := Object.unlinked_newClass (Definition.qualify name) metaclass p.system
    have same : (a.join h metaclass).supersOf = w.objects.supersOf :=
      (Heap.Alike.supersOf_of_ancestry (.modify a metaclass fun o => Object.ancestry_mapInstances _ o)).trans
        (arrives.supersOf blank)
    have top : (a.join h metaclass).supersOf h = [] := by
      rw [same]
      exact Heap.supersOf_eq_nil arrives.class?_vacant
    have apart : ∀ k, h ∉ (a.join h metaclass).supersOf k := by
      intro k link
      rw [same] at link
      obtain ⟨-, q, -, above, -⟩ := well.linked.live k h link
      rw [World.live?, arrives.vacant] at above
      cases above
    rw [ended]
    exact discard_refused kept after.toReplaced (arrives.get?_join different) top apart

end WellFormed

end DynamicObjects
