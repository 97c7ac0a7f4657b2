import DynamicObjects.Proofs.Hierarchy.Replacement
import DynamicObjects.Proofs.Interception.Forgetting
import DynamicObjects.Proofs.Structure.Orders

/-!
# Superclasses of well-formed worlds

Replacing superclasses keeps a world well-formed: a list that passes the checks and closes no cycle becomes the list of
superclasses, any other list changes no link.
-/
namespace DynamicObjects

namespace Object

theorem identity_withoutAncestry (o : Object) : o.withoutAncestry.identity = o.identity := by
  simp [withoutAncestry, identity, isClass]

theorem membership_withoutAncestry (o : Object) : o.withoutAncestry.membership = o.membership := by
  simp [withoutAncestry, membership, identity, isClass, Function.comp_def]

theorem mixing_withoutAncestry (reach : Reach) (o : Object) : o.withoutAncestry.mixing reach = o.mixing reach := by
  cases reach <;> simp [withoutAncestry, mixing, registrations?, identity, isClass, Function.comp_def, ClassPart.users]

theorem dependents_withoutPrecedence (o : Object) : o.withoutPrecedence.dependents = o.dependents := by
  simp [withoutPrecedence, dependents, Function.comp_def]

theorem affected_withoutAncestry (o : Object) : o.withoutAncestry.affected = o.affected := by
  simp [withoutAncestry, affected, Function.comp_def]

end Object

namespace Hierarchy

theorem alike_withoutAncestry_link (objects : Objects) (c s : Handle) :
    Heap.Alike Object.withoutAncestry objects (link objects c s) :=
  alike_link (fun f o => by simp [Object.withoutAncestry, Function.comp_def])
    (fun f o => by simp [Object.withoutAncestry, Function.comp_def]) objects c s

theorem alike_withoutAncestry_unlink (objects : Objects) (c s : Handle) :
    Heap.Alike Object.withoutAncestry objects (unlink objects c s) :=
  alike_unlink (fun f o => by simp [Object.withoutAncestry, Function.comp_def])
    (fun f o => by simp [Object.withoutAncestry, Function.comp_def]) objects c s

end Hierarchy

/-- A class can be linked to a class of its system that does not inherit from it. -/
theorem Linked.link {v w : World} (linked : Linked v) {c s : Handle} {o p : Object} (below : v.live? c = some o)
    (cls : o.isClass = true) (above : v.live? s = some p) (sup : p.isClass = true) (system : p.system = o.system)
    (apart : ¬Hierarchy.Reaches v.objects.supersOf s c) (new : s ∉ v.objects.supersOf c)
    (objects : w.objects = Hierarchy.link v.objects c s) : Linked w := by
  have isSome : ∀ {k : Handle} {q : Object}, v.live? k = some q → q.isClass = true → (v.objects.class? k).isSome := by
    intro k q live isClass
    rw [Heap.class?, (World.live?_eq_some_iff.1 live).1]
    exact isClass
  have identity : Heap.Alike Object.identity v.objects w.objects := by
    rw [objects]
    exact (Hierarchy.alike_withoutAncestry_link _ c s).comp _ fun o => (Object.identity_withoutAncestry o).symm
  have supers : w.objects.supersOf = Function.update v.objects.supersOf c (s :: v.objects.supersOf c) := by
    funext k
    rw [objects, Hierarchy.supersOf_link (isSome below cls)]
    by_cases here : k = c
    · subst here
      simp
    · simp [here]
  refine ⟨?_, fun k t link => ?_, fun k => ?_⟩
  · rw [objects]
    exact linked.mirrored.link (isSome below cls) (isSome above sup) new
  · have former : ∃ q r, v.live? k = some q ∧ v.live? t = some r ∧ r.system = q.system := by
      rw [supers] at link
      by_cases here : k = c
      · subst here
        rw [Function.update_self] at link
        rcases List.mem_cons.1 link with rfl | old
        · exact ⟨o, p, below, above, system⟩
        · exact linked.live k t old
      · rw [Function.update_of_ne here] at link
        exact linked.live k t link
    obtain ⟨q, r, first, second, systems⟩ := former
    obtain ⟨q', after, looks⟩ := identity.exists_live first
    obtain ⟨r', after', looks'⟩ := identity.exists_live second
    refine ⟨q', r', after, after', ?_⟩
    have one : q'.system = q.system := congrArg Identity.system looks
    have other : r'.system = r.system := congrArg Identity.system looks'
    rw [one, other, systems]
  · rw [supers]
    exact Hierarchy.grounded_update_cons linked.grounded apart k

namespace WellFormed

variable {loose : Handle → Prop} {w : World}

/-! ## Dependent classes -/

theorem isClass_of_mem_targetsOf {u k : Handle} (member : k ∈ w.targetsOf .instances u) : w.isClass u = true := by
  unfold World.targetsOf World.mixinsOf World.registrations? at member
  cases live : w.live? u with
  | none => rw [live] at member; cases member
  | some o =>
    cases cls : o.classPart with
    | none => simp [live, Object.registrations?, cls] at member
    | some part => exact World.isClass_iff.2 ⟨o, part, live, cls⟩

theorem mem_usersOf_of_live {c u : Handle} {o : Object} {part : ClassPart} {reach : Reach} (live : w.live? c = some o)
    (cls : o.classPart = some part) : u ∈ w.usersOf reach c ↔ u ∈ part.users reach := by
  simp [World.usersOf, World.classPart?, live, cls]

/-- Classes whose instances depend on a live class are live. -/
theorem isClass_of_dependent (well : WellFormed loose w) {c k : Handle} (cls : w.isClass c = true)
    (path : Hierarchy.Reaches (Hierarchy.dependentsOf w.objects) c k) : w.isClass k = true := by
  induction path with
  | refl => exact cls
  | @tail x k _ link isClass =>
    obtain ⟨o, part, live, here⟩ := World.isClass_iff.1 isClass
    have found : w.objects.class? x = some part := by
      rw [Heap.class?, (World.live?_eq_some_iff.1 live).1, Option.bind_some, here]
    obtain ⟨part', again, member⟩ := Hierarchy.mem_dependentsOf.1 link
    rw [found] at again
    cases again
    rcases member with sub | user
    · have listed : k ∈ w.objects.subsOf x := by
        unfold Heap.subsOf
        rw [found]
        exact sub
      have up := (well.linked.mirrored.subs k x).1 listed
      obtain ⟨p, -, below, -⟩ := well.linked.live k x up
      obtain ⟨q, isSome⟩ := Option.isSome_iff_exists.1 (Hierarchy.isSome_class?_of_mem up)
      rw [Heap.class?, (World.live?_eq_some_iff.1 below).1, Option.bind_some] at isSome
      exact World.isClass_iff.2 ⟨p, q, below, isSome⟩
    · have listed : k ∈ w.usersOf .instances x := (mem_usersOf_of_live live here).2 user
      exact isClass_of_mem_targetsOf ((well.mixed .instances).users x k |>.1 listed)

/-! ## The checks -/

/-- What a list of superclasses has to be. -/
def Admissible (w : World) (system : Nat) (supers : List Handle) : Prop :=
  ∀ s ∈ supers, w.isClass s = true ∧ ∃ p, w.live? s = some p ∧ p.system = system

theorem exec_requireSuperclass (name : String) (system : Nat) (s : Handle) (w : World) :
    (∃ e, (Hierarchy.requireSuperclass name system s).exec w = (.error e, w)) ∨
      ((Hierarchy.requireSuperclass name system s).exec w = (.ok ⟨⟩, w) ∧ Admissible w system [s]) := by
  unfold Hierarchy.requireSuperclass
  rw [Update.exec_bind_of_ok (Update.exec_get w)]
  cases cls : w.isClass s with
  | false => exact .inl ⟨_, rfl⟩
  | true =>
    obtain ⟨p, part, live, -⟩ := World.isClass_iff.1 cls
    simp only [if_true]
    rw [Update.exec_bind_of_ok (Update.exec_object_of_live live)]
    by_cases same : p.system = system
    · rw [if_pos same]
      refine .inr ⟨rfl, fun t member => ?_⟩
      rw [List.mem_singleton.1 member]
      exact ⟨cls, p, live, same⟩
    · rw [if_neg same]
      exact .inl ⟨_, rfl⟩

theorem exec_requireSuperclasses (name : String) (system : Nat) (supers : List Handle) (w : World) :
    (∃ e, (supers.forM (Hierarchy.requireSuperclass name system)).exec w = (.error e, w)) ∨
      ((supers.forM (Hierarchy.requireSuperclass name system)).exec w = (.ok ⟨⟩, w) ∧
        Admissible w system supers) := by
  induction supers with
  | nil => exact .inr ⟨rfl, fun _ no => absurd no List.not_mem_nil⟩
  | cons s supers ih =>
    rw [Update.exec_forM_cons]
    rcases exec_requireSuperclass name system s w with ⟨e, failed⟩ | ⟨done, here⟩
    · exact .inl ⟨e, Update.exec_bind_of_error failed _⟩
    · rw [Update.exec_bind_of_ok done]
      refine ih.imp id fun ⟨rest, all⟩ => ⟨rest, fun t member => ?_⟩
      rcases List.mem_cons.1 member with rfl | later
      · exact here t (List.mem_singleton_self t)
      · exact all t later

/-- No later superclass has an order that contains the earlier one. -/
private theorem exec_requireBefore (name : String) (earlier : Handle) (rest : List Handle) (w : World)
    (well : WellFormed loose w) (classes : ∀ s ∈ rest, w.isClass s = true) :
    ∃ b, Filled w.objects b ∧ ∃ r, ((forIn rest PUnit.unit fun later _ => do
        if (← Update.precedenceOrder later).contains earlier then
          throw (.structural (.superclassOrder name (← Update.nameOf earlier) (← Update.nameOf later)))
        pure (ForInStep.yield PUnit.unit)) : Update PUnit).exec w = (r, { w with objects := b }) ∧
      ((∃ e, r = .error e) ∨ (r = .ok ⟨⟩ ∧ earlier ∉ rest)) := by
  induction rest generalizing w with
  | nil => exact ⟨w.objects, .refl well.kept, _, rfl, .inr ⟨rfl, List.not_mem_nil⟩⟩
  | cons later rest ih =>
    obtain ⟨order, b, done, lin, filled⟩ := well.exec_precedenceOrder (classes later List.mem_cons_self)
    rw [List.forIn_cons, Update.exec_bind, Update.exec_bind_of_ok done]
    cases inside : order.contains earlier with
    | true => exact ⟨b, filled, _, rfl, .inl ⟨_, rfl⟩⟩
    | false =>
      have alike : Heap.Alike Object.identity w.objects b := filled.identity
      obtain ⟨c, more, r, rest_done, outcome⟩ := ih { w with objects := b } (well.filled filled rfl rfl)
        fun s member => (alike.isClass (v := w) (w := { w with objects := b })).trans
          (classes s (List.mem_cons_of_mem later member))
      refine ⟨c, filled.trans more, r, rest_done, outcome.imp id fun ⟨ok, apart⟩ => ⟨ok, fun member => ?_⟩⟩
      rcases List.mem_cons.1 member with rfl | behind
      · have here : order.contains earlier = true := List.contains_iff_mem.2 (lin.mem_iff.2 .refl)
        rw [here] at inside
        cases inside
      · exact apart behind

/-- Superclasses in dependence order are different from each other. -/
theorem exec_requireDependenceOrder (name : String) (supers : List Handle) (w : World) (well : WellFormed loose w)
    (classes : ∀ s ∈ supers, w.isClass s = true) :
    ∃ b, Filled w.objects b ∧ ∃ r, (Hierarchy.requireDependenceOrder name supers).exec w =
        (r, { w with objects := b }) ∧ ((∃ e, r = .error e) ∨ (r = .ok ⟨⟩ ∧ supers.Nodup)) := by
  induction supers generalizing w with
  | nil => exact ⟨w.objects, .refl well.kept, _, rfl, .inr ⟨rfl, List.nodup_nil⟩⟩
  | cons earlier rest ih =>
    obtain ⟨b, filled, r, done, outcome⟩ := exec_requireBefore name earlier rest w well
      fun s member => classes s (List.mem_cons_of_mem earlier member)
    unfold Hierarchy.requireDependenceOrder
    rcases outcome with ⟨e, rfl⟩ | ⟨rfl, apart⟩
    · exact ⟨b, filled, _, Update.exec_bind_of_error done _, .inl ⟨e, rfl⟩⟩
    · rw [Update.exec_bind_of_ok done]
      have alike : Heap.Alike Object.identity w.objects b := filled.identity
      obtain ⟨c, more, r, rest_done, outcome⟩ := ih { w with objects := b } (well.filled filled rfl rfl)
        fun s member => (alike.isClass (v := w) (w := { w with objects := b })).trans
          (classes s (List.mem_cons_of_mem earlier member))
      exact ⟨c, filled.trans more, r, rest_done, outcome.imp id fun ⟨ok, nodup⟩ =>
        ⟨ok, List.nodup_cons.2 ⟨apart, nodup⟩⟩⟩

/-! ## The replacement -/

/-- The class at the top of a system that a class without superclasses gets. -/
theorem exec_defaultSuperclass (c : Handle) (system : ObjectSystem) (w : World) :
    (Hierarchy.defaultSuperclass c system).exec w =
      (.ok (if w.isMetaclass c then system.rootMetaclass else system.rootClass), w) := by
  unfold Hierarchy.defaultSuperclass
  rw [Update.exec_bind_of_ok (Update.exec_isMetaclass c w)]
  cases w.isMetaclass c <;> rfl

/-- The last part of setting superclasses: the checks of the new ones and the replacement. -/
def replaceChecked (c : Handle) (o : Object) (old new : List Handle) : Update Unit := do
  new.forM (Hierarchy.requireSuperclass o.name o.system)
  Hierarchy.requireDependenceOrder o.name new
  let before := (← get).objects
  let dependents := Hierarchy.dependentSubclasses before c
  let (defect, objects) := Hierarchy.replaceSuperclasses before c old new dependents
  modify fun w => { w with objects }
  match defect with
  | none => Interception.forgetAffected dependents
  | some defect => throw (.structural defect)

/-- What a refused list of superclasses leads to: the superclass links are as they were. Subclass links are in their
former order, too, unless new links were tried and closed a cycle. -/
structure Refused (c : Handle) (e : Failure) (before after : Objects) : Prop extends
    Hierarchy.Replaced before before.supersOf after where
  subs : after.subsOf = before.subsOf ∨
    (∃ name closing, e = .structural (.cycle name closing)) ∧ after.subsOf = Hierarchy.relinkedSubs before c

/-- What is left of an object without its superclass links is all of it, once these are filled in. -/
theorem map_withoutPrecedence (objects : Objects) (h : Handle) :
    (objects.get? h).map Object.withoutPrecedence = ((objects.get? h).map Object.withoutAncestry).map fun o =>
      { o with classPart := o.classPart.map fun c =>
        { c with supers := objects.supersOf h, subs := objects.subsOf h } } := by
  unfold Heap.supersOf Heap.subsOf Heap.class?
  cases found : objects.get? h with
  | none => rfl
  | some o => cases isPart : o.classPart <;> simp [Object.withoutPrecedence, Object.withoutAncestry, isPart]

/-- If a class that has no superclasses yet is refused some, nothing but kept orders has changed. -/
theorem Refused.alike_withoutPrecedence {c : Handle} {e : Failure} {before after : Objects}
    (refused : Refused c e before after) (top : before.supersOf c = []) : Heap.Alike Object.withoutPrecedence before after := by
  have subs : after.subsOf = before.subsOf := by
    rcases refused.subs with same | ⟨-, moved⟩
    · exact same
    · rw [moved]
      funext k
      rw [Hierarchy.relinkedSubs, top, if_neg List.not_mem_nil]
  refine ⟨refused.toReplaced.alike.layout, fun h => ?_⟩
  rw [map_withoutPrecedence, map_withoutPrecedence, refused.toReplaced.alike.view, refused.supers, subs]

theorem Refused.unchanged (well : WellFormed loose w) (c : Handle) (e : Failure) : Refused c e w.objects w.objects :=
  ⟨⟨rfl, well.linked.mirrored, well.kept, .refl _⟩, .inl rfl⟩

/-- How setting superclasses ends, once the new ones are known. -/
private theorem exec_replaceChecked (well : WellFormed loose w) {c : Handle} {o : Object} (cls : w.isClass c = true)
    (new : List Handle) :
    (∃ e b, (replaceChecked c o (w.objects.supersOf c) new).exec w = (.error e, { w with objects := b }) ∧
      Refused c e w.objects b) ∨
    ∃ a b, Admissible w o.system new ∧ (replaceChecked c o (w.objects.supersOf c) new).exec w = (.ok ⟨⟩, { w with objects := b }) ∧
      Hierarchy.Replaced w.objects (Function.update w.objects.supersOf c new) a ∧
      (∀ k, Hierarchy.Grounded (Function.update w.objects.supersOf c new) k) ∧
      Forgets (· ∈ Interception.affectedBy w.objects (Hierarchy.dependentSubclasses w.objects c)) a b := by
  rcases exec_requireSuperclasses o.name o.system new w with ⟨e, failed⟩ | ⟨passed, admissible⟩
  · exact .inl ⟨e, w.objects, Update.exec_bind_of_error failed _, .unchanged well c e⟩
  · obtain ⟨b, filled, r, ordered, outcome⟩ :=
      exec_requireDependenceOrder o.name new w well fun s member => (admissible s member).1
    have wellAfter : WellFormed loose { w with objects := b } := well.filled filled rfl rfl
    have supers : b.supersOf = w.objects.supersOf := filled.alike.supersOf
    have subs : b.subsOf = w.objects.subsOf := Hierarchy.subsOf_of_alike filled.alike
    have isClass : ∀ k, World.isClass { w with objects := b } k = w.isClass k := fun k => filled.identity.isClass
    have shift : ∀ {supers a}, Hierarchy.Replaced b supers a → Hierarchy.Replaced w.objects supers a :=
      fun ⟨links, mirrored, kept, alike⟩ =>
        ⟨links, mirrored, kept, (Hierarchy.alike_withoutAncestry filled.alike).trans alike⟩
    unfold replaceChecked
    rw [Update.exec_bind_of_ok passed]
    rcases outcome with ⟨e, rfl⟩ | ⟨rfl, nodup⟩
    · refine .inl ⟨e, b, Update.exec_bind_of_error ordered _, shift ⟨supers, ?_, filled.kept, .refl _⟩, .inl subs⟩
      exact wellAfter.linked.mirrored
    · rw [Update.exec_bind_of_ok ordered, Update.exec_bind_of_ok (Update.exec_get _)]
      have cases := Hierarchy.replaceSuperclasses_cases (c := c) filled.kept
        wellAfter.linked.mirrored (World.isSome_class? ((isClass c).trans cls))
        (fun s member => World.isSome_class? ((isClass s).trans (admissible s member).1)) nodup
        wellAfter.linked.grounded fun k member => World.isSome_class?
          (wellAfter.isClass_of_dependent ((isClass c).trans cls) (Hierarchy.mem_dependentSubclasses.1 member))
      rw [supers] at cases
      have dependents : Hierarchy.dependentSubclasses b c = Hierarchy.dependentSubclasses w.objects c :=
        Heap.Alike.dependentSubclasses (filled.alike.comp _ fun o => (Object.dependents_withoutPrecedence o).symm) c
      have affected : ∀ {x y : Objects}, Heap.Alike Object.withoutAncestry x y → Heap.Alike Object.affected x y :=
        fun alike => alike.comp _ fun o => (Object.affected_withoutAncestry o).symm
      rcases cases with ⟨a, done, after, ground⟩ | ⟨name, closing, a, failed, after, moved⟩
      · simp only [done]
        obtain ⟨d, forgot, forgets⟩ := Interception.exec_forgetAffected (Hierarchy.dependentSubclasses b c)
          { w with objects := a }
        refine .inr ⟨a, d, admissible, forgot, shift after, ground, forgets.mono fun h member => ?_⟩
        rw [(affected after.alike).affectedBy, (affected (Hierarchy.alike_withoutAncestry filled.alike)).affectedBy,
          dependents]
        exact member
      · simp only [failed]
        refine .inl ⟨_, a, rfl, shift after, .inr ⟨⟨name, closing, rfl⟩, moved.trans ?_⟩⟩
        funext k
        rw [Hierarchy.relinkedSubs, Hierarchy.relinkedSubs, supers, subs]

/-- Superclasses are replaced by an admissible list without cycles, or they stay. -/
theorem exec_setSuperclasses (well : WellFormed loose w) (c : Handle) (supers : List Handle) :
    (∃ e b, (Hierarchy.setSuperclasses c supers).exec w = (.error e, { w with objects := b }) ∧
      Refused c e w.objects b) ∨
    ∃ o new a b, w.live? c = some o ∧ o.isClass = true ∧ o.isRoot = false ∧ new ≠ [] ∧
      Admissible w o.system new ∧
      (Hierarchy.setSuperclasses c supers).exec w = (.ok ⟨⟩, { w with objects := b }) ∧
      Hierarchy.Replaced w.objects (Function.update w.objects.supersOf c new) a ∧
      (∀ k, Hierarchy.Grounded (Function.update w.objects.supersOf c new) k) ∧
      Forgets (· ∈ Interception.affectedBy w.objects (Hierarchy.dependentSubclasses w.objects c)) a b := by
  unfold Hierarchy.setSuperclasses
  cases live : w.live? c with
  | none => exact .inl ⟨_, w.objects, Update.exec_bind_of_error (Update.exec_object_of_dead live) _, .unchanged well c _⟩
  | some o =>
    rw [Update.exec_bind_of_ok (Update.exec_object_of_live live)]
    cases root : o.isRoot with
    | true => exact .inl ⟨_, w.objects, rfl, .unchanged well c _⟩
    | false =>
      obtain ⟨system, listed⟩ := well.rooted.system c o live
      simp only [Bool.false_eq_true, if_false]
      rw [Update.exec_bind_of_ok (Update.exec_systemOf_of_live live listed)]
      cases isPart : o.classPart with
      | none =>
        have missing : ∃ e, (Update.classPart c).exec w = (.error e, w) := by
          unfold Update.classPart
          rw [Update.exec_bind_of_ok (Update.exec_object_of_live live), isPart]
          exact ⟨_, rfl⟩
        obtain ⟨e, failed⟩ := missing
        exact .inl ⟨e, w.objects, Update.exec_bind_of_error failed _, .unchanged well c _⟩
      | some part =>
        have cls : w.isClass c = true := World.isClass_iff.2 ⟨o, part, live, isPart⟩
        have old : part.supers = w.objects.supersOf c := by
          rw [Heap.supersOf, Heap.class?, (World.live?_eq_some_iff.1 live).1, Option.bind_some, isPart]
          rfl
        have isClass : o.isClass = true := by rw [Object.isClass, isPart]; rfl
        rw [Update.exec_bind_of_ok (Update.exec_classPart_of_live live isPart), old]
        cases supers with
        | nil =>
          simp only [List.isEmpty_nil, if_true]
          rw [Update.exec_bind_of_ok (exec_defaultSuperclass c system w)]
          rcases exec_replaceChecked well (o := o) cls
            [if w.isMetaclass c then system.rootMetaclass else system.rootClass] with
            refused | ⟨a, b, admissible, done, after, ground, forgets⟩
          · exact .inl refused
          · exact .inr ⟨o, _, a, b, rfl, isClass, root, List.cons_ne_nil _ _, admissible, done, after, ground, forgets⟩
        | cons s supers =>
          simp only [List.isEmpty_cons, Bool.false_eq_true, if_false]
          rcases exec_replaceChecked well (o := o) cls (s :: supers) with
            refused | ⟨a, b, admissible, done, after, ground, forgets⟩
          · exact .inl refused
          · exact .inr ⟨o, _, a, b, rfl, isClass, root, List.cons_ne_nil _ _, admissible, done, after, ground, forgets⟩

/-! ## What stays well-formed -/

/-- A heap with the former links is as well-formed as before. -/
private theorem replaced_same {b : Objects} (well : WellFormed loose w)
    (after : Hierarchy.Replaced w.objects w.objects.supersOf b) : WellFormed loose { w with objects := b } := by
  have identity : Heap.Alike Object.identity w.objects b :=
    after.alike.comp Object.identity fun o => (Object.identity_withoutAncestry o).symm
  exact {
    sound := well.sound.of_layout after.alike.layout
    named := well.named.of_alike identity rfl
    classed := well.classed.of_alike (after.alike.comp _ fun o => (Object.membership_withoutAncestry o).symm)
    linked := well.linked.of_alike identity after.supers after.mirrored
    rooted := well.rooted.of_alike identity after.supers rfl
    mixed := fun reach =>
      (well.mixed reach).of_alike (after.alike.comp _ fun o => (Object.mixing_withoutAncestry reach o).symm)
    kept := after.kept }

/-- New links of a class that is no root lead up to its root class. -/
private theorem replaced_update {a : Objects} {c : Handle} {o : Object} {new : List Handle} (well : WellFormed loose w)
    (live : w.live? c = some o) (root : o.isRoot = false) (given : new ≠ [])
    (admissible : Admissible w o.system new)
    (after : Hierarchy.Replaced w.objects (Function.update w.objects.supersOf c new) a)
    (ground : ∀ k, Hierarchy.Grounded (Function.update w.objects.supersOf c new) k) :
    WellFormed (fun k => loose k ∧ k ≠ c) { w with objects := a } := by
  have identity : Heap.Alike Object.identity w.objects a :=
    after.alike.comp Object.identity fun o => (Object.identity_withoutAncestry o).symm
  have others : ∀ {k}, k ≠ c → a.supersOf k = w.objects.supersOf k := fun different => by
    rw [after.supers, Function.update_of_ne different]
  have here : a.supersOf c = new := by rw [after.supers, Function.update_self]
  have linked : Linked { w with objects := a } := by
    refine ⟨after.mirrored, fun k s link => ?_, fun k => by rw [after.supers]; exact ground k⟩
    have former : ∃ p q, w.live? k = some p ∧ w.live? s = some q ∧ q.system = p.system := by
      by_cases same : k = c
      · subst same
        rw [here] at link
        obtain ⟨-, q, above, system⟩ := admissible s link
        exact ⟨o, q, live, above, system⟩
      · rw [others same] at link
        exact well.linked.live k s link
    obtain ⟨p, q, below, above, system⟩ := former
    obtain ⟨p', below', looks⟩ := identity.exists_live (v := w) (w := { w with objects := a }) below
    obtain ⟨q', above', looks'⟩ := identity.exists_live (v := w) (w := { w with objects := a }) above
    refine ⟨p', q', below', above', ?_⟩
    have one : p'.system = p.system := congrArg Identity.system looks
    have other : q'.system = q.system := congrArg Identity.system looks'
    rw [one, other, system]
  exact {
    sound := well.sound.of_layout after.alike.layout
    named := well.named.of_alike identity rfl
    classed := well.classed.of_alike (after.alike.comp _ fun o => (Object.membership_withoutAncestry o).symm)
    linked := linked
    rooted := well.rooted.of_identity identity rfl
      (fun h p found isRoot => others fun same => by
        rw [same, live] at found
        cases found
        rw [isRoot] at root
        cases root)
      fun h p found isClass links apart => by
        have different : h ≠ c := fun same => given (by rw [← here, ← same]; exact links)
        exact well.rooted.top h p found isClass ((others different).symm.trans links) fun no => apart ⟨no, different⟩
    mixed := fun reach =>
      (well.mixed reach).of_alike (after.alike.comp _ fun o => (Object.mixing_withoutAncestry reach o).symm)
    kept := after.kept }

theorem mono {tight : Handle → Prop} (well : WellFormed tight w) (fewer : ∀ h, tight h → loose h) :
    WellFormed loose w :=
  { well with rooted := { well.rooted with
      top := fun h o live cls links apart => well.rooted.top h o live cls links fun no => apart (fewer h no) } }

theorem forgets {v : World} {s : Handle → Prop} (well : WellFormed loose w) (forgets : Forgets s w.objects v.objects)
    (names : v.names = w.names) (systems : v.systems = w.systems) : WellFormed loose v :=
  well.of_alike (forgets.alike fun _ => rfl) (forgets.alike fun _ => rfl) names systems

/-- Setting superclasses keeps a world well-formed; if it succeeds, the class is not at the top any more. -/
theorem setSuperclasses (well : WellFormed loose w) (c : Handle) (supers : List Handle) :
    WellFormed loose ((Hierarchy.setSuperclasses c supers).exec w).2 ∧
      (((Hierarchy.setSuperclasses c supers).exec w).1 = .ok ⟨⟩ →
        WellFormed (fun k => loose k ∧ k ≠ c) ((Hierarchy.setSuperclasses c supers).exec w).2) := by
  rcases well.exec_setSuperclasses c supers with ⟨e, b, failed, after⟩ |
    ⟨o, new, a, b, live, -, root, given, admissible, done, after, ground, forgets⟩
  · rw [failed]
    exact ⟨replaced_same well after.toReplaced, nofun⟩
  · have tight := (replaced_update well live root given admissible after ground).forgets
      (v := { w with objects := b }) forgets rfl rfl
    rw [done]
    exact ⟨tight.mono fun _ here => here.1, fun _ => tight⟩

end WellFormed

end DynamicObjects
