import DynamicObjects.Interception.Registration
import DynamicObjects.Proofs.Structure.WellFormed

/-!
# Forgetting orders

What the upkeep of mixin and filter orders does to a world: nothing but forgetting, and at least the orders it is meant
to forget.
-/
namespace DynamicObjects

namespace Object

@[simp] theorem withoutOrders_withoutOrders (o : Object) : o.withoutOrders.withoutOrders = o.withoutOrders := rfl

/-- An object without any order that is kept for it. -/
def unordered (o : Object) : Object :=
  { o.withoutPrecedence with mixinOrder := none, filterOrder := none }

theorem unordered_withoutPrecedence (o : Object) : o.withoutPrecedence.unordered = o.unordered := by
  simp [unordered, withoutPrecedence, Function.comp_def]

theorem unordered_mapOrder (f : Option (List Handle) → Option (List Handle)) (o : Object) :
    (o.mapClass fun c => { c with order := f c.order }).unordered = o.unordered := by
  simp [unordered, withoutPrecedence, mapClass, Function.comp_def]

@[simp] theorem classPart_withoutOrders (o : Object) : o.withoutOrders.classPart = o.classPart := rfl

/-- The classes whose instances depend on a class directly. -/
def dependents (o : Object) : Option (List Handle) :=
  o.classPart.map fun c => c.subs ++ c.classUsers

/-- The objects whose orders depend on a class directly. -/
def affected (o : Object) : Option (HandleSet × List Handle) :=
  o.classPart.map fun c => (c.instances, c.objectUsers)

end Object

namespace Heap.Alike

variable {a b : Objects}

theorem dependentsOf (alike : Alike Object.dependents a b) : Hierarchy.dependentsOf b = Hierarchy.dependentsOf a := by
  funext c
  have same := congrArg (fun o => (o.bind id).getD []) (alike.view c)
  simpa only [Option.bind_map, Object.dependents, Function.comp_def, id, Hierarchy.dependentsOf, Heap.class?,
    Option.map_bind] using same

theorem dependentSubclasses (alike : Alike Object.dependents a b) (c : Handle) :
    Hierarchy.dependentSubclasses b c = Hierarchy.dependentSubclasses a c := by
  unfold Hierarchy.dependentSubclasses Hierarchy.walk
  rw [alike.dependentsOf, alike.totalSlots_eq]

theorem affectedBy (alike : Alike Object.affected a b) (classes : List Handle) :
    Interception.affectedBy b classes = Interception.affectedBy a classes := by
  have step : ∀ c, (b.class? c).map (fun p => (p.instances, p.objectUsers)) =
      (a.class? c).map fun p => (p.instances, p.objectUsers) := by
    intro c
    have same := congrArg (·.bind id) (alike.view c)
    simpa only [Option.bind_map, Object.affected, Function.comp_def, id, Heap.class?, Option.map_bind] using same
  unfold Interception.affectedBy
  congr 1
  funext found c
  have here := step c
  cases before : a.class? c <;> cases after : b.class? c <;> simp_all

end Heap.Alike

/-- `b` is `a` after the mixin and filter orders of some objects were forgotten, those in `spoiled` among them. -/
structure Forgets (spoiled : Handle → Prop) (a b : Objects) : Prop where
  layout : b.layout = a.layout
  get? : ∀ h, b.get? h = a.get? h ∨ b.get? h = (a.get? h).map Object.withoutOrders
  spoiled : ∀ h, spoiled h → b.get? h = (a.get? h).map Object.withoutOrders

namespace Forgets

variable {s t : Handle → Prop} {a b c : Objects}

theorem refl (a : Objects) : Forgets (fun _ => False) a a :=
  ⟨rfl, fun _ => .inl rfl, fun _ no => no.elim⟩

theorem mono (forgets : Forgets t a b) (fewer : ∀ h, s h → t h) : Forgets s a b :=
  ⟨forgets.layout, forgets.get?, fun h member => forgets.spoiled h (fewer h member)⟩

theorem trans (first : Forgets s a b) (second : Forgets t b c) : Forgets (fun h => s h ∨ t h) a c := by
  have twice : ∀ h, ((a.get? h).map Object.withoutOrders).map Object.withoutOrders =
      (a.get? h).map Object.withoutOrders := fun h => by cases a.get? h <;> rfl
  refine ⟨second.layout.trans first.layout, fun h => ?_, fun h member => ?_⟩
  · rcases first.get? h with one | one <;> rcases second.get? h with two | two
    · exact .inl (two.trans one)
    · exact .inr (by rw [two, one])
    · exact .inr (two.trans one)
    · exact .inr (by rw [two, one, twice])
  · rcases member with one | two
    · rcases second.get? h with same | without
      · rw [same, first.spoiled h one]
      · rw [without, first.spoiled h one, twice]
    · rw [second.spoiled h two]
      rcases first.get? h with same | without
      · rw [same]
      · rw [without, twice]

theorem modify (a : Objects) (h : Handle) : Forgets (· = h) a (a.modify h Object.withoutOrders) := by
  refine ⟨Heap.layout_modify _ _ _, fun k => ?_, fun k same => ?_⟩
  · rw [Heap.get?_modify]
    split
    · exact .inr rfl
    · exact .inl rfl
  · rw [Heap.get?_modify, if_pos same]

theorem foldl {ι : Type u} {spoiled : ι → Handle → Prop} {step : Objects → ι → Objects}
    (each : ∀ a i, Forgets (spoiled i) a (step a i)) (is : List ι) (a : Objects) :
    Forgets (fun h => ∃ i ∈ is, spoiled i h) a (is.foldl step a) := by
  induction is generalizing a with
  | nil => exact (refl a).mono fun h ⟨_, no, _⟩ => absurd no List.not_mem_nil
  | cons i is ih =>
    refine ((each a i).trans (ih (step a i))).mono fun h ⟨j, member, here⟩ => ?_
    rcases List.mem_cons.1 member with rfl | later
    · exact .inl here
    · exact .inr ⟨j, later, here⟩

theorem alike {β : Type v} {view : Object → β} (forgets : Forgets s a b)
    (blind : ∀ o, view (Object.withoutOrders o) = view o) : Heap.Alike view a b := by
  refine ⟨forgets.layout, fun h => ?_⟩
  rcases forgets.get? h with same | without
  · rw [same]
  · rw [without, Option.map_map]
    congr 1
    funext o
    exact blind o

theorem class? (forgets : Forgets s a b) : b.class? = a.class? := by
  funext h
  have alike : Heap.Alike Object.classPart a b := forgets.alike fun _ => rfl
  have same := alike.view h
  unfold Heap.class?
  cases before : a.get? h <;> cases after : b.get? h <;> simp_all

theorem isClass {v w : World} (forgets : Forgets s v.objects w.objects) (h : Handle) : w.isClass h = v.isClass h :=
  Heap.Alike.isClass (forgets.alike fun _ => rfl)

/-- An object whose order is kept afterwards was left alone. -/
theorem of_cached (forgets : Forgets s a b) {h : Handle} {o : Object} (found : b.get? h = some o)
    (cached : o.mixinOrder ≠ none ∨ o.filterOrder ≠ none) : a.get? h = some o ∧ ¬s h := by
  have forgotten : b.get? h ≠ (a.get? h).map Object.withoutOrders := by
    intro without
    rw [found] at without
    obtain ⟨x, -, same⟩ := Option.map_eq_some_iff.1 without.symm
    subst same
    rcases cached with some | some <;> exact some rfl
  refine ⟨?_, fun member => forgotten (forgets.spoiled h member)⟩
  rcases forgets.get? h with same | without
  · rw [← same, found]
  · exact absurd without forgotten

end Forgets

/-- `b` is `a` with every object changed in place, after which the orders of some objects were forgotten, those in
`spoiled` among them. -/
structure Reworked (change : Handle → Object → Object) (spoiled : Handle → Prop) (a b : Objects) : Prop where
  layout : b.layout = a.layout
  get? : ∀ h, b.get? h = (a.get? h).map (change h) ∨ b.get? h = (a.get? h).map fun o => (change h o).withoutOrders
  spoiled : ∀ h, spoiled h → b.get? h = (a.get? h).map fun o => (change h o).withoutOrders

namespace Reworked

variable {f g : Handle → Object → Object} {s t : Handle → Prop} {a b c : Objects}

theorem of_forgets (remade : Heap.Remade f a b) (forgets : Forgets s b c) : Reworked f s a c := by
  have mapped : ∀ h, (b.get? h).map Object.withoutOrders = (a.get? h).map fun o => (f h o).withoutOrders := fun h => by
    rw [remade.get?, Option.map_map]
    rfl
  refine ⟨forgets.layout.trans remade.layout, fun h => ?_, fun h member => ?_⟩
  · rw [← mapped, ← remade.get?]
    exact forgets.get? h
  · rw [← mapped]
    exact forgets.spoiled h member

theorem trans (first : Reworked f s a b) (second : Reworked g t b c)
    (commutes : ∀ h o, g h o.withoutOrders = (g h o).withoutOrders) :
    Reworked (fun h o => g h (f h o)) (fun h => s h ∨ t h) a c := by
  refine ⟨second.layout.trans first.layout, fun h => ?_, fun h member => ?_⟩
  · rcases first.get? h with one | one <;> rcases second.get? h with two | two <;> rw [two, one] <;>
      simp only [Option.map_map, Function.comp_def, commutes, Object.withoutOrders_withoutOrders, true_or, or_true]
  · rcases member with one | two
    · have here := first.spoiled h one
      rcases second.get? h with two | two <;> rw [two, here] <;>
        simp only [Option.map_map, Function.comp_def, commutes, Object.withoutOrders_withoutOrders]
    · have here := second.spoiled h two
      rcases first.get? h with one | one <;> rw [here, one] <;>
        simp only [Option.map_map, Function.comp_def, commutes, Object.withoutOrders_withoutOrders]

theorem congr (reworked : Reworked f s a b) (same : ∀ h o, a.get? h = some o → f h o = g h o)
    (fewer : ∀ h, t h → s h) : Reworked g t a b := by
  have mapped : ∀ {β : Type} (view : Object → β) h, (a.get? h).map (fun o => view (f h o)) =
      (a.get? h).map fun o => view (g h o) := fun view h => by
    cases found : a.get? h with
    | none => rfl
    | some o => simp [same h o found]
  refine ⟨reworked.layout, fun h => ?_, fun h member => ?_⟩
  · rw [← mapped Object.withoutOrders, ← show (a.get? h).map (f h) = (a.get? h).map (g h) from mapped id h]
    exact reworked.get? h
  · rw [← mapped Object.withoutOrders]
    exact reworked.spoiled h (fewer h member)

/-- An object whose order is kept afterwards was only changed. -/
theorem of_cached (reworked : Reworked f s a b) {h : Handle} {p : Object} (found : b.get? h = some p)
    (cached : p.mixinOrder ≠ none ∨ p.filterOrder ≠ none) : ∃ o, a.get? h = some o ∧ p = f h o ∧ ¬s h := by
  have forgotten : b.get? h ≠ (a.get? h).map fun o => (f h o).withoutOrders := by
    intro without
    rw [found] at without
    obtain ⟨x, -, same⟩ := Option.map_eq_some_iff.1 without.symm
    subst same
    rcases cached with some | some <;> exact some rfl
  rcases reworked.get? h with changed | without
  · rw [found] at changed
    obtain ⟨o, before, same⟩ := Option.map_eq_some_iff.1 changed.symm
    exact ⟨o, before, same.symm, fun member => forgotten (reworked.spoiled h member)⟩
  · exact absurd without forgotten

/-- What sees no orders sees only the change. -/
theorem map_view {β : Type v} {view : Object → β} (reworked : Reworked f s a b)
    (blind : ∀ o, view (Object.withoutOrders o) = view o) (h : Handle) :
    (b.get? h).map view = (a.get? h).map fun o => view (f h o) := by
  rcases reworked.get? h with same | without
  · rw [same, Option.map_map]
    rfl
  · rw [without, Option.map_map]
    simp only [Function.comp_def, blind]

theorem alike {β : Type v} {view : Object → β} (reworked : Reworked f s a b)
    (blind : ∀ o, view (Object.withoutOrders o) = view o) (keeps : ∀ h o, view (f h o) = view o) :
    Heap.Alike view a b := by
  refine ⟨reworked.layout, fun h => ?_⟩
  rw [reworked.map_view blind]
  simp only [keeps]

end Reworked

/-- What a fold adds step by step is in the set at the end. -/
theorem HandleSet.mem_foldl {α : Type u} {add : HandleSet → α → HandleSet} {p : α → Prop} {h : Handle}
    (step : ∀ s a, h ∈ add s a ↔ h ∈ s ∨ p a) {as : List α} (s : HandleSet) :
    h ∈ as.foldl add s ↔ h ∈ s ∨ ∃ a ∈ as, p a := by
  induction as generalizing s with
  | nil => simp
  | cons a as ih => rw [List.foldl_cons, ih, step, List.exists_mem_cons_iff, or_assoc]

namespace Interception

theorem mem_affectedBy {objects : Objects} {classes : List Handle} {h : Handle} :
    h ∈ affectedBy objects classes ↔
      ∃ c ∈ classes, ∃ part, objects.class? c = some part ∧ (h ∈ part.instances ∨ h ∈ part.objectUsers) := by
  have empty : h ∉ HandleSet.empty := List.not_mem_nil
  refine (HandleSet.mem_foldl (fun found c => ?_) .empty).trans (or_iff_right empty)
  cases objects.class? c with
  | none => simp
  | some part =>
    have listed : h ∈ part.instances.toList ↔ h ∈ part.instances := Iff.rfl
    simp [listed, or_assoc]

theorem exec_forgetOrdersOf (h : Handle) (w : World) :
    (forgetOrdersOf h).exec w = (.ok ⟨⟩, { w with objects := w.objects.modify h Object.withoutOrders }) := rfl

theorem exec_forgetAffected (classes : List Handle) (w : World) :
    ∃ b, (forgetAffected classes).exec w = (.ok ⟨⟩, { w with objects := b }) ∧
      Forgets (· ∈ affectedBy w.objects classes) w.objects b := by
  refine ⟨_, Update.exec_forM_changeObjects (fun h objects => objects.modify h Object.withoutOrders)
    (affectedBy w.objects classes).toList w, ?_⟩
  refine (Forgets.foldl (fun a h => Forgets.modify a h) _ _).mono fun h member => ⟨h, member, rfl⟩

/-- Whether the orders of `h` depend on a class, as far as the links tell. -/
def DependsOn (objects : Objects) (c h : Handle) : Prop :=
  h ∈ affectedBy objects (Hierarchy.dependentSubclasses objects c)

theorem exec_forgetDependents (c : Handle) (w : World) :
    ∃ b, (forgetDependents c).exec w = (.ok ⟨⟩, { w with objects := b }) ∧
      Forgets (DependsOn w.objects c) w.objects b :=
  exec_forgetAffected _ w

theorem dependsOn_of_alike {a b : Objects} (dependents : Heap.Alike Object.dependents a b)
    (affected : Heap.Alike Object.affected a b) (c h : Handle) : DependsOn b c h ↔ DependsOn a c h := by
  unfold DependsOn
  rw [dependents.dependentSubclasses, affected.affectedBy]

theorem dependsOn_of_forgets {s : Handle → Prop} {a b : Objects} (forgets : Forgets s a b) (c h : Handle) :
    DependsOn b c h ↔ DependsOn a c h :=
  dependsOn_of_alike (forgets.alike fun _ => rfl) (forgets.alike fun _ => rfl) c h

/-- Whether a change of the registrations on `on` spoils the orders of `h`. -/
def Spoiled (reach : Reach) (on : Handle) (objects : Objects) (h : Handle) : Prop :=
  match reach with
  | .object => h = on
  | .instances => DependsOn objects on h

theorem exec_forgetFor (reach : Reach) (on : Handle) (w : World) :
    ∃ b, (forgetFor reach on).exec w = (.ok ⟨⟩, { w with objects := b }) ∧
      Forgets (Spoiled reach on w.objects) w.objects b := by
  cases reach with
  | object => exact ⟨_, exec_forgetOrdersOf on w, .modify _ _⟩
  | instances => exact exec_forgetDependents on w

/-- Forgetting for one user of a filter. -/
private theorem exec_forgetUser (user : Handle) (w : World) :
    ∃ b, ((do
      if (← get).isClass user then forgetDependents user
      forgetOrdersOf user) : Update Unit).exec w = (.ok ⟨⟩, { w with objects := b }) ∧
      Forgets (fun h => h = user ∨ (w.isClass user = true ∧ DependsOn w.objects user h)) w.objects b := by
  rw [Update.exec_bind_of_ok (Update.exec_get w)]
  cases cls : w.isClass user with
  | true =>
    obtain ⟨b, done, forgets⟩ := exec_forgetDependents user w
    simp only [if_true]
    rw [Update.exec_bind_of_ok done]
    refine ⟨_, exec_forgetOrdersOf user _, (forgets.trans (.modify b user)).mono fun h member => ?_⟩
    rcases member with same | ⟨-, depends⟩
    · exact .inr same
    · exact .inl depends
  | false =>
    simp only [Bool.false_eq_true, if_false]
    refine ⟨_, exec_forgetOrdersOf user _, (Forgets.modify _ user).mono fun h member => ?_⟩
    rcases member with same | ⟨no, -⟩
    · exact same
    · cases no

/-- Every listed user of a filter forgets its orders, and so does whatever depends on a listed class. -/
theorem exec_forgetFilterUsers (name : String) (w : World) :
    ∃ b, (forgetFilterUsers name).exec w = (.ok ⟨⟩, { w with objects := b }) ∧
      Forgets (fun h => ∃ user ∈ (w.filterUsers.get? name).getD .empty,
        h = user ∨ (w.isClass user = true ∧ DependsOn w.objects user h)) w.objects b := by
  have loop : ∀ (users : List Handle) (v : World), ∃ b,
      (users.forM fun user => do
        if (← get).isClass user then forgetDependents user
        forgetOrdersOf user : Update Unit).exec v = (.ok ⟨⟩, { v with objects := b }) ∧
      Forgets (fun h => ∃ user ∈ users, h = user ∨ (v.isClass user = true ∧ DependsOn v.objects user h))
        v.objects b := by
    intro users
    induction users with
    | nil => exact fun v => ⟨_, rfl, (Forgets.refl _).mono fun h ⟨_, no, _⟩ => absurd no List.not_mem_nil⟩
    | cons user users ih =>
      intro v
      obtain ⟨b, done, forgets⟩ := exec_forgetUser user v
      obtain ⟨b', done', forgets'⟩ := ih { v with objects := b }
      refine ⟨b', ?_, (forgets.trans forgets').mono fun h ⟨other, member, here⟩ => ?_⟩
      · rw [Update.exec_forM_cons, Update.exec_bind_of_ok done, done']
      · rcases List.mem_cons.1 member with rfl | later
        · exact .inl here
        · refine .inr ⟨other, later, here.imp id fun ⟨cls, depends⟩ => ?_⟩
          exact ⟨by rw [forgets.isClass (v := v) (w := { v with objects := b })]; exact cls,
            (dependsOn_of_forgets forgets other h).2 depends⟩
  unfold forgetFilterUsers
  rw [Update.exec_bind_of_ok (Update.exec_get w)]
  exact loop _ w

end Interception

end DynamicObjects
