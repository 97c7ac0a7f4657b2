import DynamicObjects.Proofs.Structure.Orders

/-!
# The top of the hierarchy

In a well-formed world with no loose classes every live class leads up to the root class of its system, and that class
ends its precedence order.
-/
namespace DynamicObjects

/-- What is asked of the precedence order of a class. -/
structure IsPrecedenceOrder (supers : Handle → List Handle) (c : Handle) (order : List Handle) : Prop where
  head : order.head? = some c
  nodup : order.Nodup
  mem_iff : ∀ k, k ∈ order ↔ Hierarchy.Reaches supers c k
  /-- A class stands before its superclasses. -/
  before : ∀ x ∈ order, ∀ s ∈ supers x, [x, s].Sublist order

theorem Hierarchy.Linearizes.isPrecedenceOrder {supers : Handle → List Handle} {c : Handle} {order : List Handle}
    (lin : Hierarchy.Linearizes supers c order) : IsPrecedenceOrder supers c order where
  head := lin.head?
  nodup := lin.nodup
  mem_iff _ := lin.mem_iff
  before _ member _ link := (lin.leads link).sublist member

namespace WellFormed

variable {loose : Handle → Prop} {w : World} {c k : Handle}

/-- Superclass links lead to live classes of the same system. -/
theorem live_of_reaches (well : WellFormed loose w) {o : Object} (live : w.live? c = some o)
    (path : Hierarchy.Reaches w.objects.supersOf c k) : ∃ p, w.live? k = some p ∧ p.system = o.system := by
  induction path with
  | refl => exact ⟨o, live, rfl⟩
  | tail _ link ih =>
    obtain ⟨p, before, same⟩ := ih
    obtain ⟨q, r, first, second, systems⟩ := well.linked.live _ _ link
    rw [before] at first
    cases first
    exact ⟨r, second, systems.trans same⟩

variable (well : WellFormed (fun _ => False) w)

include well

/-- The root class is the one class of its system without superclasses. -/
theorem eq_rootClass {o : Object} {s : ObjectSystem} (live : w.live? c = some o) (cls : o.isClass = true)
    (system : w.systems[o.system]? = some s) (top : w.objects.supersOf c = []) : c = s.rootClass :=
  well.rooted.rootOnly c o s live system (well.rooted.top c o live cls top id)

/-- The precedence order of a live class ends with the root class of its system. -/
theorem getLast?_of_linearizes {o : Object} {s : ObjectSystem} {order : List Handle} (live : w.live? c = some o)
    (cls : o.isClass = true) (system : w.systems[o.system]? = some s)
    (lin : Hierarchy.Linearizes w.objects.supersOf c order) : order.getLast? = some s.rootClass := by
  obtain ⟨top, last, none⟩ := lin.getLast?
  have path := lin.mem_iff.1 (List.mem_of_getLast? last)
  obtain ⟨p, above, same⟩ := well.live_of_reaches live path
  have isClass : p.isClass = true := by
    have listed := well.isClass_of_reaches (by rw [World.isClass, live]; exact cls) path
    rwa [World.isClass, above] at listed
  rw [last, well.eq_rootClass above isClass (same ▸ system) none]

theorem reaches_rootClass {o : Object} {s : ObjectSystem} (live : w.live? c = some o) (cls : o.isClass = true)
    (system : w.systems[o.system]? = some s) : Hierarchy.Reaches w.objects.supersOf c s.rootClass := by
  obtain ⟨order, lin⟩ := Hierarchy.exists_linearizes (well.linked.grounded c)
  exact lin.mem_iff.1 (List.mem_of_getLast? (well.getLast?_of_linearizes live cls system lin))

end WellFormed

end DynamicObjects
