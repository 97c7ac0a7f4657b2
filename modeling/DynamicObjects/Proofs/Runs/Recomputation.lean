import DynamicObjects.Proofs.Runs.Links

/-!
# Precedence orders computed anew

A class keeps its order until its links, or those of a class above it, change. In reachable worlds forgetting all orders
would change none of them: what is kept is what the links alone come to.
-/
namespace DynamicObjects

/-! ## Heaps that keep no order -/

section map

variable {α : Type u} {β : Type v} (f : α → β)

def Slot.map : Slot α → Slot β
  | taken g a => .taken g (f a)
  | vacant g => .vacant g

def Heap.map (heap : Heap α) : Heap β :=
  ⟨heap.slots.map (·.map f), heap.free⟩

theorem Slot.value?_map (s : Slot α) (g : UInt32) : (s.map f).value? g = (s.value? g).map f := by
  cases s with
  | taken k a =>
    change (if k = g then some (f a) else none) = (if k = g then some a else none).map f
    split <;> rfl
  | vacant k => rfl

@[simp] theorem Heap.get?_map (heap : Heap α) (h : Handle) : (heap.map f).get? h = (heap.get? h).map f := by
  unfold get? map
  rw [Array.getElem?_map]
  cases heap.slots[h.index.toNat]? with
  | none => rfl
  | some s => exact s.value?_map f h.generation

theorem Slot.shape_map (s : Slot α) : (s.map f).shape = s.shape := by
  cases s <;> rfl

theorem Heap.layout_map (heap : Heap α) : (heap.map f).layout = heap.layout := by
  simp [layout, map, Slot.shape_map, Function.comp_def]

end map

namespace Hierarchy

/-- The heap with the same objects and links in which no class keeps its order. -/
def withoutOrders (objects : Objects) : Objects :=
  objects.map Object.withoutPrecedence

variable (objects : Objects)

theorem alike_withoutOrders : Heap.Alike Object.withoutPrecedence objects (withoutOrders objects) := by
  refine ⟨Heap.layout_map _ _, fun h => ?_⟩
  unfold withoutOrders
  rw [Heap.get?_map, Option.map_map]
  congr 1
  funext o
  simp [Object.withoutPrecedence, Function.comp_def]

theorem cachedOrder?_withoutOrders (k : Handle) : (withoutOrders objects).cachedOrder? k = none := by
  unfold Heap.cachedOrder? Heap.class? withoutOrders
  rw [Heap.get?_map]
  cases objects.get? k with
  | none => rfl
  | some o => cases part : o.classPart <;> simp [Object.withoutPrecedence, part]

variable {objects}

/-- Where all orders have been forgotten, an order that the links determine is computed with any fuel above the number
of slots. -/
theorem Linearizes.computeOrder {c : Handle} {order : List Handle} (lin : Linearizes objects.supersOf c order) {fuel : Nat}
    (bound : objects.totalSlots < fuel) : (computeOrder fuel (withoutOrders objects) c).1 = order := by
  have alike := alike_withoutOrders objects
  have ground : Grounded (withoutOrders objects).supersOf c := by
    rw [alike.supersOf]
    exact lin.grounded
  have few : ((withoutOrders objects).handles \ ∅).card < fuel := by
    have slots := (withoutOrders objects).card_handles_le
    rw [alike.totalSlots_eq] at slots
    rw [Finset.sdiff_empty]
    omega
  have computed := computed_computeOrder fuel (withoutOrders objects) c ∅
    (.of_blank (cachedOrder?_withoutOrders objects)) ground (by simp) few
  have anew := computed.linearizes
  rw [alike.supersOf] at anew
  exact anew.unique lin

/-- Nothing stands in the way of asking for it, either. -/
theorem Linearizes.precedenceOrder {c : Handle} {order : List Handle} (lin : Linearizes objects.supersOf c order)
    (cls : (objects.class? c).isSome) :
    ∃ after, precedenceOrder (withoutOrders objects) c = .ok (order, after) := by
  have alike := alike_withoutOrders objects
  have ground : Grounded (withoutOrders objects).supersOf c := by
    rw [alike.supersOf]
    exact lin.grounded
  obtain ⟨anew, after, done, computed⟩ := computed_precedenceOrder
    (.of_blank (cachedOrder?_withoutOrders objects)) (by rwa [alike.isSome_class?]) ground
  have determined := computed.linearizes
  rw [alike.supersOf] at determined
  rw [determined.unique lin] at done
  exact ⟨after, done⟩

end Hierarchy

/-! ## Orders that are kept -/

/-- Every precedence order that is kept comes out again once all of them are forgotten. -/
def PrecedenceOrdersCurrent (w : World) : Prop :=
  ∀ c order, w.objects.cachedOrder? c = some order →
    (∀ fuel, w.objects.totalSlots < fuel →
      (Hierarchy.computeOrder fuel (Hierarchy.withoutOrders w.objects) c).1 = order) ∧
    ∃ after, Hierarchy.precedenceOrder (Hierarchy.withoutOrders w.objects) c = .ok (order, after)

theorem Hierarchy.OrdersKept.current {w : World} (kept : Hierarchy.OrdersKept w.objects) :
    PrecedenceOrdersCurrent w := by
  intro c order here
  have lin := kept.linearizes c order here
  have cls : (w.objects.class? c).isSome := by
    unfold Heap.cachedOrder? at here
    obtain ⟨part, found, -⟩ := Option.bind_eq_some_iff.1 here
    rw [found]
    rfl
  exact ⟨fun fuel bound => lin.computeOrder bound, lin.precedenceOrder cls⟩

/-- In every reachable world the precedence orders that are kept, of whatever classes, are those that would be computed
from the superclass links alone. -/
theorem Reachable.precedenceOrdersCurrent {w : World} (reached : Reachable Heap.HandlesRemain w) :
    PrecedenceOrdersCurrent w :=
  (reached.proper fun _ remain => remain).kept.current

/-- A session in which orders are asked for between links that are made anew, a link back that is refused and the
destruction of a class in the middle. -/
def relinkingSession : List Expr :=
  [foundation, Trial.createClass "A", Trial.createSubclass "B" ["A"], Trial.createSubclass "C" ["A"],
    Trial.createSubclass "D" ["B", "C"], .ofObject .precedenceOrder (.name "D"),
    .change (.setSuperclasses (.name "A") [.name "D"]), .ofObject .precedenceOrder (.name "D"),
    .change (.setSuperclasses (.name "D") [.name "C", .name "B"]), .ofObject .precedenceOrder (.name "D"),
    Trial.addMixin .instances "D" "A", .ofObject .destroy (.name "B"), .ofObject .precedenceOrder (.name "D")]

def relinkedWorld : World :=
  (sessionWithin Heap.HandlesRemain 3 relinkingSession).get (by decide +kernel)

theorem precedenceOrdersCurrent_relinked : PrecedenceOrdersCurrent relinkedWorld ∧
    relinkedWorld.objects.cachedOrder? ⟨5, 0⟩ = some [⟨5, 0⟩, ⟨4, 0⟩, ⟨2, 0⟩, ⟨0, 0⟩] := by
  refine ⟨Reachable.precedenceOrdersCurrent (.sessionWithin (Option.some_get _).symm), ?_⟩
  decide +kernel

end DynamicObjects
