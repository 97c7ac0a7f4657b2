import DynamicObjects.Handle

/-!
# The heap

Slots that are taken, reclaimed and taken again. A slot remembers the generation of its latest occupant; the next one
gets the generation after it, so the handles of former occupants stop resolving.
-/
namespace DynamicObjects

inductive Slot (α : Type u) where
  | taken (generation : UInt32) (value : α)
  | vacant (generation : UInt32)

namespace Slot

variable {α : Type u}

def generation : Slot α → UInt32
  | taken g _ | vacant g => g

/-- The occupant of this generation. -/
def value? (s : Slot α) (generation : UInt32) : Option α :=
  match s with
  | taken g a => if g = generation then some a else none
  | vacant _ => none

end Slot

structure Heap (α : Type u) where
  slots : Array (Slot α) := #[]
  /-- The vacant slots, the latest reclaimed one first. -/
  free : List UInt32 := []

namespace Heap

variable {α : Type u}

def empty : Heap α := {}

instance : Inhabited (Heap α) := ⟨empty⟩

def get? (heap : Heap α) (h : Handle) : Option α :=
  heap.slots[h.index.toNat]?.bind (·.value? h.generation)

def contains (heap : Heap α) (h : Handle) : Bool :=
  (heap.get? h).isSome

/-- Puts a value into the latest reclaimed slot, or into a new one if no slot is vacant. -/
def allocate (heap : Heap α) (a : α) : Handle × Heap α :=
  match heap.free with
  | [] => (⟨UInt32.ofNat heap.slots.size, 0⟩, { heap with slots := heap.slots.push (.taken 0 a) })
  | index :: rest =>
    let generation := (heap.slots[index.toNat]?.map Slot.generation).getD 0 + 1
    (⟨index, generation⟩, ⟨heap.slots.setIfInBounds index.toNat (.taken generation a), rest⟩)

/-- Changes the value of a handle that resolves; leaves the heap alone otherwise. -/
def modify (heap : Heap α) (h : Handle) (f : α → α) : Heap α :=
  match heap.get? h with
  | some a => { heap with slots := heap.slots.setIfInBounds h.index.toNat (.taken h.generation (f a)) }
  | none => heap

/-- Reclaims the slot of a handle that resolves; leaves the heap alone otherwise. -/
def release (heap : Heap α) (h : Handle) : Heap α :=
  match heap.get? h with
  | some _ => ⟨heap.slots.setIfInBounds h.index.toNat (.vacant h.generation), h.index :: heap.free⟩
  | none => heap

def totalSlots (heap : Heap α) : Nat :=
  heap.slots.size

def freeSlots (heap : Heap α) : Nat :=
  heap.free.length

/-- The number of taken slots. -/
def size (heap : Heap α) : Nat :=
  heap.totalSlots - heap.freeSlots

end Heap

end DynamicObjects
