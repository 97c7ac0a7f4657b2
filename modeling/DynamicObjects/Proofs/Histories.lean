import DynamicObjects.Proofs.Heap

/-!
# Histories of a heap

From an empty heap, values move in and handles are released in any order, handles that never were given out or that are
released already among them. As long as numbers and generations last, no handle is given out twice, and a handle
resolves from when it is given out to when it is released for the first time.
-/
namespace DynamicObjects

/-- What is asked of a heap. -/
inductive Request (α : Type u) where
  | allocate (a : α)
  | release (h : Handle)

namespace Heap

variable {α : Type u}

def perform (heap : Heap α) : Request α → Heap α
  | .allocate a => (heap.allocate a).2
  | .release h => heap.release h

/-- An empty heap after a history of requests, the latest first. -/
def after : List (Request α) → Heap α
  | [] => empty
  | request :: past => (after past).perform request

/-- The handles given out in a history, the latest first. -/
def given : List (Request α) → List Handle
  | [] => []
  | .allocate a :: past => ((after past).allocate a).1 :: given past
  | .release _ :: past => given past

/-- How many handles of a slot were given out. -/
def turns (history : List (Request α)) (i : Nat) : Nat :=
  (given history).countP (·.index.toNat = i)

/-- There is a number for every slot, and a generation for every occupant that a slot had. -/
structure Fits (history : List (Request α)) : Prop where
  slots : (after history).totalSlots ≤ UInt32.size
  turns : ∀ i, turns history i ≤ UInt32.size

/-- `h` was given out for `a` and is not released since. -/
def Stands (history : List (Request α)) (h : Handle) (a : α) : Prop :=
  ∃ later past, history = later ++ .allocate a :: past ∧ ((after past).allocate a).1 = h ∧ .release h ∉ later

/-! ## What one request does to the slots -/

section slots

variable {heap : Heap α}

theorem layout_allocate (sound : heap.Sound) (room : heap.HasRoom) (a : α) (i : Nat) :
    (heap.allocate a).2.layout.1[i]? =
      if i = (heap.allocate a).1.index.toNat then some ((heap.allocate a).1.generation, true)
      else heap.layout.1[i]? := by
  rw [layout_getElem?, layout_getElem?]
  unfold allocate
  split
  · next empty =>
    have number : (UInt32.ofNat heap.slots.size).toNat = heap.slots.size := UInt32.toNat_ofNat_of_lt' (room.slots empty)
    rw [number, Array.getElem?_push]
    split <;> rfl
  · next index rest listed =>
    obtain ⟨g, vacant⟩ := sound.vacant index (by simp [listed])
    rw [layout_getElem?] at vacant
    obtain ⟨slot, here, -⟩ := Option.map_eq_some_iff.1 vacant
    have bound : index.toNat < heap.slots.size := (Array.getElem?_eq_some_iff.1 here).1
    rw [Array.getElem?_setIfInBounds]
    by_cases same : i = index.toNat
    · rw [if_pos same.symm, if_pos bound, if_pos same]
      rfl
    · rw [if_neg (Ne.symm same), if_neg same]

/-- A newcomer has the generation after that of the slot it takes. -/
theorem generation_allocate (sound : heap.Sound) (room : heap.HasRoom) (a : α) :
    (heap.allocate a).1.generation =
      ((heap.layout.1[(heap.allocate a).1.index.toNat]?).map (·.1 + 1)).getD 0 := by
  rw [layout_getElem?]
  unfold allocate
  split
  · next empty =>
    have number : (UInt32.ofNat heap.slots.size).toNat = heap.slots.size := UInt32.toNat_ofNat_of_lt' (room.slots empty)
    rw [number, Array.getElem?_eq_none (Nat.le_refl _)]
    rfl
  · next index rest listed =>
    obtain ⟨g, vacant⟩ := sound.vacant index (by simp [listed])
    rw [layout_getElem?] at vacant
    obtain ⟨slot, here, -⟩ := Option.map_eq_some_iff.1 vacant
    rw [here]
    rfl

/-- Releasing leaves the generations of all slots alone. -/
theorem generations_release (heap : Heap α) (h : Handle) (i : Nat) :
    ((heap.release h).layout.1[i]?).map Prod.fst = (heap.layout.1[i]?).map Prod.fst := by
  rw [layout_getElem?, layout_getElem?]
  cases found : heap.get? h with
  | none => simp only [release, found]
  | some a =>
    have taken := get?_eq_some_iff.1 found
    obtain ⟨bound, -⟩ := Array.getElem?_eq_some_iff.1 taken
    simp only [release, found, Array.getElem?_setIfInBounds]
    split
    · next same =>
      rw [← same, taken]
      simp [Slot.shape, Slot.generation]
    · rfl

theorem totalSlots_release (heap : Heap α) (h : Handle) : (heap.release h).totalSlots = heap.totalSlots := by
  unfold release totalSlots
  split <;> simp

theorem totalSlots_le_allocate (heap : Heap α) (a : α) : heap.totalSlots ≤ (heap.allocate a).2.totalSlots := by
  unfold allocate totalSlots
  split <;> simp

end slots

/-! ## What holds after a history -/

section history

variable {history past : List (Request α)} {h k : Handle} {a b : α}

theorem Fits.of_cons {request : Request α} (fits : Fits (request :: past)) : Fits past := by
  refine ⟨le_trans ?_ fits.slots, fun i => le_trans ?_ (fits.turns i)⟩
  · cases request with
    | allocate a => exact totalSlots_le_allocate _ a
    | release h => exact (totalSlots_release _ h).ge
  · cases request with
    | allocate a => exact (List.sublist_cons_self _ _).countP_le
    | release h => exact Nat.le_refl _

theorem not_stands_nil : ¬Stands ([] : List (Request α)) h a := by
  rintro ⟨later, past, split, -⟩
  exact List.append_ne_nil_of_right_ne_nil later (List.cons_ne_nil _ past) split.symm

theorem stands_allocate : Stands (.allocate b :: past) h a ↔
    ((after past).allocate b).1 = h ∧ a = b ∨ Stands past h a := by
  constructor
  · rintro ⟨_ | ⟨first, later⟩, before, split, handle, kept⟩
    · obtain ⟨⟨rfl⟩, rfl⟩ := List.cons.inj split
      exact .inl ⟨handle, rfl⟩
    · obtain ⟨rfl, rfl⟩ := List.cons.inj split
      exact .inr ⟨later, before, rfl, handle, fun inside => kept (List.mem_cons_of_mem _ inside)⟩
  · rintro (⟨handle, rfl⟩ | ⟨later, before, rfl, handle, kept⟩)
    · exact ⟨[], past, rfl, handle, List.not_mem_nil⟩
    · exact ⟨.allocate b :: later, before, rfl, handle, by simpa using kept⟩

theorem stands_release : Stands (.release k :: past) h a ↔ h ≠ k ∧ Stands past h a := by
  constructor
  · rintro ⟨_ | ⟨first, later⟩, before, split, handle, kept⟩
    · exact nomatch (List.cons.inj split).1
    · obtain ⟨rfl, rfl⟩ := List.cons.inj split
      refine ⟨fun same => kept (same ▸ List.mem_cons_self), later, before, rfl, handle, fun inside => ?_⟩
      exact kept (List.mem_cons_of_mem _ inside)
  · rintro ⟨different, later, before, rfl, handle, kept⟩
    refine ⟨.release k :: later, before, rfl, handle, fun inside => ?_⟩
    rcases List.mem_cons.1 inside with same | inside
    · exact different (Request.release.inj same)
    · exact kept inside

/-- What a history leaves behind: the list of vacant slots is right, every slot counts its occupants in its generation,
and nothing that was given out can be given out again. -/
structure Recorded (history : List (Request α)) : Prop where
  sound : (after history).Sound
  listed : (after history).Listed
  turns : ∀ i, turns history i = (((after history).layout.1[i]?).map (·.1.toNat + 1)).getD 0
  spent : ∀ h ∈ given history, (after history).Spent h
  nodup : (given history).Nodup
  resolves : ∀ h a, (after history).get? h = some a ↔ Stands history h a

theorem Stands.mem_given (stands : Stands history h a) : h ∈ given history := by
  induction history with
  | nil => exact absurd stands not_stands_nil
  | cons request past ih =>
    cases request with
    | allocate b =>
      rcases stands_allocate.1 stands with ⟨rfl, -⟩ | before
      · exact List.mem_cons_self
      · exact List.mem_cons_of_mem _ (ih before)
    | release k => exact ih (stands_release.1 stands).2

theorem turns_allocate (i : Nat) : turns (.allocate a :: past) i =
    turns past i + if ((after past).allocate a).1.index.toNat = i then 1 else 0 := by
  simp [turns, given, List.countP_cons]

theorem recorded_nil : Recorded ([] : List (Request α)) where
  sound := ⟨List.nodup_nil, fun _ member => absurd member List.not_mem_nil⟩
  listed := fun i g slot => by simp [layout_getElem?, after, empty] at slot
  turns := fun i => by simp [turns, given, layout_getElem?, after, empty]
  spent := fun _ member => absurd member List.not_mem_nil
  nodup := List.nodup_nil
  resolves := fun h a => iff_of_false (by simp [get?, after, empty]) not_stands_nil

/-- The slot that a newcomer takes had one occupant less than there are generations. -/
theorem Recorded.hasRoom (recorded : Recorded past) (fits : Fits (.allocate a :: past)) : (after past).HasRoom := by
  constructor
  · intro none_vacant
    have slots := fits.slots
    simp only [after, perform, totalSlots, allocate, none_vacant, Array.size_push] at slots
    exact slots
  · intro index rest listed g vacant
    have before := recorded.turns index.toNat
    rw [vacant] at before
    have handle : ((after past).allocate a).1.index = index := by rw [Heap.allocate, listed]
    have bound := fits.turns index.toNat
    rw [turns_allocate, handle, if_pos rfl, before] at bound
    exact bound

theorem Recorded.allocate (recorded : Recorded past) (fits : Fits (.allocate a :: past)) :
    Recorded (.allocate a :: past) := by
  have room := recorded.hasRoom fits
  have resolves := get?_allocate recorded.sound room a
  have fresh : ∀ h ∈ given past, ((after past).allocate a).1 ≠ h := fun h member =>
    (spent_allocate recorded.sound room a (recorded.spent h member)).1
  refine ⟨sound_allocate recorded.sound a, recorded.listed.allocate a, fun i => ?_, fun h member => ?_, ?_,
    fun h b => ?_⟩
  · have bound := fits.turns i
    rw [turns_allocate, recorded.turns i] at bound ⊢
    rw [after, perform, layout_allocate recorded.sound room]
    by_cases here : i = ((after past).allocate a).1.index.toNat
    · rw [if_pos here.symm] at bound ⊢
      rw [if_pos here, generation_allocate recorded.sound room, ← here]
      cases slot : (after past).layout.1[i]? with
      | none => rfl
      | some shape =>
        rw [slot] at bound
        simp only [Option.map_some, Option.getD_some] at bound ⊢
        rw [UInt32.toNat_add, UInt32.toNat_one, Nat.mod_eq_of_lt bound]
    · rw [if_neg (Ne.symm here), if_neg here, Nat.add_zero]
  · rcases List.mem_cons.1 member with rfl | before
    · exact spent_of_get? ((resolves _).trans (if_pos rfl))
    · exact (spent_allocate recorded.sound room a (recorded.spent h before)).2
  · exact List.nodup_cons.2 ⟨fun member => fresh _ member rfl, recorded.nodup⟩
  · rw [after, perform, resolves, stands_allocate]
    by_cases here : h = ((after past).allocate a).1
    · rw [if_pos here, Option.some.injEq]
      have first : ¬Stands past h b := fun stands => fresh h stands.mem_given here.symm
      exact ⟨fun same => .inl ⟨here.symm, same.symm⟩, fun new => (new.resolve_right first).2.symm⟩
    · rw [if_neg here, recorded.resolves]
      exact (or_iff_right fun new => here new.1.symm).symm

theorem Recorded.release (recorded : Recorded past) (k : Handle) : Recorded (.release k :: past) := by
  refine ⟨recorded.sound.release k, recorded.listed.release k, fun i => ?_,
    fun h member => (recorded.spent h member).release k, recorded.nodup, fun h b => ?_⟩
  · have same := congrArg (Option.map fun g : UInt32 => g.toNat + 1) (generations_release (after past) k i)
    rw [Option.map_map, Option.map_map] at same
    exact (recorded.turns i).trans (congrArg (Option.getD · 0) same.symm)
  · rw [after, perform, get?_release, stands_release, ← recorded.resolves]
    split
    · next same => exact iff_of_false nofun fun stands => stands.1 same
    · next different => exact (and_iff_right different).symm

theorem recorded_of_fits (fits : Fits history) : Recorded history := by
  induction history with
  | nil => exact recorded_nil
  | cons request past ih =>
    cases request with
    | allocate a => exact (ih fits.of_cons).allocate fits
    | release h => exact (ih fits.of_cons).release h

theorem Fits.of_suffix (fits : Fits history) (suffix : past <:+ history) : Fits past := by
  obtain ⟨later, rfl⟩ := suffix
  induction later with
  | nil => exact fits
  | cons _ _ ih => exact ih fits.of_cons

end history

/-! ## Histories -/

/-- What a heap is like after a history: handles resolve to what they were given out for as long as they stand, releasing
one that does not resolve does nothing, the vacant slots are listed, each once, and all slots are counted. -/
structure Accounted (history : List (Request α)) : Prop where
  resolves : ∀ h a, (after history).get? h = some a ↔ Stands history h a
  idle : ∀ h, (after history).get? h = none → (after history).release h = after history
  nodup : (after history).free.Nodup
  mem_free : ∀ index, index ∈ (after history).free ↔
    ∃ g, (after history).slots[index.toNat]? = some (.vacant g)
  size : (after history).size = (after history).takenSlots.card
  freeSlots : (after history).freeSlots = (after history).vacantSlots.card
  totalSlots : (after history).totalSlots = (after history).takenSlots.card + (after history).vacantSlots.card

theorem Recorded.accounted {history : List (Request α)} (recorded : Recorded history) : Accounted history where
  resolves := recorded.resolves
  idle := fun h missing => by rw [Heap.release, missing]
  nodup := recorded.sound.nodup
  mem_free := fun _ => (mem_free_iff recorded.sound recorded.listed).trans mem_vacantSlots
  size := (card_takenSlots recorded.sound recorded.listed).symm
  freeSlots := (card_vacantSlots recorded.sound recorded.listed).symm
  totalSlots := (card_slots _).symm

/-- The first slot is taken again after its first occupant is released, and released again. -/
def reusedSlot : List (Request String) :=
  [.release ⟨0, 0⟩, .allocate "c", .release ⟨0, 0⟩, .release ⟨7, 3⟩, .allocate "b", .allocate "a"]

theorem fits_reusedSlot : Fits reusedSlot := by
  refine ⟨by decide, fun i => le_trans List.countP_le_length (by decide)⟩

end Heap

end DynamicObjects
