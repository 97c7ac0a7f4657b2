import Mathlib.Data.Finset.Card
import Mathlib.Data.Finset.Image
import DynamicObjects.Object

/-!
# What handles resolve to

Modifying a heap changes the value of one handle and leaves its layout alone: which slots there are, which of them are
taken and in which generation. A sound heap lists vacant slots only, so a newcomer gets a handle that resolved to
nothing before.
-/
namespace DynamicObjects

namespace Slot

variable {α : Type u}

def isTaken : Slot α → Bool
  | taken _ _ => true
  | vacant _ => false

/-- What a slot looks like without its occupant. -/
def shape (s : Slot α) : UInt32 × Bool :=
  (s.generation, s.isTaken)

end Slot

namespace Heap

variable {α : Type u}

/-- Which slots are taken and in which generation, and which are listed as vacant. -/
def layout (heap : Heap α) : List (UInt32 × Bool) × List UInt32 :=
  (heap.slots.toList.map Slot.shape, heap.free)

theorem totalSlots_eq_of_layout {a b : Heap α} (same : b.layout = a.layout) : b.totalSlots = a.totalSlots := by
  have lengths := congrArg (fun l => l.1.length) same
  simpa [layout, totalSlots] using lengths

theorem get?_eq_some_iff {heap : Heap α} {h : Handle} {a : α} :
    heap.get? h = some a ↔ heap.slots[h.index.toNat]? = some (.taken h.generation a) := by
  unfold get?
  cases found : heap.slots[h.index.toNat]? with
  | none => simp
  | some slot =>
    cases slot with
    | taken g b =>
      simp only [Option.bind_some, Slot.value?, Option.some.injEq, Slot.taken.injEq]
      split <;> simp_all
    | vacant g => simp [Slot.value?]

/-- Two handles of one slot resolve only if they are the same. -/
theorem eq_of_get?_of_index_eq {heap : Heap α} {h k : Handle} {a b : α} (first : heap.get? h = some a)
    (second : heap.get? k = some b) (same : h.index = k.index) : h = k := by
  rw [get?_eq_some_iff] at first second
  rw [same, second] at first
  simp only [Option.some.injEq, Slot.taken.injEq] at first
  obtain ⟨generation, -⟩ := first
  cases h
  cases k
  simp_all

theorem modify_of_get? {heap : Heap α} {h : Handle} {a : α} (found : heap.get? h = some a) (f : α → α) :
    heap.modify h f =
      { heap with slots := heap.slots.setIfInBounds h.index.toNat (.taken h.generation (f a)) } := by
  simp only [modify, found]

theorem modify_of_get?_eq_none {heap : Heap α} {h : Handle} (missing : heap.get? h = none) (f : α → α) :
    heap.modify h f = heap := by
  simp only [modify, missing]

@[simp] theorem get?_modify (heap : Heap α) (h k : Handle) (f : α → α) :
    (heap.modify h f).get? k = if k = h then (heap.get? k).map f else heap.get? k := by
  cases found : heap.get? h with
  | none =>
    rw [modify_of_get?_eq_none found]
    split
    · next same => rw [same, found]; rfl
    · rfl
  | some a =>
    have taken := get?_eq_some_iff.1 found
    have bound : h.index.toNat < heap.slots.size := (Array.getElem?_eq_some_iff.1 taken).1
    rw [modify_of_get? found]
    split
    · next same =>
      subst same
      rw [found, Option.map_some, get?_eq_some_iff]
      simp [bound]
    · next different =>
      by_cases index : h.index.toNat = k.index.toNat
      · have generations : h.generation ≠ k.generation := by
          intro same
          cases h
          cases k
          simp_all [UInt32.toNat_inj]
        simp only [get?, Array.getElem?_setIfInBounds, ← index, bound, taken]
        simp [Slot.value?, generations]
      · simp [get?, index]

theorem layout_modify (heap : Heap α) (h : Handle) (f : α → α) : (heap.modify h f).layout = heap.layout := by
  cases found : heap.get? h with
  | none => rw [modify_of_get?_eq_none found]
  | some a =>
    have taken := get?_eq_some_iff.1 found
    rw [modify_of_get? found]
    simp only [layout, Prod.mk.injEq, and_true, Array.toList_setIfInBounds]
    apply List.ext_getElem?
    intro i
    simp only [List.getElem?_map, List.getElem?_set, Array.length_toList]
    split
    · next same =>
      subst same
      have bound : h.index.toNat < heap.slots.size := (Array.getElem?_eq_some_iff.1 taken).1
      simp only [bound, ↓reduceIte, Option.map_some, Array.getElem?_toList, taken]
      rfl
    · rfl

theorem modify_modify (heap : Heap α) (h : Handle) (f g : α → α) :
    (heap.modify h f).modify h g = heap.modify h fun a => g (f a) := by
  cases found : heap.get? h with
  | none => simp only [modify_of_get?_eq_none found]
  | some a =>
    have changed : (heap.modify h f).get? h = some (f a) := by simp [found]
    rw [modify_of_get? changed, modify_of_get? found, modify_of_get? found]
    simp

theorem modify_eq_self (heap : Heap α) (h : Handle) {f : α → α} (same : ∀ a, heap.get? h = some a → f a = a) :
    heap.modify h f = heap := by
  cases found : heap.get? h with
  | none => exact modify_of_get?_eq_none found f
  | some a =>
    have taken := get?_eq_some_iff.1 found
    rw [modify_of_get? found, same a found]
    obtain ⟨bound, here⟩ := Array.getElem?_eq_some_iff.1 taken
    have stays : heap.slots.setIfInBounds h.index.toNat (.taken h.generation a) = heap.slots := by
      refine Array.ext (by simp) fun i _ _ => ?_
      rw [Array.getElem_setIfInBounds]
      split
      · next same => subst same; exact here.symm
      · rfl
    rw [stays]
/-! ## Heaps that look alike -/

/-- Two heaps of one layout whose values look the same under `view`. -/
structure Alike {β : Type v} (view : α → β) (a b : Heap α) : Prop where
  layout : b.layout = a.layout
  view : ∀ h, (b.get? h).map view = (a.get? h).map view

namespace Alike

variable {β : Type v} {view : α → β} {a b c : Heap α}

theorem refl (a : Heap α) : Alike view a a :=
  ⟨rfl, fun _ => rfl⟩

theorem symm (alike : Alike view a b) : Alike view b a :=
  ⟨alike.layout.symm, fun h => (alike.view h).symm⟩

theorem trans (first : Alike view a b) (second : Alike view b c) : Alike view a c :=
  ⟨second.layout.trans first.layout, fun h => (second.view h).trans (first.view h)⟩

theorem modify (a : Heap α) (h : Handle) {f : α → α} (keeps : ∀ x, view (f x) = view x) :
    Alike view a (a.modify h f) := by
  refine ⟨layout_modify a h f, fun k => ?_⟩
  rw [get?_modify]
  split
  · cases a.get? k <;> simp [keeps]
  · rfl

theorem foldl {ι : Type w} {step : Heap α → ι → Heap α} (keeps : ∀ a i, Alike view a (step a i)) (is : List ι)
    (a : Heap α) : Alike view a (is.foldl step a) := by
  induction is generalizing a with
  | nil => exact refl a
  | cons i is ih => exact (keeps a i).trans (ih (step a i))

/-- Whatever can be computed from a view looks the same, too. -/
theorem comp {γ : Type w} {coarse : α → γ} (alike : Alike view a b) (g : β → γ) (factor : ∀ x, coarse x = g (view x)) :
    Alike coarse a b := by
  refine ⟨alike.layout, fun h => ?_⟩
  have same := congrArg (Option.map g) (alike.view h)
  have through : coarse = g ∘ view := funext factor
  rw [through]
  simpa [Option.map_map] using same

theorem exists_of_get? (alike : Alike view a b) {h : Handle} {x : α} (found : a.get? h = some x) :
    ∃ y, b.get? h = some y ∧ view y = view x := by
  have same := alike.view h
  rw [found] at same
  simpa using same

theorem totalSlots_eq (alike : Alike view a b) : b.totalSlots = a.totalSlots :=
  totalSlots_eq_of_layout alike.layout

end Alike

/-! ## Heaps changed in place -/

/-- `b` is `a` with every value changed in place. -/
structure Remade (change : Handle → α → α) (a b : Heap α) : Prop where
  layout : b.layout = a.layout
  get? : ∀ h, b.get? h = (a.get? h).map (change h)

namespace Remade

variable {a b c : Heap α} {f g : Handle → α → α}

theorem refl (a : Heap α) : Remade (fun _ x => x) a a :=
  ⟨rfl, fun h => by simp⟩

theorem trans (first : Remade f a b) (second : Remade g b c) : Remade (fun h x => g h (f h x)) a c :=
  ⟨second.layout.trans first.layout, fun h => by rw [second.get?, first.get?, Option.map_map]; rfl⟩

theorem congr (remade : Remade f a b) (same : ∀ h x, a.get? h = some x → f h x = g h x) : Remade g a b := by
  refine ⟨remade.layout, fun h => ?_⟩
  rw [remade.get?]
  cases found : a.get? h with
  | none => rfl
  | some x => simp [same h x found]

theorem modify (a : Heap α) (h : Handle) (f : α → α) : Remade (fun k x => if k = h then f x else x) a (a.modify h f) := by
  refine ⟨layout_modify a h f, fun k => ?_⟩
  rw [get?_modify]
  split <;> simp

theorem foldl {ι : Type w} {change : ι → Handle → α → α} {step : Heap α → ι → Heap α}
    (each : ∀ a i, Remade (change i) a (step a i)) (is : List ι) (a : Heap α) :
    Remade (fun h x => is.foldl (fun x i => change i h x) x) a (is.foldl step a) := by
  induction is generalizing a with
  | nil => exact refl a
  | cons i is ih => exact (each a i).trans (ih (step a i))

/-- Making one change at several places, some of them perhaps more than once. -/
theorem foldl_modify {ι : Type w} (target : ι → Handle) (change : Handle → α → α)
    (once : ∀ h x, change h (change h x) = change h x) (is : List ι) (a : Heap α) :
    Remade (fun h x => if h ∈ is.map target then change h x else x) a
      (is.foldl (fun a i => a.modify (target i) (change (target i))) a) := by
  have folded : ∀ h x, is.foldl (fun x i => if h = target i then change (target i) x else x) x =
      if h ∈ is.map target then change h x else x := by
    intro h x
    induction is generalizing x with
    | nil => rfl
    | cons i is ih =>
      rw [List.foldl_cons, ih]
      by_cases here : h = target i
      · subst here
        simp [once]
      · simp [here]
  exact (foldl (fun a i => modify a (target i) (change (target i))) is a).congr fun h x _ => folded h x

theorem alike {β : Type v} {view : α → β} (remade : Remade f a b)
    (keeps : ∀ h x, a.get? h = some x → view (f h x) = view x) : Alike view a b := by
  refine ⟨remade.layout, fun h => ?_⟩
  rw [remade.get?]
  cases found : a.get? h with
  | none => rfl
  | some x => simp [keeps h x found]

end Remade

/-- Every slot listed as vacant is vacant and listed once. -/
structure Sound (heap : Heap α) : Prop where
  nodup : heap.free.Nodup
  vacant : ∀ index ∈ heap.free, ∃ g, heap.layout.1[index.toNat]? = some (g, false)

theorem Sound.of_layout {a b : Heap α} (sound : a.Sound) (same : b.layout = a.layout) : b.Sound := by
  have free : b.free = a.free := congrArg Prod.snd same
  exact ⟨free ▸ sound.nodup, by rw [free, same]; exact sound.vacant⟩

theorem layout_getElem? (heap : Heap α) (i : Nat) : heap.layout.1[i]? = (heap.slots[i]?).map Slot.shape := by
  simp [layout, List.getElem?_map, Array.getElem?_toList]

theorem Sound.get?_eq_none {heap : Heap α} (sound : heap.Sound) {h : Handle} (listed : h.index ∈ heap.free) :
    heap.get? h = none := by
  obtain ⟨g, vacant⟩ := sound.vacant h.index listed
  rw [layout_getElem?] at vacant
  cases found : heap.get? h with
  | none => rfl
  | some a =>
    rw [get?_eq_some_iff.1 found] at vacant
    simp [Slot.shape, Slot.isTaken] at vacant

/-- There is a handle for a newcomer: a number for the slot if it needs a new one, and a further generation in the vacant
slot that it takes otherwise. -/
structure HasRoom (heap : Heap α) : Prop where
  slots : heap.free = [] → heap.totalSlots < UInt32.size
  generation : ∀ index rest, heap.free = index :: rest → ∀ g, heap.layout.1[index.toNat]? = some (g, false) →
    g.toNat + 1 < UInt32.size

/-- A handle that was given out already: its slot has come to its generation. -/
def Spent (heap : Heap α) (h : Handle) : Prop :=
  ∃ g taken, heap.layout.1[h.index.toNat]? = some (g, taken) ∧ h.generation ≤ g

theorem spent_of_get? {heap : Heap α} {h : Handle} {a : α} (found : heap.get? h = some a) : heap.Spent h := by
  refine ⟨h.generation, true, ?_, UInt32.le_refl _⟩
  rw [layout_getElem?, get?_eq_some_iff.1 found]
  rfl

theorem Spent.of_layout {a b : Heap α} {h : Handle} (spent : a.Spent h) (same : b.layout = a.layout) : b.Spent h := by
  unfold Spent
  rw [same]
  exact spent

section allocate

variable {heap : Heap α} (sound : heap.Sound) (room : heap.HasRoom) (a : α)

include sound room

theorem get?_allocate_fst : heap.get? (heap.allocate a).1 = none := by
  unfold allocate
  split
  · next empty =>
    have bound : heap.slots.size < UInt32.size := room.slots empty
    have index : (UInt32.ofNat heap.slots.size).toNat = heap.slots.size := UInt32.toNat_ofNat_of_lt' bound
    simp [get?, index]
  · next index rest listed =>
    exact sound.get?_eq_none (by simp [listed])

theorem get?_allocate (k : Handle) :
    (heap.allocate a).2.get? k = if k = (heap.allocate a).1 then some a else heap.get? k := by
  have fresh := get?_allocate_fst sound room a
  unfold allocate at fresh ⊢
  split at fresh
  · next empty =>
    have bound : heap.slots.size < UInt32.size := room.slots empty
    have index : (UInt32.ofNat heap.slots.size).toNat = heap.slots.size := UInt32.toNat_ofNat_of_lt' bound
    split
    · next same => subst same; rw [get?_eq_some_iff]; simp [index]
    · next different =>
      simp only [get?, Array.getElem?_push]
      split
      · next last =>
        have generations : (0 : UInt32) ≠ k.generation := by
          intro zero
          have number : k.index = UInt32.ofNat heap.slots.size := UInt32.toNat_inj.1 (last.trans index.symm)
          exact different (by rw [← number, zero])
        simp [Slot.value?, generations, last]
      · rfl
  · next index rest listed =>
    obtain ⟨g, vacant⟩ := sound.vacant index (by simp [listed])
    rw [layout_getElem?] at vacant
    have bound : index.toNat < heap.slots.size := by
      by_contra outside
      simp [Array.getElem?_eq_none (Nat.le_of_not_lt outside)] at vacant
    split
    · next same => subst same; rw [get?_eq_some_iff]; simp [bound]
    · next different =>
      by_cases same : index = k.index
      · rw [same] at fresh
        have none_before : heap.get? k = none := sound.get?_eq_none (by simp [listed, same])
        rw [none_before]
        subst same
        simp only [get?, Array.getElem?_setIfInBounds, bound, ↓reduceIte, Option.bind_some, Slot.value?]
        split
        · next generation => exact absurd (by cases k; simp_all) different
        · rfl
      · have numbers : index.toNat ≠ k.index.toNat := fun eq => same (UInt32.toNat_inj.1 eq)
        simp [get?, numbers]

omit room in
theorem sound_allocate : (heap.allocate a).2.Sound := by
  unfold allocate
  split
  · next empty => exact ⟨by simp [empty], by simp [empty]⟩
  · next index rest listed =>
    have nodup := sound.nodup
    rw [listed, List.nodup_cons] at nodup
    refine ⟨nodup.2, fun other member => ?_⟩
    obtain ⟨g, vacant⟩ := sound.vacant other (by simp [listed, member])
    have different : index.toNat ≠ other.toNat := by
      intro same
      exact nodup.1 (UInt32.toNat_inj.1 same ▸ member)
    refine ⟨g, ?_⟩
    rw [layout_getElem?] at vacant ⊢
    simpa [Array.getElem?_setIfInBounds, different] using vacant

/-- A handle that was given out once is not given out again. -/
theorem spent_allocate {h : Handle} (spent : heap.Spent h) :
    (heap.allocate a).1 ≠ h ∧ (heap.allocate a).2.Spent h := by
  obtain ⟨g, taken, slot, reached⟩ := spent
  rw [layout_getElem?] at slot
  obtain ⟨s, here, shape⟩ := Option.map_eq_some_iff.1 slot
  have bound : h.index.toNat < heap.slots.size := (Array.getElem?_eq_some_iff.1 here).1
  unfold allocate
  split
  · next empty =>
    have fits : heap.slots.size < UInt32.size := room.slots empty
    have index : (UInt32.ofNat heap.slots.size).toNat = heap.slots.size := UInt32.toNat_ofNat_of_lt' fits
    refine ⟨fun same => ?_, g, taken, ?_, reached⟩
    · subst same
      simp only [index] at bound
      omega
    · rw [layout_getElem?, ← slot]
      simp [Array.getElem?_push, Nat.ne_of_lt bound]
  · next index rest listed =>
    obtain ⟨g', vacant⟩ := sound.vacant index (by simp [listed])
    have more := room.generation index rest listed g' vacant
    rw [layout_getElem?] at vacant
    have next : (heap.slots[index.toNat]?.map Slot.generation).getD 0 = g' := by
      obtain ⟨s', found, shape'⟩ := Option.map_eq_some_iff.1 vacant
      rw [found]
      exact congrArg Prod.fst shape'
    have larger : (g' + 1).toNat = g'.toNat + 1 := by
      rw [UInt32.toNat_add, UInt32.toNat_one]
      exact Nat.mod_eq_of_lt more
    by_cases other : index.toNat = h.index.toNat
    · have same : g' = g := by
        rw [other, slot] at vacant
        exact (congrArg Prod.fst (Option.some.inj vacant)).symm
      subst same
      have below : h.generation.toNat ≤ g'.toNat := UInt32.le_iff_toNat_le.1 reached
      refine ⟨fun equal => ?_, g' + 1, true, ?_, UInt32.le_iff_toNat_le.2 (by omega)⟩
      · have generation := congrArg (·.generation.toNat) equal
        simp only [next, larger] at generation
        omega
      · rw [layout_getElem?, next]
        simp [other, bound, Slot.shape, Slot.generation, Slot.isTaken]
    · refine ⟨fun equal => other (congrArg (·.index.toNat) equal), g, taken, ?_, reached⟩
      rw [layout_getElem?, ← slot]
      simp [other]

end allocate

theorem totalSlots_allocate_le (heap : Heap α) (a : α) : (heap.allocate a).2.totalSlots ≤ heap.totalSlots + 1 := by
  unfold allocate totalSlots
  split <;> simp

/-- The slots that are vacant after an allocation were vacant before. -/
theorem vacant_of_allocate {heap : Heap α} {a : α} {i : Nat} {g : UInt32}
    (vacant : (heap.allocate a).2.layout.1[i]? = some (g, false)) : heap.layout.1[i]? = some (g, false) := by
  rw [layout_getElem?] at vacant ⊢
  unfold allocate at vacant
  split at vacant
  · rw [Array.getElem?_push] at vacant
    split at vacant
    · simp [Slot.shape, Slot.isTaken] at vacant
    · exact vacant
  · rw [Array.getElem?_setIfInBounds] at vacant
    split at vacant
    · split at vacant <;> simp [Slot.shape, Slot.isTaken] at vacant
    · exact vacant

/-- There are handles for two more values: numbers for two slots, and a generation in every vacant one. -/
structure HandlesRemain (heap : Heap α) : Prop where
  slots : heap.totalSlots + 2 ≤ UInt32.size
  generations : ∀ (i : Nat) (g : UInt32), heap.layout.1[i]? = some (g, false) → g.toNat + 1 < UInt32.size

theorem HandlesRemain.of_layout {a b : Heap α} (remain : a.HandlesRemain) (same : b.layout = a.layout) :
    b.HandlesRemain :=
  ⟨totalSlots_eq_of_layout same ▸ remain.slots, same ▸ remain.generations⟩

theorem HandlesRemain.hasRoom {heap : Heap α} (remain : heap.HandlesRemain) : heap.HasRoom := by
  have slots := remain.slots
  exact ⟨fun _ => by omega, fun _ _ _ => remain.generations _⟩

theorem HandlesRemain.hasRoom_allocate {heap : Heap α} (remain : heap.HandlesRemain) (a : α) :
    (heap.allocate a).2.HasRoom := by
  have slots := remain.slots
  have more := heap.totalSlots_allocate_le a
  exact ⟨fun _ => by omega, fun _ _ _ g vacant => remain.generations _ g (vacant_of_allocate vacant)⟩

@[simp] theorem get?_release (heap : Heap α) (h k : Handle) :
    (heap.release h).get? k = if k = h then none else heap.get? k := by
  cases found : heap.get? h with
  | none =>
    simp only [release, found]
    split
    · next same => rw [same, found]
    · rfl
  | some a =>
    simp only [release, found]
    have taken := get?_eq_some_iff.1 found
    have bound : h.index.toNat < heap.slots.size := (Array.getElem?_eq_some_iff.1 taken).1
    by_cases index : h.index.toNat = k.index.toNat
    · have outside : k ≠ h → heap.get? k = none := by
        intro different
        cases other : heap.get? k with
        | none => rfl
        | some b =>
          exact absurd (eq_of_get?_of_index_eq other found (UInt32.toNat_inj.1 index.symm)) different
      have emptied : Heap.get? ⟨heap.slots.setIfInBounds h.index.toNat (.vacant h.generation),
          h.index :: heap.free⟩ k = none := by
        simp [get?, ← index, bound, Slot.value?]
      rw [emptied]
      split
      · rfl
      · next different => exact (outside different).symm
    · have different : k ≠ h := fun same => index (by rw [same])
      simp [get?, index, different]

/-- What is released need not be changed before. -/
theorem release_modify (heap : Heap α) (h : Handle) (f : α → α) : (heap.modify h f).release h = heap.release h := by
  cases found : heap.get? h with
  | none => rw [modify_of_get?_eq_none found]
  | some a =>
    have changed : (heap.modify h f).get? h = some (f a) := by simp [found]
    simp only [release, changed, found]
    rw [modify_of_get? found]
    simp

theorem Sound.release {heap : Heap α} (sound : heap.Sound) (h : Handle) : (heap.release h).Sound := by
  cases found : heap.get? h with
  | none => simpa only [Heap.release, found] using sound
  | some a =>
    have taken := get?_eq_some_iff.1 found
    have bound : h.index.toNat < heap.slots.size := (Array.getElem?_eq_some_iff.1 taken).1
    simp only [Heap.release, found]
    have unlisted : h.index ∉ heap.free := by
      intro listed
      rw [sound.get?_eq_none listed] at found
      cases found
    refine ⟨List.nodup_cons.2 ⟨unlisted, sound.nodup⟩, fun index member => ?_⟩
    rw [layout_getElem?]
    simp only [Array.getElem?_setIfInBounds]
    split
    · exact ⟨h.generation, by simp [Slot.shape, Slot.generation, Slot.isTaken]⟩
    · next different =>
      have listed : index ∈ heap.free :=
        (List.mem_cons.1 member).resolve_left fun same => different (by rw [same])
      obtain ⟨g, vacant⟩ := sound.vacant index listed
      exact ⟨g, by rwa [layout_getElem?] at vacant⟩

theorem Spent.release {heap : Heap α} {h : Handle} (spent : heap.Spent h) (k : Handle) : (heap.release k).Spent h := by
  cases found : heap.get? k with
  | none => simpa only [Heap.release, found] using spent
  | some a =>
    have taken := get?_eq_some_iff.1 found
    obtain ⟨g, t, slot, reached⟩ := spent
    rw [layout_getElem?] at slot
    simp only [Heap.release, found]
    by_cases same : k.index.toNat = h.index.toNat
    · rw [← same, taken] at slot
      have generation : k.generation = g := congrArg Prod.fst (Option.some.inj slot)
      refine ⟨g, false, ?_, reached⟩
      rw [layout_getElem?]
      simp [← same, (Array.getElem?_eq_some_iff.1 taken).1, Slot.shape, Slot.generation, Slot.isTaken, generation]
    · refine ⟨g, t, ?_, reached⟩
      rw [layout_getElem?, ← slot]
      simp [same]

/-- The handles that the generations of the slots admit; every handle that resolves is among them. -/
def handles (heap : Heap α) : Finset Handle :=
  (Finset.range heap.totalSlots).image fun i => ⟨UInt32.ofNat i, ((heap.layout.1[i]?).map Prod.fst).getD 0⟩

theorem card_handles_le (heap : Heap α) : heap.handles.card ≤ heap.totalSlots :=
  Finset.card_image_le.trans_eq (Finset.card_range _)

theorem handles_eq_of_layout {a b : Heap α} (same : b.layout = a.layout) : b.handles = a.handles := by
  unfold handles
  rw [same, totalSlots_eq_of_layout same]

theorem mem_handles {heap : Heap α} {h : Handle} {a : α} (found : heap.get? h = some a) : h ∈ heap.handles := by
  have taken := get?_eq_some_iff.1 found
  refine Finset.mem_image.2 ⟨h.index.toNat, ?_, ?_⟩
  · exact Finset.mem_range.2 (Array.getElem?_eq_some_iff.1 taken).1
  · rw [layout_getElem?, taken]
    simp [Slot.shape, Slot.generation]

/-! ## The number of taken slots -/

/-- Every vacant slot is listed. -/
def Listed (heap : Heap α) : Prop :=
  ∀ (i : Nat) (g : UInt32), heap.layout.1[i]? = some (g, false) → ∃ index ∈ heap.free, index.toNat = i

theorem Listed.of_layout {a b : Heap α} (listed : a.Listed) (same : b.layout = a.layout) : b.Listed := by
  have free : b.free = a.free := congrArg Prod.snd same
  intro i g vacant
  rw [same] at vacant
  exact free ▸ listed i g vacant

/-- A newcomer takes its slot off the list. -/
theorem Listed.allocate {heap : Heap α} (listed : heap.Listed) (a : α) : (heap.allocate a).2.Listed := by
  intro i g vacant
  obtain ⟨index, member, here⟩ := listed i g (vacant_of_allocate vacant)
  unfold Heap.allocate at vacant ⊢
  split at vacant
  · exact ⟨index, member, here⟩
  · next first rest isFree =>
    rw [isFree] at member
    rcases List.mem_cons.1 member with rfl | later
    · rw [layout_getElem?, ← here, Array.getElem?_setIfInBounds_self] at vacant
      split at vacant <;> simp [Slot.shape, Slot.isTaken] at vacant
    · exact ⟨index, later, here⟩

theorem Listed.release {heap : Heap α} (listed : heap.Listed) (h : Handle) : (heap.release h).Listed := by
  cases found : heap.get? h with
  | none => simpa only [Heap.release, found] using listed
  | some a =>
    simp only [Heap.release, found]
    intro i g vacant
    by_cases same : h.index.toNat = i
    · exact ⟨h.index, List.mem_cons_self, same⟩
    · rw [layout_getElem?, Array.getElem?_setIfInBounds_ne same, ← layout_getElem?] at vacant
      obtain ⟨index, member, here⟩ := listed i g vacant
      exact ⟨index, List.mem_cons_of_mem _ member, here⟩

def takenSlots (heap : Heap α) : Finset Nat :=
  (Finset.range heap.totalSlots).filter fun i => (heap.layout.1[i]?).any (·.2)

theorem mem_takenSlots {heap : Heap α} {i : Nat} :
    i ∈ heap.takenSlots ↔ ∃ g a, heap.slots[i]? = some (.taken g a) := by
  have inside : ∀ slot, heap.slots[i]? = some slot → i < heap.totalSlots :=
    fun _ found => (Array.getElem?_eq_some_iff.1 found).1
  rw [takenSlots, Finset.mem_filter, Finset.mem_range, layout_getElem?]
  rcases found : heap.slots[i]? with _ | _ | _
  · simp
  · simp [inside _ found, Slot.shape, Slot.isTaken]
  · simp [Slot.shape, Slot.isTaken]

def vacantSlots (heap : Heap α) : Finset Nat :=
  (Finset.range heap.totalSlots).filter fun i => ¬(heap.layout.1[i]?).any (·.2) = true

theorem mem_vacantSlots {heap : Heap α} {i : Nat} : i ∈ heap.vacantSlots ↔ ∃ g, heap.slots[i]? = some (.vacant g) := by
  have inside : ∀ slot, heap.slots[i]? = some slot → i < heap.totalSlots :=
    fun _ found => (Array.getElem?_eq_some_iff.1 found).1
  rw [vacantSlots, Finset.mem_filter, Finset.mem_range, layout_getElem?]
  rcases found : heap.slots[i]? with _ | _ | _
  · simpa [totalSlots] using Array.getElem?_eq_none_iff.1 found
  · simp [Slot.shape, Slot.isTaken]
  · simp [inside _ found, Slot.shape, Slot.isTaken]

theorem mem_free_iff {heap : Heap α} (sound : heap.Sound) (listed : heap.Listed) {index : UInt32} :
    index ∈ heap.free ↔ index.toNat ∈ heap.vacantSlots := by
  rw [mem_vacantSlots]
  constructor
  · intro member
    obtain ⟨g, vacant⟩ := sound.vacant index member
    rw [layout_getElem?] at vacant
    rcases found : heap.slots[index.toNat]? with _ | _ | g'
    · simp [found] at vacant
    · simp [found, Slot.shape, Slot.isTaken] at vacant
    · exact ⟨g', rfl⟩
  · rintro ⟨g, vacant⟩
    have slot : heap.layout.1[index.toNat]? = some (g, false) := by
      rw [layout_getElem?, vacant]
      rfl
    obtain ⟨other, member, same⟩ := listed _ g slot
    rwa [← UInt32.toNat_inj.1 same]

theorem vacantSlots_eq {heap : Heap α} (sound : heap.Sound) (listed : heap.Listed) :
    heap.vacantSlots = (heap.free.map UInt32.toNat).toFinset := by
  ext i
  rw [List.mem_toFinset, List.mem_map]
  constructor
  · intro vacant
    obtain ⟨g, slot⟩ := mem_vacantSlots.1 vacant
    obtain ⟨index, member, rfl⟩ := listed i g (by rw [layout_getElem?, slot]; rfl)
    exact ⟨index, member, rfl⟩
  · rintro ⟨index, member, rfl⟩
    exact (mem_free_iff sound listed).1 member

theorem card_vacantSlots {heap : Heap α} (sound : heap.Sound) (listed : heap.Listed) :
    heap.vacantSlots.card = heap.freeSlots := by
  have nodup : (heap.free.map UInt32.toNat).Nodup := sound.nodup.map fun _ _ => UInt32.toNat_inj.1
  rw [vacantSlots_eq sound listed, List.toFinset_card_of_nodup nodup, List.length_map]
  rfl

theorem card_slots (heap : Heap α) : heap.takenSlots.card + heap.vacantSlots.card = heap.totalSlots := by
  have parts := Finset.card_filter_add_card_filter_not (s := Finset.range heap.totalSlots)
    (fun i => (heap.layout.1[i]?).any (·.2) = true)
  rwa [Finset.card_range] at parts

/-- Where all vacant slots are listed, and each once, the size of a heap is the number of its taken slots. -/
theorem card_takenSlots {heap : Heap α} (sound : heap.Sound) (listed : heap.Listed) :
    heap.takenSlots.card = heap.size := by
  have parts := heap.card_slots
  rw [card_vacantSlots sound listed] at parts
  rw [size, ← parts]
  exact (Nat.add_sub_cancel ..).symm

end Heap

end DynamicObjects
