import DynamicObjects.Handle

/-!
# Sets of handles

A set is kept as a strictly increasing list, so equal sets are equal values and listing a set follows the order of
handles.
-/
namespace DynamicObjects

structure HandleSet where
  toList : List Handle := []
  sorted : toList.Pairwise (· < ·) := by exact .nil

namespace HandleSet

def empty : HandleSet := {}

instance : Inhabited HandleSet := ⟨empty⟩

instance : Membership Handle HandleSet := ⟨fun s h => h ∈ s.toList⟩

instance (h : Handle) (s : HandleSet) : Decidable (h ∈ s) :=
  inferInstanceAs (Decidable (h ∈ s.toList))

/-- Puts a handle at its place, unless it is there already. -/
def place (h : Handle) : List Handle → List Handle
  | [] => [h]
  | x :: xs => if h < x then h :: x :: xs else if h = x then x :: xs else x :: place h xs

theorem mem_place {h k : Handle} {xs : List Handle} : k ∈ place h xs ↔ k = h ∨ k ∈ xs := by
  induction xs with
  | nil => simp [place]
  | cons x xs ih =>
    unfold place
    split
    · simp
    · split
      · next heq => subst heq; simp
      · simp [ih]; grind

theorem place_sorted {h : Handle} {xs : List Handle} (hs : xs.Pairwise (· < ·)) :
    (place h xs).Pairwise (· < ·) := by
  induction xs with
  | nil => simp [place]
  | cons x xs ih =>
    have hx := List.pairwise_cons.1 hs
    unfold place
    split
    · next hlt =>
      refine List.pairwise_cons.2 ⟨fun k hk => ?_, hs⟩
      rcases List.mem_cons.1 hk with rfl | hk
      · exact hlt
      · exact Handle.lt_trans hlt (hx.1 k hk)
    · next hlt =>
      split
      · exact hs
      · next hne =>
        refine List.pairwise_cons.2 ⟨fun k hk => ?_, ih hx.2⟩
        rcases mem_place.1 hk with rfl | hk
        · exact Handle.lt_of_not_lt_of_ne hlt hne
        · exact hx.1 k hk

def insert (s : HandleSet) (h : Handle) : HandleSet :=
  ⟨place h s.toList, place_sorted s.sorted⟩

def erase (s : HandleSet) (h : Handle) : HandleSet :=
  ⟨s.toList.filter (· ≠ h), s.sorted.filter _⟩

def insertAll (s : HandleSet) (hs : List Handle) : HandleSet :=
  hs.foldl insert s

def ofList (hs : List Handle) : HandleSet :=
  empty.insertAll hs

@[simp] theorem mem_insert {s : HandleSet} {h k : Handle} : k ∈ s.insert h ↔ k = h ∨ k ∈ s :=
  mem_place

@[simp] theorem mem_erase {s : HandleSet} {h k : Handle} : k ∈ s.erase h ↔ k ∈ s ∧ k ≠ h := by
  change k ∈ s.toList.filter _ ↔ k ∈ s.toList ∧ _
  simp

@[simp] theorem mem_insertAll {s : HandleSet} {hs : List Handle} {k : Handle} :
    k ∈ s.insertAll hs ↔ k ∈ s ∨ k ∈ hs := by
  induction hs generalizing s with
  | nil => simp [insertAll]
  | cons h hs ih =>
    have step : s.insertAll (h :: hs) = (s.insert h).insertAll hs := rfl
    rw [step, ih]
    simp only [mem_insert, List.mem_cons]
    grind

end HandleSet

end DynamicObjects
