/-!
# Tables keyed by name

A table lists its entries in the order of their names, each name once. The order is that of code points.
-/
namespace DynamicObjects

structure NameTable (α : Type u) where
  entries : List (String × α) := []
  sorted : entries.Pairwise (fun a b => a.1 < b.1) := by exact .nil

namespace NameTable

variable {α : Type u}

def empty : NameTable α := {}

instance : Inhabited (NameTable α) := ⟨empty⟩

def names (t : NameTable α) : List String :=
  t.entries.map Prod.fst

def size (t : NameTable α) : Nat :=
  t.entries.length

/-- The value of the first entry with this name. -/
def find (name : String) : List (String × α) → Option α
  | [] => none
  | (n, a) :: rest => if n = name then some a else find name rest

def get? (t : NameTable α) (name : String) : Option α :=
  find name t.entries

def contains (t : NameTable α) (name : String) : Bool :=
  (t.get? name).isSome

/-- Puts an entry at its place, over an entry of the same name. -/
def place (name : String) (a : α) : List (String × α) → List (String × α)
  | [] => [(name, a)]
  | (n, b) :: rest =>
    if name < n then (name, a) :: (n, b) :: rest
    else if name = n then (name, a) :: rest
    else (n, b) :: place name a rest

theorem mem_place {name : String} {a : α} {xs : List (String × α)} {e : String × α}
    (h : e ∈ place name a xs) : e = (name, a) ∨ e ∈ xs := by
  induction xs with
  | nil => simpa [place] using h
  | cons x xs ih =>
    obtain ⟨n, b⟩ := x
    unfold place at h
    split at h
    · exact List.mem_cons.1 h
    · split at h
      · rcases List.mem_cons.1 h with h | h
        · exact .inl h
        · exact .inr (List.mem_cons_of_mem _ h)
      · rcases List.mem_cons.1 h with h | h
        · exact .inr (h ▸ List.mem_cons_self)
        · exact (ih h).imp id (List.mem_cons_of_mem _)

private theorem name_lt_of_not_lt_of_ne {a b : String} (hlt : ¬a < b) (hne : a ≠ b) : b < a := by
  rcases Std.le_total (a := a) (b := b) with h | h
  · exact absurd (Std.lt_of_le_of_ne h hne) hlt
  · exact Std.lt_of_le_of_ne h (Ne.symm hne)

theorem place_sorted {name : String} {a : α} {xs : List (String × α)}
    (hs : xs.Pairwise (fun a b => a.1 < b.1)) : (place name a xs).Pairwise (fun a b => a.1 < b.1) := by
  induction xs with
  | nil => simp [place]
  | cons x xs ih =>
    obtain ⟨n, b⟩ := x
    have hx := List.pairwise_cons.1 hs
    unfold place
    split
    · next hlt =>
      refine List.pairwise_cons.2 ⟨fun e he => ?_, hs⟩
      rcases List.mem_cons.1 he with rfl | he
      · exact hlt
      · exact String.lt_trans hlt (hx.1 e he)
    · next hlt =>
      split
      · next heq => exact List.pairwise_cons.2 ⟨fun e he => heq ▸ hx.1 e he, hx.2⟩
      · next hne =>
        refine List.pairwise_cons.2 ⟨fun e he => ?_, ih hx.2⟩
        rcases mem_place he with rfl | he
        · exact name_lt_of_not_lt_of_ne hlt hne
        · exact hx.1 e he

def insert (t : NameTable α) (name : String) (a : α) : NameTable α :=
  ⟨place name a t.entries, place_sorted t.sorted⟩

def filter (t : NameTable α) (keep : String → α → Bool) : NameTable α :=
  ⟨t.entries.filter fun e => keep e.1 e.2, t.sorted.filter _⟩

def erase (t : NameTable α) (name : String) : NameTable α :=
  t.filter fun n _ => n ≠ name

@[simp] theorem get?_empty (name : String) : (empty : NameTable α).get? name = none := rfl

private theorem find_place (name other : String) (a : α) (xs : List (String × α)) :
    find other (place name a xs) = if other = name then some a else find other xs := by
  induction xs with
  | nil => simp [place, find, eq_comm]
  | cons x xs ih =>
    obtain ⟨n, b⟩ := x
    unfold place
    split
    · simp [find, eq_comm]
    · split
      · next heq => subst heq; simp [find, eq_comm]; grind
      · simp only [find, ih]; grind

@[simp] theorem get?_insert (t : NameTable α) (name other : String) (a : α) :
    (t.insert name a).get? other = if other = name then some a else t.get? other :=
  find_place name other a t.entries

private theorem find_filter_ne (name other : String) (xs : List (String × α)) :
    find other (xs.filter fun e => e.1 ≠ name) = if other = name then none else find other xs := by
  induction xs with
  | nil => simp [find]
  | cons x xs ih =>
    obtain ⟨n, b⟩ := x
    by_cases h : n = name <;> simp_all [find] <;> grind

@[simp] theorem get?_erase (t : NameTable α) (name other : String) :
    (t.erase name).get? other = if other = name then none else t.get? other :=
  find_filter_ne name other t.entries

private theorem find_eq_none {name : String} {xs : List (String × α)} (others : ∀ e ∈ xs, e.1 ≠ name) :
    find name xs = none := by
  induction xs with
  | nil => rfl
  | cons x xs ih =>
    rw [find, if_neg (others x List.mem_cons_self), ih fun e member => others e (List.mem_cons_of_mem _ member)]

private theorem find_filter (keep : String → α → Bool) (name : String) {xs : List (String × α)}
    (sorted : xs.Pairwise fun a b => a.1 < b.1) :
    find name (xs.filter fun e => keep e.1 e.2) = (find name xs).filter (keep name) := by
  induction xs with
  | nil => rfl
  | cons x xs ih =>
    obtain ⟨n, a⟩ := x
    obtain ⟨after, sorted⟩ := List.pairwise_cons.1 sorted
    have rest := ih sorted
    by_cases here : n = name
    · subst here
      have alone : find n xs = none := find_eq_none fun e member => (String.ne_of_lt (after e member)).symm
      rw [alone] at rest
      cases kept : keep n a <;> simp [find, kept, rest, Option.filter]
    · cases kept : keep n a <;> simp [find, kept, here, rest]

@[simp] theorem get?_filter (t : NameTable α) (keep : String → α → Bool) (name : String) :
    (t.filter keep).get? name = (t.get? name).filter (keep name) :=
  find_filter keep name t.sorted

end NameTable

end DynamicObjects
