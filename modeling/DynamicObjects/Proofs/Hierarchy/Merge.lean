import Mathlib.Data.List.Dedup
import Mathlib.Tactic.Tauto
import DynamicObjects.Hierarchy.Precedence

/-!
# What merging keeps

Whichever head goes first, a merge loses nothing, repeats nothing and keeps whatever both orders agree on: of an
element that stands in both, the last place counts, and that is in front of all that follows the element in either.
-/
namespace DynamicObjects.Hierarchy

/-- Wherever `x` stands in a list, `a` stands somewhere behind it. -/
def Leads {α : Type} (x a : α) : List α → Prop
  | [] => True
  | y :: ys => (y = x → a ∈ ys) ∧ Leads x a ys

section leads

variable {α : Type} {x a : α}

theorem leads_of_not_mem {xs : List α} (absent : x ∉ xs) : Leads x a xs := by
  induction xs with
  | nil => trivial
  | cons y ys ih =>
    rw [List.mem_cons, not_or] at absent
    exact ⟨fun same => absurd same.symm absent.1, ih absent.2⟩

theorem Leads.sublist {xs : List α} (leads : Leads x a xs) (member : x ∈ xs) : [x, a].Sublist xs := by
  induction xs with
  | nil => cases member
  | cons y ys ih =>
    rcases List.mem_cons.1 member with rfl | inside
    · exact .cons_cons _ (List.singleton_sublist.2 (leads.1 rfl))
    · exact .cons _ (ih leads.2 inside)

theorem leads_of_sublist {xs : List α} (nodup : xs.Nodup) (order : [x, a].Sublist xs) : Leads x a xs := by
  induction xs with
  | nil => trivial
  | cons y ys ih =>
    obtain ⟨fresh, rest⟩ := List.nodup_cons.1 nodup
    cases order with
    | cons _ later =>
      refine ⟨fun same => ?_, ih rest later⟩
      exact absurd (later.subset List.mem_cons_self) (same ▸ fresh)
    | cons_cons _ tail => exact ⟨fun _ => List.singleton_sublist.1 tail, leads_of_not_mem fresh⟩

theorem Leads.append_left {xs ys : List α} (leads : Leads x a (xs ++ ys)) : Leads x a ys := by
  induction xs with
  | nil => exact leads
  | cons _ _ ih => exact ih leads.2

theorem Leads.append {xs ys : List α} (first : Leads x a xs) (second : Leads x a ys) : Leads x a (xs ++ ys) := by
  induction xs with
  | nil => exact second
  | cons y xs ih => exact ⟨fun same => List.mem_append_left ys (first.1 same), ih first.2⟩

theorem leads_flatten {lists : List (List α)} (each : ∀ xs ∈ lists, Leads x a xs) : Leads x a lists.flatten := by
  induction lists with
  | nil => trivial
  | cons xs lists ih =>
    rw [List.flatten_cons]
    exact (each xs List.mem_cons_self).append (ih fun ys later => each ys (List.mem_cons_of_mem xs later))

/-- Leaving out others than `a` does not matter. -/
theorem Leads.filter {xs : List α} {p : α → Bool} (leads : Leads x a xs) (kept : p a = true) :
    Leads x a (xs.filter p) := by
  induction xs with
  | nil => trivial
  | cons y xs ih =>
    rw [List.filter_cons]
    split
    · exact ⟨fun same => List.mem_filter.2 ⟨leads.1 same, kept⟩, ih leads.2⟩
    · exact ih leads.2

theorem Leads.map {β : Type} {f : α → β} (injective : Function.Injective f) {xs : List α} (leads : Leads x a xs) :
    Leads (f x) (f a) (xs.map f) := by
  induction xs with
  | nil => trivial
  | cons y xs ih => exact ⟨fun same => List.mem_map_of_mem (leads.1 (injective same)), ih leads.2⟩

/-- The last places alone show it. -/
theorem Leads.dedup [DecidableEq α] {xs : List α} (leads : Leads x a xs) : Leads x a xs.dedup := by
  induction xs with
  | nil => trivial
  | cons y xs ih =>
    by_cases again : y ∈ xs
    · rw [List.dedup_cons_of_mem again]
      exact ih leads.2
    · rw [List.dedup_cons_of_notMem again]
      exact ⟨fun same => List.mem_dedup.2 (leads.1 same), ih leads.2⟩

/-- An earlier place of an element that comes again does not matter. -/
theorem Leads.erase_append {x a : Handle} {xs ys : List Handle} {c : Handle} (leads : Leads x a (xs ++ ys))
    (again : c ∈ ys) : Leads x a (xs.erase c ++ ys) := by
  induction xs with
  | nil => exact leads
  | cons y xs ih =>
    by_cases same : y = c
    · subst same
      rw [List.erase_cons_head]
      exact leads.2
    · rw [List.erase_cons_tail (by simpa using same)]
      refine ⟨fun eq => ?_, ih leads.2⟩
      rcases List.mem_append.1 (leads.1 eq) with early | late
      · by_cases moved : a = c
        · exact List.mem_append.2 (.inr (moved ▸ again))
        · exact List.mem_append.2 (.inl ((List.mem_erase_of_ne moved).2 early))
      · exact List.mem_append.2 (.inr late)

end leads

/-! ## Placing -/

section place

variable {result : List Handle}

theorem mem_place {c k : Handle} : k ∈ place result c ↔ k ∈ result ∨ k = c := by
  unfold place
  rw [List.mem_append, List.mem_singleton]
  by_cases same : k = c
  · simp [same]
  · rw [List.mem_erase_of_ne same]

theorem nodup_place {c : Handle} (nodup : result.Nodup) : (place result c).Nodup := by
  refine List.nodup_append.2 ⟨nodup.erase c, List.nodup_cons.2 ⟨List.not_mem_nil, .nil⟩, ?_⟩
  intro k early l late same
  rw [List.mem_singleton.1 late] at same
  exact (nodup.mem_erase_iff.1 early).1 same

theorem mem_foldl_place {cs : List Handle} {k : Handle} : k ∈ cs.foldl place result ↔ k ∈ result ∨ k ∈ cs := by
  induction cs generalizing result with
  | nil => simp
  | cons c cs ih =>
    rw [List.foldl_cons, ih, mem_place, List.mem_cons]
    tauto

theorem nodup_foldl_place {cs : List Handle} (nodup : result.Nodup) : (cs.foldl place result).Nodup := by
  induction cs generalizing result with
  | nil => exact nodup
  | cons c cs ih => exact ih (nodup_place nodup)

theorem leads_foldl_place {cs : List Handle} {x a : Handle} (leads : Leads x a (result ++ cs)) :
    Leads x a (cs.foldl place result) := by
  induction cs generalizing result with
  | nil => simpa using leads
  | cons c cs ih =>
    refine ih ?_
    have moved := leads.erase_append (c := c) List.mem_cons_self
    simpa [place] using moved

/-- Placing what is new only appends it. -/
theorem foldl_place_eq_append {cs : List Handle} (nodup : cs.Nodup) (fresh : ∀ c ∈ cs, c ∉ result) :
    cs.foldl place result = result ++ cs := by
  induction cs generalizing result with
  | nil => simp
  | cons c cs ih =>
    obtain ⟨absent, rest⟩ := List.nodup_cons.1 nodup
    have here : place result c = result ++ [c] := by
      unfold place
      rw [List.erase_of_not_mem (fresh c List.mem_cons_self)]
    rw [List.foldl_cons, here, ih rest, List.append_assoc, List.singleton_append]
    intro k member inside
    rcases List.mem_append.1 inside with before | last
    · exact fresh k (List.mem_cons_of_mem _ member) before
    · exact absent (List.mem_singleton.1 last ▸ member)

end place

/-! ## Merging -/

/-- The order in which a merge places its elements. -/
def interleave (precedes : Handle → Handle → Bool) : List Handle → List Handle → List Handle
  | [], ys => ys
  | x :: xs, [] => x :: xs
  | x :: xs, y :: ys =>
    if x = y then x :: interleave precedes xs ys
    else if precedes y x then y :: interleave precedes (x :: xs) ys
    else x :: interleave precedes xs (y :: ys)
termination_by xs ys => xs.length + ys.length

section merge

variable {precedes : Handle → Handle → Bool}

theorem mergeTwo_eq_foldl_place (result xs ys : List Handle) :
    mergeTwo precedes result xs ys = (interleave precedes xs ys).foldl place result := by
  fun_induction interleave precedes xs ys generalizing result with
  | case1 ys => rw [mergeTwo]
  | case2 x xs => rw [mergeTwo]
  | case3 xs x ys ih => rw [mergeTwo, if_pos rfl, List.foldl_cons, ih]
  | case4 x xs y ys different first ih => rw [mergeTwo, if_neg different, if_pos first, List.foldl_cons, ih]
  | case5 x xs y ys different other ih => rw [mergeTwo, if_neg different, if_neg other, List.foldl_cons, ih]

theorem mem_interleave {xs ys : List Handle} {k : Handle} : k ∈ interleave precedes xs ys ↔ k ∈ xs ∨ k ∈ ys := by
  fun_induction interleave precedes xs ys with
  | case1 ys => simp
  | case2 x xs => simp
  | case3 xs x ys ih => simp only [List.mem_cons, ih]; tauto
  | case4 x xs y ys different first ih => simp only [List.mem_cons, ih]; tauto
  | case5 x xs y ys different other ih => simp only [List.mem_cons, ih]; tauto

theorem leads_interleave {xs ys : List Handle} {x a : Handle} (left : Leads x a xs) (right : Leads x a ys) :
    Leads x a (interleave precedes xs ys) := by
  fun_induction interleave precedes xs ys with
  | case1 ys => exact right
  | case2 x xs => exact left
  | case3 xs y ys ih => exact ⟨fun same => mem_interleave.2 (.inl (left.1 same)), ih left.2 right.2⟩
  | case4 y xs z ys different first ih =>
    exact ⟨fun same => mem_interleave.2 (.inr (right.1 same)), ih left right.2⟩
  | case5 y xs z ys different other ih =>
    exact ⟨fun same => mem_interleave.2 (.inl (left.1 same)), ih left.2 right⟩

theorem mem_mergeTwo {result xs ys : List Handle} {k : Handle} :
    k ∈ mergeTwo precedes result xs ys ↔ k ∈ result ∨ k ∈ xs ∨ k ∈ ys := by
  rw [mergeTwo_eq_foldl_place, mem_foldl_place, mem_interleave]

theorem mergeAll_cons_cons (first second : List Handle) (rest : List (List Handle)) :
    mergeAll precedes (first :: second :: rest) = mergeAll precedes (mergeTwo precedes [] first second :: rest) :=
  rfl

theorem mem_mergeAll {orders : List (List Handle)} {k : Handle} :
    k ∈ mergeAll precedes orders ↔ ∃ order ∈ orders, k ∈ order := by
  cases orders with
  | nil => simp [mergeAll]
  | cons first rest =>
    induction rest generalizing first with
    | nil => simp [mergeAll]
    | cons second rest ih =>
      rw [mergeAll_cons_cons, ih]
      simp only [List.mem_cons, exists_eq_or_imp, mem_mergeTwo, List.not_mem_nil, false_or, or_assoc]

theorem nodup_mergeAll {orders : List (List Handle)} (nodup : ∀ order ∈ orders, order.Nodup) :
    (mergeAll precedes orders).Nodup := by
  cases orders with
  | nil => exact .nil
  | cons first rest =>
    replace nodup := nodup first List.mem_cons_self
    induction rest generalizing first with
    | nil => exact nodup
    | cons second rest ih =>
      rw [mergeAll_cons_cons]
      refine ih _ ?_
      rw [mergeTwo_eq_foldl_place]
      exact nodup_foldl_place .nil

theorem leads_mergeAll {orders : List (List Handle)} {x a : Handle} (leads : ∀ order ∈ orders, Leads x a order) :
    Leads x a (mergeAll precedes orders) := by
  cases orders with
  | nil => trivial
  | cons first rest =>
    induction rest generalizing first with
    | nil => exact leads first List.mem_cons_self
    | cons second rest ih =>
      rw [mergeAll_cons_cons]
      refine ih _ fun order member => ?_
      rcases List.mem_cons.1 member with rfl | later
      · rw [mergeTwo_eq_foldl_place]
        exact leads_foldl_place (leads_interleave (leads first List.mem_cons_self) (leads second (by simp)))
      · exact leads order (by simp [later])

/-- A merge asks about pairs of different elements only, the first from the orders it merges. -/
theorem interleave_congr {other : Handle → Handle → Bool} {xs ys : List Handle}
    (agree : ∀ y ∈ ys, ∀ x ∈ xs, x ≠ y → precedes y x = other y x) :
    interleave precedes xs ys = interleave other xs ys := by
  fun_induction interleave precedes xs ys with
  | case1 ys => rw [interleave]
  | case2 x xs => rw [interleave]
  | case3 xs x ys ih =>
    rw [interleave, if_pos rfl, ih]
    exact fun y left x right => agree y (List.mem_cons_of_mem _ left) x (List.mem_cons_of_mem _ right)
  | case4 x xs y ys different first ih =>
    have asked := agree y List.mem_cons_self x List.mem_cons_self different
    rw [interleave, if_neg different, if_pos (asked ▸ first), ih]
    exact fun y left x right => agree y (List.mem_cons_of_mem _ left) x right
  | case5 x xs y ys different other_first ih =>
    have asked := agree y List.mem_cons_self x List.mem_cons_self different
    rw [interleave, if_neg different, if_neg (asked ▸ other_first), ih]
    exact fun y left x right => agree y left x (List.mem_cons_of_mem _ right)

theorem mergeAll_congr {other : Handle → Handle → Bool} {orders : List (List Handle)}
    (agree : ∀ order ∈ orders, ∀ y ∈ order, ∀ x, x ≠ y → precedes y x = other y x) :
    mergeAll precedes orders = mergeAll other orders := by
  cases orders with
  | nil => rfl
  | cons first rest =>
    replace agree : ∀ order ∈ rest, ∀ y ∈ order, ∀ x, x ≠ y → precedes y x = other y x :=
      fun order member => agree order (List.mem_cons_of_mem _ member)
    induction rest generalizing first with
    | nil => rfl
    | cons second rest ih =>
      have same : mergeTwo precedes [] first second = mergeTwo other [] first second := by
        rw [mergeTwo_eq_foldl_place, mergeTwo_eq_foldl_place,
          interleave_congr fun y left x _ => agree second List.mem_cons_self y left x]
      rw [mergeAll_cons_cons, mergeAll_cons_cons, same]
      exact ih _ fun order member => agree order (List.mem_cons_of_mem _ member)

end merge

end DynamicObjects.Hierarchy
