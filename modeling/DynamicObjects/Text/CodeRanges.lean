/-!
# Ranges of character codes

A property of characters, given by the closed ranges of codes that have it. The ranges ascend and stand apart.
-/
namespace DynamicObjects

abbrev CodeRanges :=
  List (Nat × Nat)

namespace CodeRanges

/-- Whether a code lies in a range. The search ends at the first range that starts beyond the code. -/
def covers : CodeRanges → Nat → Bool
  | [], _ => false
  | (first, last) :: rest, code => first ≤ code && (code ≤ last || covers rest code)

/-- No range is empty, and each ends before the next one starts. -/
def ascending : CodeRanges → Bool
  | [] => true
  | (first, last) :: rest => first ≤ last && rest.head?.all (last < ·.1) && ascending rest

theorem le_of_mem_of_ascending {rs : CodeRanges} (h : ascending rs) {low : Nat} (hlow : rs.head?.all (low ≤ ·.1))
    {r : Nat × Nat} (hr : r ∈ rs) : low ≤ r.1 := by
  induction rs generalizing low with
  | nil => simp at hr
  | cons s rest ih =>
    simp only [ascending, Bool.and_eq_true, decide_eq_true_eq] at h
    simp only [List.head?_cons, Option.all_some, decide_eq_true_eq] at hlow
    rcases List.mem_cons.mp hr with rfl | hr
    · exact hlow
    · refine ih h.2 ?_ hr
      cases hhead : rest.head? with
      | none => rfl
      | some t =>
        have := h.1.2
        simp only [hhead, Option.all_some, decide_eq_true_eq] at this ⊢
        omega

/-- Ending the search early loses nothing. -/
theorem covers_eq_any {rs : CodeRanges} (h : ascending rs) (code : Nat) :
    covers rs code = rs.any fun r => r.1 ≤ code && code ≤ r.2 := by
  induction rs with
  | nil => rfl
  | cons s rest ih =>
    have hs := h
    simp only [ascending, Bool.and_eq_true] at h
    rw [covers, List.any_cons, ih h.2]
    by_cases hcode : s.1 ≤ code
    · simp [hcode]
    · have hrest : (rest.any fun r => r.1 ≤ code && code ≤ r.2) = false := by
        rw [List.any_eq_false]
        intro r hr
        have := @le_of_mem_of_ascending _ hs s.1 (by simp) _ (List.mem_cons_of_mem s hr)
        simp only [Bool.and_eq_true, decide_eq_true_eq]
        omega
      simp [hcode, hrest]

end CodeRanges

end DynamicObjects
