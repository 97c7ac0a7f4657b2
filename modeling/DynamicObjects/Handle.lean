import DynamicObjects.Numeral

/-!
# Handles

A handle names one occupation of one heap slot. A slot that is reclaimed and taken again has a new generation, so an
old handle never denotes the newcomer.
-/
namespace DynamicObjects

/-- The slot and the generation it had when the object moved in. -/
structure Handle where
  index : UInt32
  generation : UInt32
  deriving DecidableEq, Repr, Inhabited

namespace Handle

/-- Handles are ordered by slot, then by generation. -/
instance : LT Handle where
  lt a b := a.index < b.index ∨ (a.index = b.index ∧ a.generation < b.generation)

instance : DecidableLT Handle := fun a b =>
  inferInstanceAs (Decidable (a.index < b.index ∨ (a.index = b.index ∧ a.generation < b.generation)))

theorem lt_trans {a b c : Handle} (hab : a < b) (hbc : b < c) : a < c := by
  change a.index < b.index ∨ _ at hab
  change b.index < c.index ∨ _ at hbc
  change a.index < c.index ∨ (a.index = c.index ∧ a.generation < c.generation)
  rcases hab with hab | ⟨hab, gab⟩ <;> rcases hbc with hbc | ⟨hbc, gbc⟩
  · exact .inl (UInt32.lt_trans hab hbc)
  · exact .inl (hbc ▸ hab)
  · exact .inl (hab ▸ hbc)
  · exact .inr ⟨hab.trans hbc, UInt32.lt_trans gab gbc⟩

theorem lt_of_not_lt_of_ne {a b : Handle} (hlt : ¬a < b) (hne : a ≠ b) : b < a := by
  change ¬(a.index < b.index ∨ (a.index = b.index ∧ a.generation < b.generation)) at hlt
  change b.index < a.index ∨ (b.index = a.index ∧ b.generation < a.generation)
  rcases a with ⟨i, g⟩
  rcases b with ⟨j, k⟩
  simp only [ne_eq, mk.injEq, not_and, not_or, UInt32.lt_iff_toNat_lt, ← UInt32.toNat_inj] at *
  omega

/-- A hash sign, the slot, a colon and the generation. -/
def text (h : Handle) : String :=
  "#" ++ toString h.index ++ ":" ++ toString h.generation

/-- Reads a 32-bit number written in digits. -/
def field? (cs : List Char) : Option UInt32 :=
  (Numeral.natural? cs).bind fun n => if n < UInt32.size then some (UInt32.ofNat n) else none

/-- Reads the text of a handle. -/
def ofText? (s : String) : Option Handle :=
  match s.toList with
  | '#' :: rest =>
    match rest.dropWhile (· ≠ ':') with
    | ':' :: generation => do
      return ⟨← field? (rest.takeWhile (· ≠ ':')), ← field? generation⟩
    | _ => none
  | _ => none

end Handle

end DynamicObjects
