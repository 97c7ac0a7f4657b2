import Mathlib.Data.List.TakeWhile
import DynamicObjects.Value

/-!
# Values that are integers

An integer is a word, an integer of any size, or a text that writes one. The readers of texts do not agree: what counts
as an integer may group its digits with underscores, while words and reals are written without. Between words and
integers of any size, the order is that of the numbers, and equality takes the kind into account as well.
-/
namespace DynamicObjects

namespace Numeral

variable {c : Char} {cs : List Char} {s : String} {n : Int} {i : Int64}

theorem fitWord?_eq_some_iff : fitWord? n = some i ↔ n = i.toInt := by
  unfold fitWord?
  split
  · next fits =>
    have low : Int64.minValue.toInt = -2 ^ 63 := by decide
    have high : Int64.maxValue.toInt = 2 ^ 63 - 1 := by decide
    have exact : (Int64.ofInt n).toInt = n := Int64.toInt_ofInt_of_le (by omega) (by omega)
    rw [Option.some.injEq, ← Int64.toInt_inj, exact]
  · next outside =>
    refine iff_of_false nofun ?_
    rintro rfl
    exact outside ⟨i.minValue_le_toInt, i.toInt_le⟩

/-! ## Runs of digits -/

theorem foldlM_digits (cs : List Char) (n : Nat) :
    (cs.foldlM (fun n c => (digit? c).map (10 * n + ·)) n).isSome = cs.all isDigit := by
  induction cs generalizing n with
  | nil => rfl
  | cons c cs ih =>
    rw [List.foldlM_cons, List.all_cons, isDigit]
    cases digit? c with
    | none => rfl
    | some d => exact (ih _).trans (Bool.true_and _).symm

theorem isSome_natural? : (natural? cs).isSome = (!cs.isEmpty && cs.all isDigit) := by
  unfold natural?
  cases cs with
  | nil => rfl
  | cons c cs => exact foldlM_digits _ 0

theorem natural?_eq_none_of_mem (member : c ∈ cs) (other : isDigit c = false) : natural? cs = none := by
  have none : (natural? cs).isSome = false := by
    rw [isSome_natural?, Bool.and_eq_false_iff]
    refine .inr (List.all_eq_false.2 ⟨c, member, ?_⟩)
    simp [other]
  exact Option.not_isSome_iff_eq_none.1 (by simp [none])

/-- Digits without underscores are grouped in one way. -/
theorem grouped?_eq_natural? (plain : '_' ∉ cs) : grouped? cs = natural? cs := by
  unfold grouped?
  split
  · next rest => exact absurd List.mem_cons_self plain
  · have kept : cs.filter (· ≠ '_') = cs := List.filter_eq_self.2 fun c member => by
      simpa using ne_of_mem_of_not_mem member plain
    rw [kept]

theorem magnitude?_eq_natural? (plain : '_' ∉ cs) (unsigned : cs.head? ≠ some '+') : magnitude? cs = natural? cs := by
  unfold magnitude?
  split
  · exact absurd rfl unsigned
  · exact absurd rfl unsigned
  · exact grouped?_eq_natural? plain

theorem magnitude?_plus (plain : '_' ∉ cs) : magnitude? ('+' :: cs) = natural? cs := by
  cases cs with
  | nil => rfl
  | cons c cs =>
    by_cases same : c = '+'
    · subst same
      exact (natural?_eq_none_of_mem List.mem_cons_self (by decide)).symm
    · unfold magnitude?
      split
      · next again => simp [same] at again
      · next rest _ isRest => exact List.tail_eq_of_cons_eq isRest ▸ grouped?_eq_natural? plain
      · next never => exact absurd rfl (never _)

/-! ## Texts without underscores, and with them -/

theorem word?_eq (s : String) : word? s = (natural? (splitSign s.toList).2).bind fun n =>
    fitWord? (if (splitSign s.toList).1 then -(n : Int) else n) := by
  unfold word?
  rcases splitSign s.toList with ⟨negative, digits⟩
  cases negative <;> rfl

/-- A text without underscores is an integer exactly if it is digits behind an optional sign. -/
theorem integer?_of_plain (plain : '_' ∉ s.toList) : integer? s =
    (natural? (splitSign s.toList).2).map fun n : Nat => if (splitSign s.toList).1 then -(n : Int) else n := by
  unfold integer?
  split
  · next rest chars =>
    have none : natural? ('+' :: rest) = none := natural?_eq_none_of_mem List.mem_cons_self (by decide)
    simp [chars, splitSign, none]
  · next rest twice chars =>
    rw [chars] at plain ⊢
    have unsigned : rest.head? ≠ some '+' := fun head => by
      obtain ⟨tail, rfl⟩ := List.head?_eq_some_iff.1 head
      exact twice tail rfl
    rw [magnitude?_eq_natural? (fun member => plain (List.mem_cons_of_mem _ member)) unsigned]
    simp only [splitSign]
    cases natural? rest <;> rfl
  · next positive =>
    unfold splitSign
    split
    · next rest chars => exact absurd chars (positive rest)
    · next rest chars =>
      rw [chars] at plain ⊢
      rw [magnitude?_plus fun member => plain (List.mem_cons_of_mem _ member)]
      cases natural? rest <;> rfl
    · next noMinus noPlus =>
      have unsigned : s.toList.head? ≠ some '+' := fun head => by
        obtain ⟨tail, chars⟩ := List.head?_eq_some_iff.1 head
        exact noPlus tail chars
      rw [magnitude?_eq_natural? plain unsigned]
      cases natural? s.toList <;> rfl

/-- Words are the integers that fit, as long as there are no underscores. -/
theorem word?_of_plain (plain : '_' ∉ s.toList) : word? s = (integer? s).bind fitWord? := by
  rw [integer?_of_plain plain, word?_eq]
  cases natural? (splitSign s.toList).2 <;> rfl

theorem isPositional_of_natural? {n : Nat} (digits : natural? cs = some n) : isPositional cs = true := by
  have written : (!cs.isEmpty && cs.all isDigit) = true := by rw [← isSome_natural?, digits]; rfl
  obtain ⟨nonempty, all⟩ := Bool.and_eq_true_iff.1 written
  have whole : cs.takeWhile isDigit = cs := List.takeWhile_eq_self_iff.2 (List.all_eq_true.1 all)
  have nothing : cs.dropWhile isDigit = [] := List.dropWhile_eq_nil_iff.2 (List.all_eq_true.1 all)
  unfold isPositional
  rw [nothing, whole]
  simpa [isExponent] using nonempty

theorem isReal_of_plain (plain : '_' ∉ s.toList) (integer : integer? s = some n) : isReal s = true := by
  rw [integer?_of_plain plain] at integer
  obtain ⟨m, digits, -⟩ := Option.map_eq_some_iff.1 integer
  rw [isReal, isPositional_of_natural? digits, Bool.or_true]

theorem mem_splitSign (member : c ∈ cs) (sign : c ≠ '-' ∧ c ≠ '+') : c ∈ (splitSign cs).2 := by
  unfold splitSign
  split
  · exact (List.mem_cons.1 member).resolve_left sign.1
  · exact (List.mem_cons.1 member).resolve_left sign.2
  · exact member

theorem word?_of_grouped (grouped : '_' ∈ s.toList) : word? s = none := by
  rw [word?_eq, natural?_eq_none_of_mem (mem_splitSign grouped (by decide)) (by decide)]
  rfl

theorem isExponent_of_grouped (grouped : '_' ∈ cs) : isExponent cs = false := by
  cases cs with
  | nil => cases grouped
  | cons c rest =>
    rcases List.mem_cons.1 grouped with rfl | inside
    · rfl
    · have none := natural?_eq_none_of_mem (mem_splitSign inside (by decide)) (by decide)
      simp [isExponent, none]

theorem isPositional_of_grouped (grouped : '_' ∈ cs) : isPositional cs = false := by
  have behind : ∀ cs : List Char, '_' ∈ cs → '_' ∈ cs.dropWhile isDigit := fun cs member => by
    rw [← List.takeWhile_append_dropWhile (p := isDigit) (l := cs)] at member
    exact (List.mem_append.1 member).resolve_left fun digits => nomatch List.mem_takeWhile_imp digits
  have rest := behind cs grouped
  unfold isPositional
  split
  · next fraction chars =>
    rw [chars] at rest
    have later := behind fraction ((List.mem_cons.1 rest).resolve_left (by decide))
    rw [isExponent_of_grouped later, Bool.and_false]
  · rw [isExponent_of_grouped rest, Bool.and_false]

theorem isReal_of_grouped (grouped : '_' ∈ s.toList) : isReal s = false := by
  have inside := mem_splitSign grouped (by decide)
  rw [isReal, isPositional_of_grouped inside, Bool.or_false, List.contains_eq_mem, decide_eq_false_iff_not]
  intro special
  have lower : '_' ∈ (splitSign s.toList).2.map Char.toLower := List.mem_map.2 ⟨'_', inside, by decide⟩
  have named : ∀ name ∈ specialNames, '_' ∉ name.toList := by decide
  exact named _ special (String.toList_ofList ▸ lower)

end Numeral

namespace Value

/-- The number of a value that is a word or an integer of any size. -/
def whole? : Value → Option Int
  | word i => some i.toInt
  | integer n => some n
  | _ => none

/-- The integer that a value denotes. -/
def denoted? : Value → Option Int
  | text s => Numeral.integer? s
  | v => v.whole?

/-- The value is a text with underscores. -/
def isGrouped : Value → Bool
  | text s => s.toList.contains '_'
  | _ => false

def isWord : Value → Bool
  | word _ => true
  | _ => false

variable {v w : Value} {m n : Int}

theorem isInteger_iff : v.isInteger = true ↔ ∃ n, v.denoted? = some n := by
  cases v with
  | word i => exact iff_of_true rfl ⟨_, rfl⟩
  | integer n => exact iff_of_true rfl ⟨_, rfl⟩
  | text s =>
    rw [isInteger, Bool.or_eq_true, denoted?, ← Option.isSome_iff_exists]
    refine or_iff_right_of_imp fun isWord => ?_
    by_cases grouped : '_' ∈ s.toList
    · rw [Numeral.word?_of_grouped grouped] at isWord
      cases isWord
    · rw [Numeral.word?_of_plain grouped, Option.isSome_bind] at isWord
      exact Option.isSome_of_any isWord
  | _ => exact iff_of_false nofun nofun

theorem asWord?_eq_some_iff {i : Int64} :
    v.asWord? = some i ↔ v.denoted? = some i.toInt ∧ v.isGrouped = false := by
  cases v with
  | word j =>
    have number : (word j).denoted? = some j.toInt := rfl
    rw [asWord?, number, Option.some.injEq, Option.some.injEq, Int64.toInt_inj]
    exact (and_iff_left rfl).symm
  | integer n =>
    have number : (integer n).denoted? = some n := rfl
    rw [asWord?, number, Numeral.fitWord?_eq_some_iff, Option.some.injEq]
    exact (and_iff_left rfl).symm
  | text s =>
    rw [asWord?, denoted?, isGrouped, List.contains_eq_mem, decide_eq_false_iff_not]
    by_cases grouped : '_' ∈ s.toList
    · rw [Numeral.word?_of_grouped grouped]
      exact iff_of_false nofun fun both => both.2 grouped
    · rw [Numeral.word?_of_plain grouped, Option.bind_eq_some_iff, and_iff_left grouped]
      constructor
      · rintro ⟨n, denoted, fits⟩
        rw [denoted, Numeral.fitWord?_eq_some_iff.1 fits]
      · exact fun denoted => ⟨_, denoted, Numeral.fitWord?_eq_some_iff.2 rfl⟩
  | _ => exact iff_of_false nofun fun both => nomatch both.1

theorem isNumber_iff_of_isInteger (integer : v.isInteger = true) : v.isNumber = true ↔ v.isGrouped = false := by
  cases v with
  | word i => exact iff_of_true rfl rfl
  | integer n => exact iff_of_true rfl rfl
  | text s =>
    obtain ⟨n, denoted⟩ := isInteger_iff.1 integer
    rw [isNumber, isGrouped, List.contains_eq_mem, decide_eq_false_iff_not]
    by_cases grouped : '_' ∈ s.toList
    · rw [Numeral.isReal_of_grouped grouped]
      exact iff_of_false nofun fun plain => plain grouped
    · exact iff_of_true (Numeral.isReal_of_plain grouped denoted) grouped
  | _ => cases integer

theorem order?_of_whole? (first : v.whole? = some m) (second : w.whole? = some n) :
    order? v w = some (compare m n) := by
  cases v <;> cases first <;> cases w <;> cases second <;> rfl

theorem same_iff_of_whole? (first : v.whole? = some m) (second : w.whole? = some n) :
    (v == w) = true ↔ m = n ∧ v.isWord = w.isWord := by
  cases v <;> cases first <;> cases w <;> cases second
  case word.refl.word.refl i j =>
    change same (word i) (word j) = true ↔ _
    rw [same, Int64.toInt_inj, and_iff_left (by rfl)]
    exact beq_iff_eq
  case integer.refl.integer.refl =>
    change same (integer m) (integer n) = true ↔ _
    rw [same, and_iff_left (by rfl)]
    exact beq_iff_eq
  all_goals exact iff_of_false nofun fun both => nomatch both.2

theorem same_iff_order? (first : v.whole? = some m) (second : w.whole? = some n) :
    (v == w) = true ↔ order? v w = some .eq ∧ v.isWord = w.isWord := by
  rw [same_iff_of_whole? first second, order?_of_whole? first second, Option.some.injEq, Int.compare_eq_eq]

theorem whole?_ofInt (n : Int) : (ofInt n).whole? = some n := by
  unfold ofInt
  cases fits : Numeral.fitWord? n with
  | none => rfl
  | some i => exact congrArg some (Numeral.fitWord?_eq_some_iff.1 fits).symm

/-- Every integer is denoted by words, by integers of any size and by texts, and read back from all but texts with
underscores, which are integers and no numbers. Words and integers of any size are ordered by number; they are equal if
they are of one kind besides, as those are that integers are turned into. -/
theorem readsIntegers (v w : Value) :
    (v.isInteger = true ↔ ∃ n, v.denoted? = some n) ∧
      (v.isInteger = true → (v.isNumber = true ↔ v.isGrouped = false)) ∧
      (∀ i, v.asWord? = some i ↔ v.denoted? = some i.toInt ∧ v.isGrouped = false) ∧
      (∀ m n, v.whole? = some m → w.whole? = some n → order? v w = some (compare m n) ∧
        ((v == w) = true ↔ order? v w = some .eq ∧ v.isWord = w.isWord)) ∧
      ∀ m n, (ofInt m == ofInt n) = true ↔ order? (ofInt m) (ofInt n) = some .eq := by
  refine ⟨isInteger_iff, isNumber_iff_of_isInteger, fun _ => asWord?_eq_some_iff, fun m n first second =>
    ⟨order?_of_whole? first second, same_iff_order? first second⟩, fun m n => ?_⟩
  rw [same_iff_of_whole? (whole?_ofInt m) (whole?_ofInt n), order?_of_whole? (whole?_ofInt m) (whole?_ofInt n),
    Option.some.injEq, Int.compare_eq_eq]
  exact and_iff_left_of_imp fun same => by rw [same]

theorem readsIntegers_mixed :
    (word 5).isNumber = true ∧ (word 5).asWord? = some 5 ∧
      order? (word 5) (integer 9223372036854775808) = some .lt ∧ (word 5 == integer 9223372036854775808) = false := by
  obtain ⟨-, number, reads, compares, -⟩ := readsIntegers (word 5) (integer 9223372036854775808)
  obtain ⟨ordered, same⟩ := compares 5 9223372036854775808 rfl rfl
  refine ⟨(number rfl).2 rfl, (reads 5).2 ⟨rfl, rfl⟩, ordered.trans (by decide), ?_⟩
  exact Bool.eq_false_iff.2 fun equal => nomatch (same.1 equal).2

/-- A text with underscores is an integer, no number, and not read as the word that it denotes; and two values of one
number that are not equal. -/
theorem not_number_of_grouped :
    ((text "1_000").isInteger = true ∧ (text "1_000").denoted? = some 1000 ∧ (text "1_000").isNumber = false ∧
      (text "1_000").asWord? = none) ∧
      order? (word 5) (integer 5) = some .eq ∧ (word 5 == integer 5) = false := by
  decide

end Value

end DynamicObjects
