import DynamicObjects.Proofs.Arguments.Validation

/-!
# Written arguments are read back

Flags are written as words with values, in any order, then the end marker, then the operands. Parsing gives what was
written back as long as no flag is written with a word that is also the name of a real, such as `nan`: what looks like a
negative number is taken for an operand.
-/
namespace DynamicObjects

namespace Numeral

/-- What a name may begin with: a letter, or at least nothing that a number or the end marker goes on with. -/
def Initial (c : Char) : Prop :=
  c ≠ '-' ∧ c ≠ '.' ∧ isDigit c = false

instance : DecidablePred Initial := fun _ => inferInstanceAs (Decidable (_ ∧ _))

/-- The word is the name of a real, in some letter case. -/
def Special (word : String) : Prop :=
  String.ofList (word.toList.map Char.toLower) ∈ specialNames

instance : DecidablePred Special := fun _ => inferInstanceAs (Decidable (_ ∈ specialNames))

theorem isPositional_of_initial {c : Char} {cs : List Char} (initial : Initial c) : isPositional (c :: cs) = false := by
  obtain ⟨-, point, digit⟩ := initial
  unfold isPositional
  simp only [List.takeWhile_cons, List.dropWhile_cons, digit]
  simp [point]

/-- A minus sign before a name makes a real only if the name is one of its own. -/
theorem isReal_minus_iff {word : String} {c : Char} {cs : List Char} (chars : word.toList = c :: cs)
    (initial : Initial c) : isReal ("-" ++ word) = true ↔ Special word := by
  have split : (splitSign ("-" ++ word).toList).2 = word.toList := by simp [splitSign]
  have digits : isPositional word.toList = false := chars ▸ isPositional_of_initial initial
  simp only [isReal, Special, split, digits, Bool.or_false, List.contains_iff_mem]

end Numeral

namespace Parsing

variable {accepts : Check → Value → Bool} {parameters : List Parameter}

/-- A word looks like a flag behind a minus sign unless it is the name of a real. -/
theorem isFlag_word_iff {word : String} {c : Char} {cs : List Char} (chars : word.toList = c :: cs)
    (initial : Numeral.Initial c) : (Value.text ("-" ++ word)).isFlag = true ↔ ¬ Numeral.Special word := by
  rw [← Numeral.isReal_minus_iff chars initial]
  have sign : ("-" ++ word).toList.head? = some '-' := by simp
  have long : 1 < ("-" ++ word).length := by
    rw [← String.length_toList, String.toList_append, chars]
    simp
  simp only [Value.isFlag, sign, long]
  simp

/-! ## What is written -/

/-- Parameters of distinct names, those of flags beginning as names do, and no more than one rest parameter, behind all
positional ones. -/
structure Declared (parameters : List Parameter) : Prop where
  distinct : (parameters.map (·.name)).Nodup
  named : ∀ p ∈ parameters, p.isFlag = true → ∃ c ∈ p.name.toList.head?, Numeral.Initial c
  restLast : ∀ f ∈ parameters.zipIdx, f.1.kind = .rest →
    ∀ g ∈ parameters.zipIdx, g.1.kind = .positional ∨ g.1.kind = .rest → g.2 ≤ f.2

/-- The word is short for a flag: its name, or the beginning of its name and of no other. -/
structure Abbreviates (parameters : List Parameter) (use : FlagUse) (p : Parameter) : Prop where
  nonempty : use.word ≠ ""
  begins : use.word.toList <+: p.name.toList
  only : use.word = p.name ∨ ∀ f ∈ placedFlags parameters, use.word.toList <+: f.1.name.toList → f.2 = use.place

/-- Values for flags, for positional parameters and for what is behind them. -/
structure Writing where
  uses : List FlagUse
  positionals : List Value
  others : List Value

namespace Writing

/-- The arguments: flags, the end marker if there are any to look for, and the operands. -/
def written (parameters : List Parameter) (w : Writing) : List Value :=
  w.uses.flatMap FlagUse.written ++
    ((if parameters.any (·.isFlag) then [.text "--"] else []) ++ (w.positionals ++ w.others))

/-- What is meant for the parameter at a place. -/
def value (parameters : List Parameter) (w : Writing) (i : Nat) (p : Parameter) : Option Value :=
  match p.kind with
  | .positional => w.positionals[(parameters.take i).countP (·.kind == .positional)]?
  | .rest => some (.list w.others)
  | .flag | .switch => (w.uses.find? (·.place == i)).map FlagUse.taken

/-- The parameters with what is meant for them. -/
def means (parameters : List Parameter) (w : Writing) : List (Parameter × Option Value) :=
  parameters.zipIdx.map fun p => (p.1, w.value parameters p.2 p.1)

/-- The writing is one for these parameters: every flag is used once at most, by a word that is short for it and with a
value unless it is a switch; there are values for the first positional parameters, and further ones only if all have one
and a rest parameter is behind them; checks accept the values, and what is required has one. -/
structure For (accepts : Check → Value → Bool) (parameters : List Parameter) (w : Writing) : Prop where
  once : (w.uses.map (·.place)).Nodup
  flags : ∀ use ∈ w.uses, ∃ p ∈ parameters[use.place]?, p.isFlag = true ∧ Abbreviates parameters use p ∧
    (use.value = none ↔ p.kind = .switch)
  positionals : w.positionals.length ≤ parameters.countP (·.kind == .positional)
  others : w.others ≠ [] → w.positionals.length = parameters.countP (·.kind == .positional) ∧
    parameters.any (·.kind == .rest) = true
  accepted : ∀ g ∈ w.means parameters, ∀ value ∈ g.2, ∀ check ∈ g.1.check, accepts check value = true
  complete : ∀ g ∈ w.means parameters, g.2 = none → g.1.required = true → g.1.default = none → g.1.kind = .switch

/-- The reading that is asked for. -/
def reading (parameters : List Parameter) (w : Writing) : Reading :=
  ⟨w.uses, parameters.any (·.isFlag), w.positionals ++ w.others⟩

end Writing

variable {w : Writing} {use : FlagUse} {p : Parameter}

theorem Abbreviates.initial (short : Abbreviates parameters use p) (declared : Declared parameters)
    (member : p ∈ parameters) (flag : p.isFlag = true) :
    ∃ c cs, use.word.toList = c :: cs ∧ Numeral.Initial c := by
  obtain ⟨c, first, initial⟩ := declared.named p member flag
  obtain ⟨cs, chars⟩ := List.head?_eq_some_iff.mp first
  obtain ⟨rest, begins⟩ := short.begins
  cases letters : use.word.toList with
  | nil => exact absurd (String.toList_eq_nil_iff.mp letters) short.nonempty
  | cons d ds =>
    rw [letters, chars, List.cons_append] at begins
    obtain ⟨rfl, -⟩ := List.cons.inj begins
    exact ⟨d, ds, rfl, initial⟩

theorem Abbreviates.denotes (short : Abbreviates parameters use p) (declared : Declared parameters)
    (here : parameters[use.place]? = some p) (flag : p.isFlag = true) : Denotes parameters use.word use.place := by
  rcases short.only with full | only
  · refine .name p here flag full.symm fun j q before there _ named => ?_
    have distinct := declared.distinct
    rw [List.nodup_iff_getElem?_ne_getElem?] at distinct
    refine distinct j use.place before ?_ ?_
    · simpa using (List.getElem?_eq_some_iff.mp here).1
    · simp [here, there, named, full]
  · exact .abbreviation p here flag short.begins fun j q there flag' begun =>
      only (q, j) (mem_placedFlags.mpr ⟨there, flag'⟩) begun

/-! ## Reading it back -/

theorem Writing.For.fits (written : w.For accepts parameters) (declared : Declared parameters)
    (plain : ∀ use ∈ w.uses, ¬ Numeral.Special use.word) : (w.reading parameters).Fits parameters where
  uses use member := by
    obtain ⟨p, here, flag, short, valued⟩ := written.flags use member
    obtain ⟨c, cs, chars, initial⟩ := short.initial declared (List.mem_of_getElem? here) flag
    refine ⟨(isFlag_word_iff chars initial).mpr (plain use member), ?_, short.denotes declared here flag, ?_⟩
    · rintro sign
      rw [sign] at chars
      exact initial.1 (List.cons.inj chars).1.symm
    · intro q there
      obtain rfl : p = q := Option.some.inj (here.symm.trans there)
      exact valued
  marked marked := marked
  ends flagged unmarked := absurd (flagged.symm.trans unmarked) (by simp)

theorem Writing.reading_written (parameters : List Parameter) (w : Writing) :
    (w.reading parameters).written = w.written parameters := rfl

theorem Writing.For.consumed (written : w.For accepts parameters) :
    leftBehind parameters (w.positionals ++ w.others) = [] := by
  unfold leftBehind
  split
  · rfl
  · rename_i rest
    have none : w.others = [] := by
      by_contra some
      exact rest (written.others some).2
    rw [none, List.append_nil]
    exact List.drop_eq_nil_of_le written.positionals

/-- No rest parameter is in front of a positional one or of another. -/
theorem Declared.leftBehind_take (declared : Declared parameters) {i : Nat} (here : parameters[i]? = some p)
    (positional : p.kind = .positional ∨ p.kind = .rest) (operands : List Value) :
    leftBehind (parameters.take i) operands = operands.drop ((parameters.take i).countP (·.kind == .positional)) := by
  refine if_neg fun rest => ?_
  obtain ⟨q, member, kind⟩ := List.any_eq_true.mp rest
  obtain ⟨j, inside, there⟩ := List.getElem_of_mem member
  rw [List.getElem_take] at there
  have before : j < i := lt_of_lt_of_le inside (List.length_take_le _ _)
  have listed : (q, j) ∈ parameters.zipIdx :=
    List.mem_zipIdx_iff_getElem?.mpr (List.getElem?_eq_some_iff.mpr ⟨_, there⟩)
  have behind := declared.restLast (q, j) listed (beq_iff_eq.mp kind) (p, i) (List.mem_zipIdx_iff_getElem?.mpr here)
    positional
  exact absurd before (Nat.not_lt.mpr behind)

theorem countP_take_lt {i : Nat} (here : parameters[i]? = some p) (positional : p.kind = .positional) :
    (parameters.take i).countP (·.kind == .positional) < parameters.countP (·.kind == .positional) := by
  obtain ⟨inside, rfl⟩ := List.getElem?_eq_some_iff.mp here
  have split := List.take_append_drop i parameters
  rw [List.drop_eq_getElem_cons inside] at split
  conv_rhs => rw [← split, List.countP_append, List.countP_cons]
  simp [positional]

/-- All positional parameters are in front of a rest parameter. -/
theorem Declared.countP_take (declared : Declared parameters) {i : Nat} (here : parameters[i]? = some p)
    (rest : p.kind = .rest) :
    (parameters.take i).countP (·.kind == .positional) = parameters.countP (·.kind == .positional) := by
  conv_rhs => rw [← List.take_append_drop i parameters, List.countP_append]
  refine (Nat.add_eq_left.mpr (List.countP_eq_zero.mpr fun q member => ?_)).symm
  intro positional
  rw [beq_iff_eq] at positional
  obtain ⟨k, inside, there⟩ := List.getElem_of_mem member
  rw [List.getElem_drop] at there
  have place : parameters[i + k]? = some q := List.getElem?_eq_some_iff.mpr ⟨_, there⟩
  have before := declared.restLast (p, i) (List.mem_zipIdx_iff_getElem?.mpr here) rest (q, i + k)
    (List.mem_zipIdx_iff_getElem?.mpr place) (.inl positional)
  obtain rfl : k = 0 := Nat.add_eq_left.mp (Nat.le_antisymm before (Nat.le_add_right i k))
  obtain rfl : p = q := Option.some.inj (here.symm.trans place)
  rw [rest] at positional
  cases positional

theorem find?_reverse_of_nodup {uses : List FlagUse} (once : (uses.map (·.place)).Nodup) (i : Nat) :
    uses.reverse.find? (·.place == i) = uses.find? (·.place == i) := by
  induction uses with
  | nil => rfl
  | cons use uses ih =>
    obtain ⟨new, once⟩ := List.nodup_cons.mp once
    rw [List.reverse_cons, List.find?_append, ih once, List.find?_cons]
    by_cases here : use.place = i
    · have others : uses.find? (·.place == i) = none := by
        refine List.find?_eq_none.mpr fun other member same => new ?_
        exact List.mem_map.mpr ⟨other, member, (beq_iff_eq.mp same).trans here.symm⟩
      simp [here, others]
    · have elsewhere : (use.place == i) = false := beq_eq_false_iff_ne.mpr here
      simp [elsewhere]

/-- The reading gives every parameter what was meant for it. -/
theorem Writing.For.value_eq (written : w.For accepts parameters) (declared : Declared parameters) {i : Nat}
    (here : parameters[i]? = some p) : (w.reading parameters).value parameters i p = w.value parameters i p := by
  have others : w.others = [] ∨ w.positionals.length = parameters.countP (·.kind == .positional) :=
    or_iff_not_imp_left.mpr fun some => (written.others some).1
  cases kind : p.kind with
  | positional =>
    have before := countP_take_lt here kind
    simp only [Reading.value, Writing.value, Writing.reading, kind]
    rw [declared.leftBehind_take here (.inl kind), List.head?_drop]
    rcases others with none | full
    · rw [none, List.append_nil]
    · rw [List.getElem?_append_left (by omega)]
  | rest =>
    simp only [Reading.value, Writing.value, Writing.reading, kind]
    rw [declared.leftBehind_take here (.inr kind), declared.countP_take here kind]
    rcases others with none | full
    · rw [none, List.append_nil, List.drop_eq_nil_of_le written.positionals]
    · rw [← full, List.drop_left]
  | flag | switch =>
    simp only [Reading.value, Writing.value, Writing.reading, kind]
    rw [find?_reverse_of_nodup written.once]

theorem Writing.For.gives_eq (written : w.For accepts parameters) (declared : Declared parameters) :
    (w.reading parameters).gives parameters = w.means parameters := by
  refine List.map_congr_left fun q listed => ?_
  rw [written.value_eq declared (List.mem_zipIdx_iff_getElem?.mp listed)]

theorem Writing.For.sound (written : w.For accepts parameters) :
    ∀ g ∈ w.means parameters, ∀ fault, ¬ ValueFault accepts g.1 g.2 fault := by
  rintro ⟨p, v⟩ member fault faulty
  cases faulty with
  | mismatch check value checked refused =>
    rw [written.accepted _ member value rfl check checked] at refused
    cases refused
  | missing required undefaulted valued => exact valued (written.complete _ member rfl required undefaulted)

/-! ## Looking the values up -/

theorem name_mem_of_mem_bindings {given : List (Parameter × Option Value)} {name : String} {value : Value}
    (member : (name, value) ∈ bindings given) : name ∈ given.map (·.1.name) := by
  have names := (map_fst_bindings_sublist given).subset (List.mem_map_of_mem (f := (·.1)) member)
  rwa [List.map_map] at names

theorem get?_bindings {given : List (Parameter × Option Value)} (distinct : (given.map (·.1.name)).Nodup)
    {g : Parameter × Option Value} (member : g ∈ given) :
    Arguments.get? ⟨bindings given⟩ g.1.name = settled g.1 g.2 := by
  induction given with
  | nil => cases member
  | cons first given ih =>
    obtain ⟨new, distinct⟩ := List.nodup_cons.mp distinct
    unfold Arguments.get? bindings at ih ⊢
    rw [List.filterMap_cons]
    rcases List.mem_cons.mp member with rfl | member
    · cases bound : settled g.1 g.2 with
      | some value => simp
      | none =>
        -- No other parameter has the name.
        refine Option.map_eq_none_iff.mpr (List.find?_eq_none.mpr fun binding listed same => new ?_)
        have named := name_mem_of_mem_bindings listed
        rwa [beq_iff_eq.mp same] at named
    · have apart : (first.1.name == g.1.name) = false := by
        rw [beq_eq_false_iff_ne]
        intro same
        have other : g.1.name ∈ given.map (·.1.name) := List.mem_map_of_mem (f := (·.1.name)) member
        rw [← same] at other
        exact new other
      cases bound : settled first.1 first.2 with
      | some value => simpa [apart] using ih distinct member
      | none => simpa using ih distinct member

theorem Writing.map_name_means (parameters : List Parameter) (w : Writing) :
    (w.means parameters).map (·.1.name) = parameters.map (·.name) := by
  conv_rhs => rw [← List.zipIdx_map_fst 0 parameters]
  rw [Writing.means, List.map_map, List.map_map]
  rfl

/-- Flags are told from operands by their words, and where no word is the name of a real, what was written comes back:
every parameter is bound to what was meant for it, or to its default, and nothing else is. -/
theorem parse_written (declared : Declared parameters) (written : w.For accepts parameters) :
    (∀ use ∈ w.uses, (Value.text ("-" ++ use.word)).isFlag = true ↔ ¬ Numeral.Special use.word) ∧
      ((∀ use ∈ w.uses, ¬ Numeral.Special use.word) →
        parse accepts parameters (w.written parameters) = .ok ⟨bindings (w.means parameters)⟩ ∧
          ∀ g ∈ w.means parameters, Arguments.get? ⟨bindings (w.means parameters)⟩ g.1.name = settled g.1 g.2) := by
  refine ⟨fun use member => ?_, fun plain => ⟨?_, fun g member => ?_⟩⟩
  · obtain ⟨p, here, flag, short, -⟩ := written.flags use member
    obtain ⟨c, cs, chars, initial⟩ := short.initial declared (List.mem_of_getElem? here) flag
    exact isFlag_word_iff chars initial
  · have gives := written.gives_eq declared
    rw [← Writing.reading_written, ← gives]
    exact (written.fits declared plain).parse_of_sound written.consumed (gives ▸ written.sound)
  · refine get?_bindings ?_ member
    rw [Writing.map_name_means]
    exact declared.distinct

/-- A level with a check, a switch, a label, a positional parameter and a rest. -/
def labelled : List Parameter :=
  [⟨"level", .flag, false, some (.word 1), some .integer⟩, ⟨"verbose", .switch, false, none, none⟩,
    ⟨"x", .positional, true, none, none⟩, ⟨"label", .flag, false, none, none⟩, ⟨"rest", .rest, false, none, none⟩]

/-- The switch and the label, which looks like a flag, then operands that look like flags. -/
def labelledWriting : Writing where
  uses := [⟨"verb", 1, none⟩, ⟨"la", 3, some (.text "-level")⟩]
  positionals := [.text "-verbose"]
  others := [.text "--", .word 2]

theorem parse_written_labelled :
    parse (World.accepts {}) labelled
      [.text "-verb", .text "-la", .text "-level", .text "--", .text "-verbose", .text "--", .word 2] =
        .ok ⟨[("level", .word 1), ("verbose", .bool true), ("x", .text "-verbose"), ("label", .text "-level"),
          ("rest", .list [.text "--", .word 2])]⟩ := by
  have initials : ∀ p ∈ labelled, p.isFlag = true →
      (p.name.toList.head?.any fun c => decide (Numeral.Initial c)) = true := by
    decide
  have named : ∀ p ∈ labelled, p.isFlag = true → ∃ c ∈ p.name.toList.head?, Numeral.Initial c := by
    intro p member flag
    obtain ⟨c, first, initial⟩ := Option.any_eq_true .. |>.1 (initials p member flag)
    exact ⟨c, first, of_decide_eq_true initial⟩
  have declared : Declared labelled := ⟨by decide, named, by decide⟩
  have written : labelledWriting.For (World.accepts {}) labelled := by
    refine ⟨by decide, fun use member => ?_, by decide, fun _ => by decide, by decide, by decide⟩
    simp only [labelledWriting, List.mem_cons, List.not_mem_nil, or_false] at member
    rcases member with rfl | rfl
    · exact ⟨_, rfl, rfl, ⟨by decide, by decide, .inr (by decide)⟩, by decide⟩
    · exact ⟨_, rfl, rfl, ⟨by decide, by decide, .inr (by decide)⟩, by decide⟩
  exact ((parse_written declared written).2 (by decide)).1

/-- A flag with the name of a real, and an operand. -/
def reals : List Parameter :=
  [⟨"nan", .flag, false, none, none⟩, ⟨"x", .positional, true, none, none⟩]

/-- A flag with the name of a real is taken for an operand where it is written in full as well. -/
theorem not_parse_written_nan :
    ¬ parse (World.accepts {}) reals [.text "-nan", .word 1, .text "--", .text "v"] =
        .ok ⟨[("nan", .word 1), ("x", .text "v")]⟩ := by
  have faulty : FirstFault (World.accepts {}) reals [.text "-nan", .word 1, .text "--", .text "v"]
      (.surplus (Value.word 1).toText) :=
    .surplus ⟨[], false, [.text "-nan", .word 1, .text "--", .text "v"]⟩ ⟨by simp, by simp, by decide⟩ (.word 1)
      [.text "--", .text "v"] rfl
  rw [faulty.parse]
  simp

end Parsing

end DynamicObjects
