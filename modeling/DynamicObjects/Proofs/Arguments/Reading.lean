import DynamicObjects.Method.Arguments
import Mathlib.Data.List.Sigma

/-!
# How flags and operands are told apart

Arguments read as uses of flags, then an end marker, if any, then operands. What a flag word denotes, and what is wrong
with the first one that cannot be used, is said without reference to the search that finds it; every list of arguments
is read in exactly one of these ways.
-/
namespace DynamicObjects.Parsing

variable {parameters : List Parameter} {word : String} {i : Nat}

/-! ## What a flag word denotes -/

/-- A word stands for a flag parameter that has it for its name and is the first to have it, or that is the only one
whose name begins with it. -/
inductive Denotes (parameters : List Parameter) (word : String) (i : Nat) : Prop where
  | name (p : Parameter) (here : parameters[i]? = some p) (flag : p.isFlag = true) (named : p.name = word)
      (first : ∀ (j : Nat) (q : Parameter), j < i → parameters[j]? = some q → q.isFlag = true → q.name ≠ word)
  | abbreviation (p : Parameter) (here : parameters[i]? = some p) (flag : p.isFlag = true)
      (begun : word.toList <+: p.name.toList)
      (only : ∀ (j : Nat) (q : Parameter), parameters[j]? = some q → q.isFlag = true →
        word.toList <+: q.name.toList → j = i)

theorem Denotes.flag (denotes : Denotes parameters word i) : ∃ p, parameters[i]? = some p ∧ p.isFlag = true := by
  cases denotes with
  | name p here flag => exact ⟨p, here, flag⟩
  | abbreviation p here flag => exact ⟨p, here, flag⟩

/-- The flag parameters whose names begin with a word. -/
def begunWith (parameters : List Parameter) (word : String) : List Parameter :=
  parameters.filter fun p => p.isFlag && word.toList.isPrefixOf p.name.toList

/-- The flag parameters with their places. -/
def placedFlags (parameters : List Parameter) : List (Parameter × Nat) :=
  parameters.zipIdx.filter (·.1.isFlag)

theorem mem_placedFlags {f : Parameter × Nat} :
    f ∈ placedFlags parameters ↔ parameters[f.2]? = some f.1 ∧ f.1.isFlag = true := by
  rw [placedFlags, List.mem_filter, List.mem_zipIdx_iff_getElem?]

theorem map_filter_zipIdx (parameters : List Parameter) (keep : Parameter → Bool) :
    (parameters.zipIdx.filter fun f => keep f.1).map (·.1) = parameters.filter keep := by
  have := List.filter_map (f := Prod.fst) (p := keep) (l := parameters.zipIdx)
  rw [List.zipIdx_map_fst] at this
  exact this.symm

theorem nodup_placedFlags (parameters : List Parameter) : (placedFlags parameters).Nodup :=
  (List.Nodup.of_map _ (List.nodup_zipIdx_map_snd parameters)).filter _

/-- Why a flag word stands for no parameter: no name begins with it, or several do and none is it. -/
inductive Unmatched (parameters : List Parameter) (word : String) : ArgumentFault → Prop where
  | unknown (none : begunWith parameters word = []) :
      Unmatched parameters word
        (.unknownFlag ("-" ++ word) (", ".intercalate ((parameters.filter (·.isFlag)).map flagText)))
  | ambiguous (unnamed : ∀ p ∈ parameters, p.isFlag = true → p.name ≠ word)
      (several : 2 ≤ (begunWith parameters word).length) :
      Unmatched parameters word
        (.ambiguousFlag ("-" ++ word) (" and ".intercalate ((begunWith parameters word).map flagText)))

theorem Denotes.unique {j : Nat} (denotes : Denotes parameters word i) (other : Denotes parameters word j) : i = j := by
  cases denotes with
  | name p here flag named first =>
    cases other with
    | name q there flag' named' first' =>
      by_contra apart
      rcases Nat.lt_or_gt_of_ne apart with before | after
      · exact first' i p before here flag named
      · exact first j q after there flag' named'
    | abbreviation q there flag' begun only => exact only i p here flag (named ▸ List.prefix_refl _)
  | abbreviation p here flag begun only =>
    cases other with
    | name q there flag' named => exact (only j q there flag' (named ▸ List.prefix_refl _)).symm
    | abbreviation q there flag' begun' => exact (only j q there flag' begun').symm

theorem begunWith_eq (parameters : List Parameter) (word : String) :
    begunWith parameters word =
      ((placedFlags parameters).filter fun f => word.toList.isPrefixOf f.1.name.toList).map (·.1) := by
  rw [placedFlags, List.filter_filter, begunWith, ← map_filter_zipIdx]
  simp only [Bool.and_comm]

theorem Denotes.not_unmatched {fault : ArgumentFault} (denotes : Denotes parameters word i) :
    ¬ Unmatched parameters word fault := by
  intro unmatched
  obtain ⟨p, here, flag, begun⟩ :
      ∃ p, parameters[i]? = some p ∧ p.isFlag = true ∧ word.toList <+: p.name.toList := by
    cases denotes with
    | name p here flag named => exact ⟨p, here, flag, named ▸ List.prefix_refl _⟩
    | abbreviation p here flag begun => exact ⟨p, here, flag, begun⟩
  have listed : p ∈ begunWith parameters word :=
    List.mem_filter.mpr ⟨List.mem_of_getElem? here, by simp [flag, begun]⟩
  cases unmatched with
  | unknown none => exact List.not_mem_nil (none ▸ listed)
  | ambiguous unnamed several =>
    cases denotes with
    | name q there flag' named => exact unnamed q (List.mem_of_getElem? there) flag' named
    | abbreviation q there flag' begun' only =>
      -- All that is listed stands at the same place, where nothing is listed twice.
      rw [begunWith_eq, List.length_map] at several
      have nodup := (nodup_placedFlags parameters).filter fun f => word.toList.isPrefixOf f.1.name.toList
      generalize listing : (placedFlags parameters).filter
        (fun f => word.toList.isPrefixOf f.1.name.toList) = places at several nodup
      match places, several, nodup with
      | f :: g :: rest, _, nodup =>
        have same : ∀ e ∈ f :: g :: rest, parameters[i]? = some e.1 ∧ e.2 = i := by
          intro e member
          rw [← listing, List.mem_filter, mem_placedFlags] at member
          have place := only e.2 e.1 member.1.1 member.1.2 (List.isPrefixOf_iff_prefix.mp member.2)
          exact ⟨place ▸ member.1.1, place⟩
        have first := same f (by simp)
        have second := same g (by simp)
        have equal : f = g :=
          Prod.ext (Option.some.inj (first.1.symm.trans second.1)) (first.2.trans second.2.symm)
        simp [equal] at nodup

/-- The search for a flag finds the parameter that the word denotes, or says why there is none. -/
theorem matchFlag_sound (parameters : List Parameter) (word : String) :
    (∃ i, matchFlag parameters ("-" ++ word) = .ok i ∧ Denotes parameters word i) ∨
      ∃ fault, matchFlag parameters ("-" ++ word) = .error fault ∧ Unmatched parameters word fault := by
  have dropped : ("-" ++ word).toList.drop 1 = word.toList := by simp
  cases found : (placedFlags parameters).find? fun f => f.1.name.toList == word.toList with
  | some f =>
    obtain ⟨here, flag⟩ := mem_placedFlags.mp (List.mem_of_find?_eq_some found)
    have named : f.1.name.toList = word.toList := by simpa using List.find?_some found
    refine .inl ⟨f.2, ?_, .name f.1 here flag (String.toList_inj.mp named) ?_⟩
    · rw [placedFlags] at found
      simp only [matchFlag, dropped, found]
    · intro j q earlier there flag' named'
      rw [placedFlags, List.find?_filter] at found
      obtain ⟨-, k, inside, entry, before⟩ := List.find?_eq_some_iff_getElem.mp found
      obtain rfl : k = f.2 := by rw [← entry, List.getElem_zipIdx, Nat.zero_add]
      obtain ⟨within, rfl⟩ := List.getElem?_eq_some_iff.mp there
      simpa [flag', named'] using before j earlier
  | none =>
    have unnamed : ∀ p ∈ parameters, p.isFlag = true → p.name ≠ word := by
      intro p member flag named
      obtain ⟨i, inside, rfl⟩ := List.getElem_of_mem member
      have listed : (parameters[i], i) ∈ placedFlags parameters :=
        mem_placedFlags.mpr ⟨List.getElem?_eq_getElem inside, flag⟩
      simpa [named] using List.find?_eq_none.mp found _ listed
    rw [placedFlags] at found
    have begun := begunWith_eq parameters word
    cases places : (placedFlags parameters).filter fun f => word.toList.isPrefixOf f.1.name.toList with
    | nil =>
      refine .inr ⟨_, ?_, .unknown (by rw [begun, places]; rfl)⟩
      rw [placedFlags] at places
      simp only [matchFlag, dropped, found, places]
      rw [← map_filter_zipIdx, List.map_map]
      rfl
    | cons f rest =>
      have member : ∀ e, e ∈ f :: rest ↔
          (parameters[e.2]? = some e.1 ∧ e.1.isFlag = true) ∧ word.toList <+: e.1.name.toList := by
        intro e
        rw [← places, List.mem_filter, mem_placedFlags, List.isPrefixOf_iff_prefix]
      cases rest with
      | nil =>
        obtain ⟨⟨here, flag⟩, prefixed⟩ := (member f).mp (List.mem_singleton_self f)
        refine .inl ⟨f.2, ?_, .abbreviation f.1 here flag prefixed ?_⟩
        · rw [placedFlags] at places
          simp only [matchFlag, dropped, found, places]
        · intro j q there flag' begun'
          have same := (member (q, j)).mpr ⟨⟨there, flag'⟩, begun'⟩
          rw [List.mem_singleton] at same
          exact congrArg Prod.snd same
      | cons g rest =>
        refine .inr ⟨_, ?_, .ambiguous unnamed (by rw [begun, places]; simp)⟩
        rw [begun, places, List.map_map]
        rw [placedFlags] at places
        simp only [matchFlag, dropped, found, places]
        rfl

theorem matchFlag_eq_ok_iff : matchFlag parameters ("-" ++ word) = .ok i ↔ Denotes parameters word i := by
  rcases matchFlag_sound parameters word with ⟨j, found, denotes⟩ | ⟨fault, refused, unmatched⟩
  · rw [found]
    constructor
    · rintro ⟨⟩
      exact denotes
    · intro denotes'
      rw [denotes.unique denotes']
  · rw [refused]
    constructor
    · rintro ⟨⟩
    · intro denotes
      exact absurd unmatched denotes.not_unmatched

theorem matchFlag_eq_error_iff {fault : ArgumentFault} :
    matchFlag parameters ("-" ++ word) = .error fault ↔ Unmatched parameters word fault := by
  rcases matchFlag_sound parameters word with ⟨j, found, denotes⟩ | ⟨fault', refused, unmatched⟩
  · rw [found]
    constructor
    · rintro ⟨⟩
    · intro unmatched
      exact absurd unmatched denotes.not_unmatched
  · rw [refused]
    constructor
    · rintro ⟨⟩
      exact unmatched
    · intro unmatched'
      congr 1
      cases unmatched with
      | unknown none =>
        cases unmatched' with
        | unknown => rfl
        | ambiguous unnamed several => simp [none] at several
      | ambiguous unnamed several =>
        cases unmatched' with
        | unknown none => simp [none] at several
        | ambiguous => rfl

/-! ## Uses of flags -/

/-- A use of a flag among the arguments: its word without the minus sign, the place of the parameter it stands for, and
the value behind it, which a switch does not have. -/
structure FlagUse where
  word : String
  place : Nat
  value : Option Value

namespace FlagUse

def written (use : FlagUse) : List Value :=
  .text ("-" ++ use.word) :: use.value.toList

/-- What the parameter is given. -/
def taken (use : FlagUse) : Value :=
  use.value.getD (.bool true)

/-- The use is one that the parameters provide for. -/
structure Fits (parameters : List Parameter) (use : FlagUse) : Prop where
  /-- The argument looks like a flag. -/
  looks : (Value.text ("-" ++ use.word)).isFlag = true
  /-- It is not the end marker. -/
  goesOn : use.word ≠ "-"
  denotes : Denotes parameters use.word use.place
  /-- A value stands behind it unless it is a switch. -/
  valued : ∀ p, parameters[use.place]? = some p → (use.value = none ↔ p.kind = .switch)

end FlagUse

/-- Arguments taken apart: uses of flags, an end marker or none, and the operands behind it. -/
structure Reading where
  uses : List FlagUse
  marked : Bool
  operands : List Value

namespace Reading

def written (r : Reading) : List Value :=
  r.uses.flatMap FlagUse.written ++ ((if r.marked then [.text "--"] else []) ++ r.operands)

/-- The reading is the one the parameters ask for: flags are looked for if there are any, until the end marker or the
first argument that does not look like one. -/
structure Fits (parameters : List Parameter) (r : Reading) : Prop where
  uses : ∀ use ∈ r.uses, use.Fits parameters
  marked : r.marked = true → parameters.any (·.isFlag) = true
  ends : parameters.any (·.isFlag) = true → r.marked = false → ∀ arg ∈ r.operands.head?, arg.isFlag = false

end Reading

/-- The first flag word that is of no use stands for no parameter, or lacks its value. -/
inductive FlagFault (parameters : List Parameter) : List Value → ArgumentFault → Prop where
  | unmatched {fault : ArgumentFault} (uses : List FlagUse) (word : String) (rest : List Value)
      (before : ∀ use ∈ uses, use.Fits parameters) (looks : (Value.text ("-" ++ word)).isFlag = true)
      (goesOn : word ≠ "-") (unmatched : Unmatched parameters word fault) :
      FlagFault parameters (uses.flatMap FlagUse.written ++ .text ("-" ++ word) :: rest) fault
  | valueless (uses : List FlagUse) (word : String) (i : Nat) (p : Parameter)
      (before : ∀ use ∈ uses, use.Fits parameters) (looks : (Value.text ("-" ++ word)).isFlag = true)
      (goesOn : word ≠ "-") (denotes : Denotes parameters word i) (here : parameters[i]? = some p)
      (valued : p.kind ≠ .switch) :
      FlagFault parameters (uses.flatMap FlagUse.written ++ [.text ("-" ++ word)]) (.missingValue p.name)

theorem FlagFault.later {args : List Value} {fault : ArgumentFault} {use : FlagUse}
    (faulty : FlagFault parameters args fault) (fits : use.Fits parameters) :
    FlagFault parameters (use.written ++ args) fault := by
  cases faulty with
  | unmatched uses word rest before looks goesOn unmatched =>
    have := FlagFault.unmatched (use :: uses) word rest (List.forall_mem_cons.mpr ⟨fits, before⟩) looks goesOn unmatched
    rwa [List.flatMap_cons, List.append_assoc] at this
  | valueless uses word i p before looks goesOn denotes here valued =>
    have := FlagFault.valueless (use :: uses) word i p (List.forall_mem_cons.mpr ⟨fits, before⟩) looks goesOn denotes
      here valued
    rwa [List.flatMap_cons, List.append_assoc] at this

theorem Reading.Fits.later {r : Reading} {use : FlagUse} (reads : r.Fits parameters) (fits : use.Fits parameters) :
    Reading.Fits parameters { r with uses := use :: r.uses } :=
  ⟨List.forall_mem_cons.mpr ⟨fits, reads.uses⟩, reads.marked, reads.ends⟩

theorem Reading.written_later (r : Reading) (use : FlagUse) :
    Reading.written { r with uses := use :: r.uses } = use.written ++ r.written := by
  simp only [Reading.written, List.flatMap_cons, List.append_assoc]

/-- What looks like a flag is a minus sign and a word. -/
theorem exists_word_of_isFlag {arg : Value} (looks : arg.isFlag = true) :
    ∃ word, arg = .text ("-" ++ word) := by
  cases arg with
  | text s =>
    simp only [Value.isFlag, Bool.and_eq_true, beq_iff_eq] at looks
    obtain ⟨⟨sign, -⟩, -⟩ := looks
    obtain ⟨cs, chars⟩ := List.head?_eq_some_iff.mp sign
    refine ⟨String.ofList cs, congrArg Value.text (String.toList_inj.mp ?_)⟩
    simp [chars]
  | _ => simp [Value.isFlag] at looks

/-- Where there are flags to look for, arguments can be read up to the end, or up to a flag word that is of no use. -/
theorem reads_or_faulty (flagged : parameters.any (·.isFlag) = true) (args : List Value) :
    (∃ r : Reading, r.Fits parameters ∧ r.written = args) ∨ ∃ fault, FlagFault parameters args fault := by
  induction size : args.length using Nat.strong_induction_on generalizing args with
  | _ n ih =>
    subst size
    match args with
    | [] => exact .inl ⟨⟨[], false, []⟩, ⟨by simp, by simp, by simp⟩, rfl⟩
    | arg :: rest =>
      by_cases looks : arg.isFlag = true
      · obtain ⟨word, rfl⟩ := exists_word_of_isFlag looks
        by_cases goesOn : word = "-"
        · subst goesOn
          exact .inl ⟨⟨[], true, rest⟩, ⟨by simp, fun _ => flagged, by simp⟩, rfl⟩
        · rcases matchFlag_sound parameters word with ⟨i, -, denotes⟩ | ⟨fault, -, unmatched⟩
          · obtain ⟨p, here, -⟩ := denotes.flag
            -- One use of the flag is read, and what is behind it is shorter.
            have step (use : FlagUse) (fits : use.Fits parameters) (left : List Value)
                (shorter : left.length < (Value.text ("-" ++ word) :: rest).length)
                (starts : use.written ++ left = .text ("-" ++ word) :: rest) :
                (∃ r : Reading, r.Fits parameters ∧ r.written = .text ("-" ++ word) :: rest) ∨
                  ∃ fault, FlagFault parameters (.text ("-" ++ word) :: rest) fault := by
              rw [← starts]
              rcases ih _ shorter left rfl with ⟨r, reads, rfl⟩ | ⟨fault, faulty⟩
              · exact .inl ⟨_, reads.later fits, r.written_later use⟩
              · exact .inr ⟨fault, faulty.later fits⟩
            by_cases switch : p.kind = .switch
            · refine step ⟨word, i, none⟩ ⟨looks, goesOn, denotes, fun q there => ?_⟩ rest (by simp) rfl
              obtain rfl : p = q := Option.some.inj (here.symm.trans there)
              simp [switch]
            · match rest with
              | [] => exact .inr ⟨_, .valueless [] word i p (by simp) looks goesOn denotes here switch⟩
              | value :: rest =>
                have shorter : rest.length < (Value.text ("-" ++ word) :: value :: rest).length :=
                  Nat.lt_trans (Nat.lt_succ_self _) (Nat.lt_succ_self _)
                refine step ⟨word, i, some value⟩ ⟨looks, goesOn, denotes, fun q there => ?_⟩ rest shorter rfl
                obtain rfl : p = q := Option.some.inj (here.symm.trans there)
                simp [switch]
          · exact .inr ⟨fault, .unmatched [] word rest (by simp) looks goesOn unmatched⟩
      · exact .inl ⟨⟨[], false, arg :: rest⟩, ⟨by simp, by simp, fun _ _ => by simpa using looks⟩, rfl⟩

/-! ## Reading them in turn -/

/-- The values of the parameters after some uses of flags: a later one overrides an earlier one. -/
def take (given : List (Option Value)) (uses : List FlagUse) : List (Option Value) :=
  uses.foldl (fun given use => given.set use.place (some use.taken)) given

theorem readFlags_word (looks : (Value.text ("-" ++ word)).isFlag = true) (goesOn : word ≠ "-")
    (given : List (Option Value)) (rest : List Value) :
    readFlags parameters given (.text ("-" ++ word) :: rest) =
      match matchFlag parameters ("-" ++ word) with
      | .error fault => .error fault
      | .ok i =>
        if parameters[i]?.any (·.kind == .switch) then readFlags parameters (given.set i (some (.bool true))) rest
        else
          match rest with
          | value :: rest => readFlags parameters (given.set i (some value)) rest
          | [] => .error (.missingValue ((parameters[i]?.map (·.name)).getD "")) := by
  have marker : (some ("-" ++ word) == some "--") = false := by
    simpa [String.ext_iff] using goesOn
  rw [readFlags]
  simp only [Value.asText?, marker, looks, Value.toText]
  rfl

theorem readFlags_use {use : FlagUse} (fits : use.Fits parameters) (given : List (Option Value)) (rest : List Value) :
    readFlags parameters given (use.written ++ rest) =
      readFlags parameters (given.set use.place (some use.taken)) rest := by
  obtain ⟨p, here, -⟩ := fits.denotes.flag
  have valued := fits.valued p here
  obtain ⟨word, i, value⟩ := use
  have read := fun rest => @readFlags_word parameters word fits.looks fits.goesOn given rest
  simp only [matchFlag_eq_ok_iff.mpr fits.denotes, here, Option.any_some] at read
  cases value with
  | none =>
    have switch : p.kind = .switch := valued.mp rfl
    exact (read rest).trans (if_pos (by simp [switch]))
  | some value =>
    have kind : ¬ (p.kind == .switch) = true := by simpa using valued
    exact (read (value :: rest)).trans (if_neg kind)

theorem readFlags_uses {uses : List FlagUse} (fit : ∀ use ∈ uses, use.Fits parameters) (given : List (Option Value))
    (rest : List Value) :
    readFlags parameters given (uses.flatMap FlagUse.written ++ rest) = readFlags parameters (take given uses) rest := by
  induction uses generalizing given with
  | nil => rfl
  | cons use uses ih =>
    obtain ⟨fits, fit⟩ := List.forall_mem_cons.mp fit
    rw [List.flatMap_cons, List.append_assoc, readFlags_use fits, ih fit]
    rfl

theorem readFlags_stop (given : List (Option Value)) (rest : List Value) :
    readFlags parameters given (.text "--" :: rest) = .ok (given, rest) := by
  rw [readFlags]
  rfl

theorem readFlags_operands {operands : List Value} (ends : ∀ arg ∈ operands.head?, arg.isFlag = false)
    (given : List (Option Value)) : readFlags parameters given operands = .ok (given, operands) := by
  cases operands with
  | nil => rw [readFlags]
  | cons arg rest =>
    have plain : arg.isFlag = false := ends arg rfl
    have marker : (arg.asText? == some "--") = false := by
      rw [beq_eq_false_iff_ne]
      intro marked
      cases arg with
      | text s =>
        cases marked
        exact absurd plain (by decide)
      | _ => cases marked
    rw [readFlags, marker, plain]
    rfl

/-- Arguments that read well are read so. -/
theorem Reading.Fits.readFlags {r : Reading} (reads : r.Fits parameters) (flagged : parameters.any (·.isFlag) = true)
    (given : List (Option Value)) :
    readFlags parameters given r.written = .ok (take given r.uses, r.operands) := by
  rw [Reading.written, readFlags_uses reads.uses]
  cases marked : r.marked with
  | true => exact readFlags_stop _ _
  | false => exact readFlags_operands (reads.ends flagged marked) _

/-- A flag word of no use is complained about. -/
theorem FlagFault.readFlags {args : List Value} {fault : ArgumentFault} (faulty : FlagFault parameters args fault)
    (given : List (Option Value)) : readFlags parameters given args = .error fault := by
  cases faulty with
  | unmatched uses word rest before looks goesOn unmatched =>
    rw [readFlags_uses before, readFlags_word looks goesOn, matchFlag_eq_error_iff.mpr unmatched]
  | valueless uses word i p before looks goesOn denotes here valued =>
    rw [readFlags_uses before, readFlags_word looks goesOn, matchFlag_eq_ok_iff.mpr denotes]
    simp [here, valued]

/-! ## What each parameter is given -/

/-- What is left of the operands behind some parameters: positional ones take one each, a rest parameter takes all. -/
def leftBehind (parameters : List Parameter) (operands : List Value) : List Value :=
  if parameters.any (·.kind == .rest) then [] else operands.drop (parameters.countP (·.kind == .positional))

@[simp] theorem leftBehind_nil (operands : List Value) : leftBehind [] operands = operands := rfl

theorem leftBehind_cons (p : Parameter) (parameters : List Parameter) (operands : List Value) :
    leftBehind (p :: parameters) operands = leftBehind parameters (leftBehind [p] operands) := by
  unfold leftBehind
  cases kind : p.kind <;> simp [kind, Nat.add_comm]

/-- What a reading gives the parameter at a place: the last use of the flag counts, a positional parameter takes the
next operand, a rest parameter all that are left. -/
def Reading.value (parameters : List Parameter) (r : Reading) (i : Nat) (p : Parameter) : Option Value :=
  match p.kind with
  | .positional => (leftBehind (parameters.take i) r.operands).head?
  | .rest => some (.list (leftBehind (parameters.take i) r.operands))
  | .flag | .switch => (r.uses.reverse.find? (·.place == i)).map FlagUse.taken

/-- What a reading gives the parameters, in declared order. -/
def Reading.values (parameters : List Parameter) (r : Reading) : List (Option Value) :=
  parameters.zipIdx.map fun p => r.value parameters p.2 p.1

theorem length_take (given : List (Option Value)) (uses : List FlagUse) : (take given uses).length = given.length := by
  induction uses generalizing given with
  | nil => rfl
  | cons use uses ih => exact (ih _).trans (List.length_set ..)

theorem getElem?_take {given : List (Option Value)} (inside : i < given.length) (uses : List FlagUse) :
    (take given uses)[i]? =
      ((uses.reverse.find? (·.place == i)).map fun use => some use.taken).or given[i]? := by
  induction uses generalizing given with
  | nil => rfl
  | cons use uses ih =>
    rw [List.reverse_cons, List.find?_append]
    change (take (given.set use.place (some use.taken)) uses)[i]? = _
    rw [ih (by simpa using inside), List.getElem?_set]
    by_cases here : use.place = i
    · subst here
      cases uses.reverse.find? (·.place == use.place) <;> simp [inside]
    · cases uses.reverse.find? (·.place == i) <;> simp [here]

/-- The value of a parameter once the operands in front of it are gone. -/
def positionValue (p : Parameter) (operands : List Value) (value : Option Value) : Option Value :=
  match p.kind with
  | .positional => operands.head?.or value
  | .rest => some (.list operands)
  | .flag | .switch => value

theorem readPositions_cons (p : Parameter) (parameters : List Parameter) (value : Option Value)
    (given : List (Option Value)) (operands : List Value) :
    readPositions (p :: parameters) (value :: given) operands =
      (positionValue p operands value :: (readPositions parameters given (leftBehind [p] operands)).1,
        (readPositions parameters given (leftBehind [p] operands)).2) := by
  cases kind : p.kind <;> cases operands <;> simp [readPositions, positionValue, leftBehind, kind]

theorem readPositions_eq (given : List (Option Value)) (operands : List Value)
    (same : given.length = parameters.length) :
    readPositions parameters given operands =
      (parameters.zipIdx.map fun p => positionValue p.1 (leftBehind (parameters.take p.2) operands) (given[p.2]?.join),
        leftBehind parameters operands) := by
  induction parameters generalizing given operands with
  | nil =>
    rw [List.eq_nil_of_length_eq_zero same]
    rfl
  | cons p parameters ih =>
    match given, same with
    | value :: given, same =>
      rw [readPositions_cons, ih given _ (by simpa using same), leftBehind_cons p parameters, List.zipIdx_cons,
        List.map_cons, List.zipIdx_succ, List.map_map]
      simp only [List.take_zero, leftBehind_nil, List.getElem?_cons_zero, Option.join_some]
      congr 2
      refine List.map_congr_left fun q _ => ?_
      simp only [Function.comp_apply, List.take_succ_cons, List.getElem?_cons_succ]
      rw [leftBehind_cons p (parameters.take q.2)]

theorem Reading.Fits.readPositions {r : Reading} (reads : r.Fits parameters) :
    readPositions parameters (take (parameters.map fun _ => none) r.uses) r.operands =
      (r.values parameters, leftBehind parameters r.operands) := by
  rw [readPositions_eq _ _ (by rw [length_take, List.length_map]), Reading.values]
  congr 1
  refine List.map_congr_left fun q listed => ?_
  obtain ⟨p, i⟩ := q
  rw [List.mem_zipIdx_iff_getElem?] at listed
  have inside : i < parameters.length := (List.getElem?_eq_some_iff.mp listed).1
  have taken := @getElem?_take i (parameters.map fun _ => none) (by simpa using inside) r.uses
  -- No use of a flag stands for a parameter that is none.
  have untaken (positional : p.isFlag = false) : r.uses.reverse.find? (·.place == i) = none := by
    refine List.find?_eq_none.mpr fun use member place => ?_
    obtain ⟨q, there, flag⟩ := (reads.uses use (List.mem_reverse.mp member)).denotes.flag
    rw [beq_iff_eq.mp place] at there
    obtain rfl : p = q := Option.some.inj (listed.symm.trans there)
    rw [positional] at flag
    cases flag
  cases kind : p.kind with
  | rest => simp only [positionValue, Reading.value, kind]
  | positional =>
    have nothing : (take (parameters.map fun _ => none) r.uses)[i]?.join = none := by
      rw [taken, untaken (by simp [ParameterOf.isFlag, kind])]
      simp [inside]
    simp only [positionValue, Reading.value, kind, nothing, Option.or_none]
  | flag | switch =>
    simp only [positionValue, Reading.value, kind]
    rw [taken]
    cases r.uses.reverse.find? (·.place == i) <;> simp [inside]

end DynamicObjects.Parsing
