import DynamicObjects.Invocation.Host
import DynamicObjects.Proofs.Arguments.Reading

/-!
# What parsed arguments are known to be

Parsing binds the values that a reading of the arguments gives the parameters, and defaults where it gives none. Given
values are held against the checks of their parameters; defaults are taken as they are. Where parsing fails, it names
the first of all faults in the order of the three passes.
-/
namespace DynamicObjects.Parsing

variable {accepts : Check → Value → Bool} {parameters : List Parameter} {args : List Value} {r : Reading}
  {fault : ArgumentFault}

/-! ## A single parameter -/

/-- A parameter is given a value that its check refuses, or needs a value and is given none. -/
inductive ValueFault (accepts : Check → Value → Bool) (p : Parameter) : Option Value → ArgumentFault → Prop where
  | mismatch (check : Check) (value : Value) (checked : p.check = some check) (refused : accepts check value = false) :
      ValueFault accepts p (some value) (.mismatch p.name check.description value.toText)
  | missing (required : p.required = true) (undefaulted : p.default = none) (valued : p.kind ≠ .switch) :
      ValueFault accepts p none (.missing p.name)

/-- What a parameter is bound to: the value it is given, or else its default; a switch with neither is off. -/
def settled (p : Parameter) (given : Option Value) : Option Value :=
  given.or (p.default.or (if p.kind = .switch then some (.bool false) else none))

theorem ValueFault.bind {p : Parameter} {given : Option Value} (faulty : ValueFault accepts p given fault) :
    bind accepts p given = .error fault := by
  cases faulty with
  | mismatch check value checked refused => simp [Parsing.bind, validate, checked, refused, Bind.bind, Except.bind]
  | missing required undefaulted valued => simp [Parsing.bind, required, undefaulted, valued]

theorem bind_of_sound {p : Parameter} {given : Option Value} (sound : ∀ fault, ¬ ValueFault accepts p given fault) :
    bind accepts p given = .ok (settled p given) := by
  cases given with
  | some value =>
    have valid : validate accepts p value = .ok () := by
      unfold validate
      cases checked : p.check with
      | none => rfl
      | some check =>
        cases accepted : accepts check value with
        | true => simp [accepted]
        | false => exact absurd (.mismatch check value checked accepted) (sound _)
    simp only [Parsing.bind, valid]
    rfl
  | none =>
    cases default : p.default with
    | some value => simp [Parsing.bind, settled, default]
    | none =>
      by_cases switch : p.kind = .switch
      · simp [Parsing.bind, settled, default, switch]
      · by_cases required : p.required = true
        · exact absurd (.missing required default switch) (sound _)
        · simp [Parsing.bind, settled, default, switch, required]

/-! ## All parameters in turn -/

/-- The first parameter with a fault, those before it having none. -/
inductive FirstValueFault (accepts : Check → Value → Bool) : List (Parameter × Option Value) → ArgumentFault → Prop where
  | intro (before after : List (Parameter × Option Value)) (p : Parameter) (given : Option Value)
      (sound : ∀ g ∈ before, ∀ fault, ¬ ValueFault accepts g.1 g.2 fault)
      {fault : ArgumentFault} (faulty : ValueFault accepts p given fault) :
      FirstValueFault accepts (before ++ (p, given) :: after) fault

/-- The names and values that parameters are bound to. -/
def bindings (given : List (Parameter × Option Value)) : List (String × Value) :=
  given.filterMap fun g => (settled g.1 g.2).map (g.1.name, ·)

theorem bindAll_of_sound {given : List (Parameter × Option Value)}
    (sound : ∀ g ∈ given, ∀ fault, ¬ ValueFault accepts g.1 g.2 fault) :
    bindAll accepts (given.map (·.1)) (given.map (·.2)) = .ok (bindings given) := by
  induction given with
  | nil => rfl
  | cons g given ih =>
    obtain ⟨first, others⟩ := List.forall_mem_cons.mp sound
    simp only [List.map_cons, bindAll, bind_of_sound first, ih others, bindings, List.filterMap_cons]
    cases settled g.1 g.2 <;> rfl

theorem FirstValueFault.bindAll {given : List (Parameter × Option Value)}
    (faulty : FirstValueFault accepts given fault) :
    bindAll accepts (given.map (·.1)) (given.map (·.2)) = .error fault := by
  obtain ⟨before, after, p, value, sound, faulty⟩ := faulty
  induction before with
  | nil =>
    simp only [List.nil_append, List.map_cons, Parsing.bindAll, faulty.bind]
    rfl
  | cons g before ih =>
    obtain ⟨first, others⟩ := List.forall_mem_cons.mp sound
    simp only [List.cons_append, List.map_cons, Parsing.bindAll, bind_of_sound first, ih others]
    cases settled g.1 g.2 <;> rfl

theorem sound_or_faulty (accepts : Check → Value → Bool) (given : List (Parameter × Option Value)) :
    (∀ g ∈ given, ∀ fault, ¬ ValueFault accepts g.1 g.2 fault) ∨ ∃ fault, FirstValueFault accepts given fault := by
  induction given with
  | nil => exact .inl (by simp)
  | cons g given ih =>
    by_cases faulty : ∃ fault, ValueFault accepts g.1 g.2 fault
    · obtain ⟨fault, faulty⟩ := faulty
      exact .inr ⟨fault, .intro [] given g.1 g.2 (by simp) faulty⟩
    · rw [not_exists] at faulty
      rcases ih with sound | ⟨fault, ⟨before, after, p, value, sound, first⟩⟩
      · exact .inl (List.forall_mem_cons.mpr ⟨faulty, sound⟩)
      · exact .inr ⟨fault, .intro (g :: before) after p value (List.forall_mem_cons.mpr ⟨faulty, sound⟩) first⟩

/-! ## The whole of parsing -/

/-- The parameters with what a reading gives them. -/
def Reading.gives (parameters : List Parameter) (r : Reading) : List (Parameter × Option Value) :=
  parameters.zipIdx.map fun p => (p.1, r.value parameters p.2 p.1)

theorem Reading.map_fst_gives (parameters : List Parameter) (r : Reading) :
    (r.gives parameters).map (·.1) = parameters := by
  rw [Reading.gives, List.map_map]
  exact List.zipIdx_map_fst 0 parameters

theorem Reading.map_snd_gives (parameters : List Parameter) (r : Reading) :
    (r.gives parameters).map (·.2) = r.values parameters := by
  rw [Reading.gives, List.map_map]
  rfl

/-- The fault that comes first: flags are read before operands are counted, and these before values are checked. -/
inductive FirstFault (accepts : Check → Value → Bool) (parameters : List Parameter) :
    List Value → ArgumentFault → Prop where
  | flag {args : List Value} {fault : ArgumentFault} (flagged : parameters.any (·.isFlag) = true)
      (faulty : FlagFault parameters args fault) : FirstFault accepts parameters args fault
  | surplus (r : Reading) (reads : r.Fits parameters) (extra : Value) (others : List Value)
      (left : leftBehind parameters r.operands = extra :: others) :
      FirstFault accepts parameters r.written (.surplus extra.toText)
  | value (r : Reading) (reads : r.Fits parameters) (consumed : leftBehind parameters r.operands = [])
      {fault : ArgumentFault} (faulty : FirstValueFault accepts (r.gives parameters) fault) :
      FirstFault accepts parameters r.written fault

theorem Reading.Fits.flagged (reads : r.Fits parameters) (read : r.uses ≠ [] ∨ r.marked = true) :
    parameters.any (·.isFlag) = true := by
  rcases read with used | marked
  · obtain ⟨use, member⟩ := List.exists_mem_of_ne_nil _ used
    obtain ⟨p, here, flag⟩ := (reads.uses use member).denotes.flag
    exact List.any_eq_true.mpr ⟨p, List.mem_of_getElem? here, flag⟩
  · exact reads.marked marked

/-- Parsing what reads well comes down to the operands that are left and the values that are given. -/
theorem Reading.Fits.parse (reads : r.Fits parameters) (accepts : Check → Value → Bool) :
    parse accepts parameters r.written = (leftBehind parameters r.operands).head?.elim
      ((bindAll accepts parameters (r.values parameters)).map (⟨·⟩)) fun extra => .error (.surplus extra.toText) := by
  have positions := reads.readPositions
  rw [Parsing.parse]
  by_cases flagged : parameters.any (·.isFlag) = true
  · simp only [if_pos flagged, reads.readFlags flagged, positions, Bind.bind, Except.bind]
    cases leftBehind parameters r.operands <;> rfl
  · have plain : r.uses = [] ∧ r.marked = false := by
      by_contra used
      refine flagged (reads.flagged ?_)
      rw [not_and_or, Bool.not_eq_false] at used
      exact used
    have written : r.written = r.operands := by simp [Reading.written, plain]
    rw [plain.1] at positions
    change Parsing.readPositions parameters (parameters.map fun _ => none) r.operands = _ at positions
    simp only [if_neg flagged, written, positions, Bind.bind, Except.bind]
    cases leftBehind parameters r.operands <;> rfl

/-- What reads well, leaves no operand and gives no faulty value is bound as it is given. -/
theorem Reading.Fits.parse_of_sound (reads : r.Fits parameters) (consumed : leftBehind parameters r.operands = [])
    (sound : ∀ g ∈ r.gives parameters, ∀ fault, ¬ ValueFault accepts g.1 g.2 fault) :
    Parsing.parse accepts parameters r.written = .ok ⟨bindings (r.gives parameters)⟩ := by
  have bound := bindAll_of_sound sound
  rw [r.map_fst_gives, r.map_snd_gives] at bound
  rw [reads.parse, consumed, bound]
  rfl

theorem FirstFault.parse (faulty : FirstFault accepts parameters args fault) :
    parse accepts parameters args = .error fault := by
  cases faulty with
  | flag flagged faulty =>
    rw [Parsing.parse, if_pos flagged, faulty.readFlags]
    rfl
  | surplus r reads extra others left => rw [reads.parse, left, List.head?_cons, Option.elim_some]
  | value r reads consumed faulty =>
    have refused := faulty.bindAll
    rw [r.map_fst_gives, r.map_snd_gives] at refused
    rw [reads.parse, consumed, refused]
    rfl

/-- Arguments are read to the end, with every value sound, or there is a first fault. -/
theorem sound_or_firstFault (accepts : Check → Value → Bool) (parameters : List Parameter) (args : List Value) :
    (∃ r : Reading, r.Fits parameters ∧ r.written = args ∧ leftBehind parameters r.operands = [] ∧
        ∀ g ∈ r.gives parameters, ∀ fault, ¬ ValueFault accepts g.1 g.2 fault) ∨
      ∃ fault, FirstFault accepts parameters args fault := by
  have readable : (∃ r : Reading, r.Fits parameters ∧ r.written = args) ∨
      ∃ fault, FirstFault accepts parameters args fault := by
    by_cases flagged : parameters.any (·.isFlag) = true
    · rcases reads_or_faulty flagged args with read | ⟨fault, faulty⟩
      · exact .inl read
      · exact .inr ⟨fault, .flag flagged faulty⟩
    · exact .inl ⟨⟨[], false, args⟩, ⟨by simp, by simp, fun any => absurd any flagged⟩, rfl⟩
  rcases readable with ⟨r, reads, rfl⟩ | faulty
  · cases left : leftBehind parameters r.operands with
    | cons extra others => exact .inr ⟨_, .surplus r reads extra others left⟩
    | nil =>
      rcases sound_or_faulty accepts (r.gives parameters) with sound | ⟨fault, faulty⟩
      · exact .inl ⟨r, reads, rfl, left, sound⟩
      · exact .inr ⟨fault, .value r reads left faulty⟩
  · exact .inr faulty

/-! ## What is known of the result -/

/-- What parsed arguments are known to be. -/
structure Validated (accepts : Check → Value → Bool) (parameters : List Parameter) (args : List Value)
    (a : Arguments) : Prop where
  /-- The names are those of parameters, in declared order. -/
  declared : (a.bound.map (·.1)).Sublist (parameters.map (·.name))
  /-- What is required and has no default is bound. -/
  complete : ∀ p ∈ parameters, p.required = true → p.default = none → p.name ∈ a.bound.map (·.1)
  /-- All arguments are read, as flags, the end marker or operands that some parameter takes; the parameters are bound to
  what they are given, which their checks accept, or else to their defaults, which are not checked. -/
  read : ∃ r : Reading, r.Fits parameters ∧ r.written = args ∧ leftBehind parameters r.operands = [] ∧
    a.bound = bindings (r.gives parameters) ∧
    ∀ g ∈ r.gives parameters, ∀ value ∈ g.2, ∀ check ∈ g.1.check, accepts check value = true

theorem map_fst_bindings_sublist (given : List (Parameter × Option Value)) :
    ((bindings given).map (·.1)).Sublist ((given.map (·.1)).map (·.name)) := by
  induction given with
  | nil => exact .slnil
  | cons g given ih =>
    rw [bindings, List.filterMap_cons]
    cases settled g.1 g.2 with
    | none => exact ih.cons _
    | some value => exact ih.cons_cons _

theorem mem_bindings {given : List (Parameter × Option Value)} {p : Parameter} {v : Option Value} {value : Value}
    (member : (p, v) ∈ given) (bound : settled p v = some value) : (p.name, value) ∈ bindings given :=
  List.mem_filterMap.mpr ⟨(p, v), member, by rw [bound]; rfl⟩

/-- Parsing gives validated arguments, or fails with the first fault. -/
theorem parse_validates (accepts : Check → Value → Bool) (parameters : List Parameter) (args : List Value) :
    (∀ a, parse accepts parameters args = .ok a → Validated accepts parameters args a) ∧
      ∀ fault, parse accepts parameters args = .error fault ↔ FirstFault accepts parameters args fault := by
  rcases sound_or_firstFault accepts parameters args with ⟨r, reads, rfl, consumed, sound⟩ | ⟨fault, faulty⟩
  · have parsed := reads.parse_of_sound consumed sound
    refine ⟨fun a done => ?_, fun fault => ⟨fun failed => ?_, fun faulty => faulty.parse⟩⟩
    · obtain rfl := Except.ok.inj (parsed.symm.trans done)
      refine ⟨?_, fun p member required undefaulted => ?_, r, reads, rfl, consumed, rfl, ?_⟩
      · have names := map_fst_bindings_sublist (r.gives parameters)
        rwa [r.map_fst_gives] at names
      · rw [← r.map_fst_gives parameters] at member
        obtain ⟨⟨q, v⟩, given, rfl⟩ := List.mem_map.mp member
        cases bound : settled q v with
        | some value => exact List.mem_map.mpr ⟨_, mem_bindings given bound, rfl⟩
        | none =>
          obtain ⟨ungiven, undefaulted', off⟩ := by simpa [settled] using bound
          subst ungiven
          exact absurd (.missing required undefaulted off) (sound _ given _)
      · rintro ⟨p, v⟩ member value rfl check checked
        by_contra refused
        exact sound _ member _ (.mismatch check value checked (by simpa using refused))
    · rw [parsed] at failed
      cases failed
  · refine ⟨fun a done => ?_, fun fault' => ⟨fun failed => ?_, fun faulty => faulty.parse⟩⟩
    · rw [faulty.parse] at done
      cases done
    · obtain rfl := Except.error.inj (faulty.parse.symm.trans failed)
      exact faulty

/-- A flag whose default is none of the values it may be given. -/
def levelParameter : Parameter := ⟨"level", .flag, false, some (.text "high"), some .integer⟩

/-- A default is bound although the check of its parameter refuses it. -/
theorem not_accepts_default :
    ¬ ∀ a, parse (World.accepts {}) [levelParameter] [] = .ok a →
      ∀ p ∈ [levelParameter], ∀ value, (p.name, value) ∈ a.bound →
        ∀ check, p.check = some check → World.accepts {} check value = true := by
  intro accepted
  have parsed : parse (World.accepts {}) [levelParameter] [] = .ok ⟨[("level", .text "high")]⟩ := by
    rw [parse, readFlags]
    rfl
  have integer := accepted _ parsed levelParameter (by simp) (.text "high") (by simp [levelParameter]) .integer rfl
  exact absurd integer (by decide)

end DynamicObjects.Parsing
