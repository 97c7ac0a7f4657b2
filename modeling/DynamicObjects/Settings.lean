import DynamicObjects.Json
import DynamicObjects.Numeral

/-!
# Settings

The switches and limits of a world. They are written as a JSON object of all five fields, and read from an object in
which fields may be missing, strange members are ignored and no field comes twice, or from an array of the first fields
in order.
-/
namespace DynamicObjects

structure Settings where
  /-- Registered filters run. -/
  filtersEnabled : Bool := true
  /-- Checks that objects ask for are made. -/
  assertionsEnabled : Bool := true
  /-- Results are held against declared return checks. -/
  checkResults : Bool := true
  /-- A call fails where as many frames are open. -/
  maxDepth : Nat := 100
  /-- Cut mixin cycles are worth a warning. -/
  warnMixinCycles : Bool := true
  deriving DecidableEq, Repr, Inhabited

namespace Settings

inductive Field where
  | filtersEnabled
  | assertionsEnabled
  | checkResults
  | maxDepth
  | warnMixinCycles
  deriving DecidableEq, Repr

/-- The fields in the order in which they are written. -/
def fields : List Field :=
  [.filtersEnabled, .assertionsEnabled, .checkResults, .maxDepth, .warnMixinCycles]

def Field.name : Field → String
  | filtersEnabled => "filters_enabled"
  | assertionsEnabled => "assertions_enabled"
  | checkResults => "check_results"
  | maxDepth => "max_depth"
  | warnMixinCycles => "warn_mixin_cycles"

/-- The field of this name. -/
def field? (name : String) : Option Field :=
  fields.find? (·.name == name)

def asBool? : Json → Option Bool
  | .bool b => some b
  | _ => none

/-- A size: a number without sign, fraction and exponent that fits 64 bits. -/
def asSize? : Json → Option Nat
  | .number literal => (Numeral.natural? literal.toList).filter (· < UInt64.size)
  | _ => none

/-- Sets one field, if the value is of its kind. -/
def set? (s : Settings) (field : Field) (value : Json) : Option Settings :=
  match field with
  | .filtersEnabled => (asBool? value).map fun b => { s with filtersEnabled := b }
  | .assertionsEnabled => (asBool? value).map fun b => { s with assertionsEnabled := b }
  | .checkResults => (asBool? value).map fun b => { s with checkResults := b }
  | .maxDepth => (asSize? value).map fun n => { s with maxDepth := n }
  | .warnMixinCycles => (asBool? value).map fun b => { s with warnMixinCycles := b }

/-- Reads members in turn; `seen` are the fields set so far. -/
def setMembers? (s : Settings) (seen : List Field) : List (Option String × Json) → Option Settings
  | [] => some s
  | (none, _) :: _ => none
  | (some name, value) :: rest =>
    match field? name with
    | none => setMembers? s seen rest
    | some field =>
      if field ∈ seen then none
      else do setMembers? (← s.set? field value) (field :: seen) rest

/-- Reads items as the fields in order. -/
def setItems? (s : Settings) : List Field → List Json → Option Settings
  | _, [] => some s
  | [], _ :: _ => none
  | field :: fields, value :: rest => do setItems? (← s.set? field value) fields rest

def ofJson? : Json → Option Settings
  | .object members => setMembers? {} [] members
  | .array items => setItems? {} fields items
  | _ => none

/-- Reads settings from JSON text. -/
def read? (text : String) : Option Settings :=
  (Json.read? text).bind ofJson?

/-- The written value of a field. -/
def valueText (s : Settings) : Field → String
  | .filtersEnabled => toString s.filtersEnabled
  | .assertionsEnabled => toString s.assertionsEnabled
  | .checkResults => toString s.checkResults
  | .maxDepth => toString s.maxDepth
  | .warnMixinCycles => toString s.warnMixinCycles

/-- Writes settings as a JSON object, one field a line. -/
def write (s : Settings) : String :=
  let line (field : Field) := "  \"" ++ field.name ++ "\": " ++ s.valueText field
  "\x7b\n" ++ ",\n".intercalate (fields.map line) ++ "\n\x7d"

end Settings

end DynamicObjects
