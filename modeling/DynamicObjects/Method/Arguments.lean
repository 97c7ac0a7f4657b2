import DynamicObjects.Failure
import DynamicObjects.Script.Expression
import DynamicObjects.Value.Text

/-!
# Parsing arguments

Arguments are matched with parameters in three passes: flags and switches at the front, positional arguments and the
rest behind them, then checks and defaults in the order of the parameters. The checks are a parameter of this module:
what satisfies them depends on the world.
-/
namespace DynamicObjects

/-- The parameters that got a value, in declared order. -/
structure Arguments where
  bound : List (String × Value) := []

namespace Arguments

def get? (a : Arguments) (name : String) : Option Value :=
  (a.bound.find? (·.1 == name)).map (·.2)

end Arguments

/-- The name of a check in failures. -/
def CheckOf.description : Check → String
  | integer => "integer"
  | boolean => "boolean"
  | number => "number"
  | text => "string"
  | object => "object"
  | cls => "class"
  | instanceOf c => "object of type " ++ c.text

namespace Parsing

def flagText (p : Parameter) : String :=
  "-" ++ p.name

/-- The index of the flag parameter that a flag denotes: the one of this name, or the only one whose name starts so. -/
def matchFlag (parameters : List Parameter) (flag : String) : Except ArgumentFault Nat :=
  let name := flag.toList.drop 1
  let flags := parameters.zipIdx.filter (·.1.isFlag)
  match flags.find? (·.1.name.toList == name) with
  | some (_, i) => .ok i
  | none =>
    match flags.filter fun f => name.isPrefixOf f.1.name.toList with
    | [(_, i)] => .ok i
    | [] => .error (.unknownFlag flag (", ".intercalate (flags.map fun f => flagText f.1)))
    | several => .error (.ambiguousFlag flag (" and ".intercalate (several.map fun f => flagText f.1)))

/-- Reads flags at the front. `given` holds the values of the parameters, in declared order; what is left of the
arguments is returned beside them. Two minus signs end the flags. -/
def readFlags (parameters : List Parameter) (given : List (Option Value)) :
    List Value → Except ArgumentFault (List (Option Value) × List Value)
  | [] => .ok (given, [])
  | arg :: rest =>
    if arg.asText? == some "--" then .ok (given, rest)
    else if !arg.isFlag then .ok (given, arg :: rest)
    else
      match matchFlag parameters arg.toText with
      | .error fault => .error fault
      | .ok i =>
        if parameters[i]?.any (·.kind == .switch) then
          readFlags parameters (given.set i (some (.bool true))) rest
        else
          match rest with
          | value :: rest => readFlags parameters (given.set i (some value)) rest
          | [] => .error (.missingValue ((parameters[i]?.map (·.name)).getD ""))
termination_by args => args.length

/-- Gives positional parameters one argument each, as far as there are any, and a rest parameter all that are left. -/
def readPositions : List Parameter → List (Option Value) → List Value → List (Option Value) × List Value
  | p :: parameters, value :: given, args =>
    match p.kind, args with
    | .positional, arg :: rest =>
      let (given, left) := readPositions parameters given rest
      (some arg :: given, left)
    | .rest, args =>
      let (given, left) := readPositions parameters given []
      (some (.list args) :: given, left)
    | _, args =>
      let (given, left) := readPositions parameters given args
      (value :: given, left)
  | _, given, args => (given, args)

/-- Holds a value against the check of a parameter. -/
def validate (accepts : Check → Value → Bool) (p : Parameter) (value : Value) : Except ArgumentFault Unit :=
  match p.check with
  | some check =>
    if accepts check value then .ok () else .error (.mismatch p.name check.description value.toText)
  | none => .ok ()

/-- The value of a parameter that was given one or none; no value if it stays unbound. -/
def bind (accepts : Check → Value → Bool) (p : Parameter) : Option Value → Except ArgumentFault (Option Value)
  | some value => do
    validate accepts p value
    return some value
  | none =>
    match p.default with
    | some value => .ok (some value)
    | none =>
      if p.kind = .switch then .ok (some (.bool false))
      else if p.required then .error (.missing p.name)
      else .ok none

def bindAll (accepts : Check → Value → Bool) :
    List Parameter → List (Option Value) → Except ArgumentFault (List (String × Value))
  | p :: parameters, value :: given => do
    match ← bind accepts p value with
    | some value => return (p.name, value) :: (← bindAll accepts parameters given)
    | none => bindAll accepts parameters given
  | _, _ => .ok []

/-- Parses the arguments of a call. -/
def parse (accepts : Check → Value → Bool) (parameters : List Parameter) (args : List Value) :
    Except ArgumentFault Arguments := do
  let nothing : List (Option Value) := parameters.map fun _ => none
  let (given, args) ←
    if parameters.any (·.isFlag) then readFlags parameters nothing args else .ok (nothing, args)
  match readPositions parameters given args with
  | (_, extra :: _) => .error (.surplus extra.toText)
  | (given, []) => return ⟨← bindAll accepts parameters given⟩

end Parsing

end DynamicObjects
