/-!
# Checks and parameters

A parameter in a program names classes by reference and gives its default as an expression; a parameter of a defined
method holds handles and values. Both are one type, over the types of defaults and of references.
-/
namespace DynamicObjects

/-- A constraint on values. -/
inductive CheckOf (ref : Type) where
  | integer
  | boolean
  | number
  | text
  | object
  | cls
  | instanceOf (cls : ref)
  deriving DecidableEq, Repr, Inhabited

inductive ParameterKind where
  /-- Taken from the arguments in order. -/
  | positional
  /-- A flag with a value behind it. -/
  | flag
  /-- A flag alone. -/
  | switch
  /-- Takes all arguments left over. -/
  | rest
  deriving DecidableEq, Repr, Inhabited

structure ParameterOf (default ref : Type) where
  name : String
  kind : ParameterKind
  required : Bool
  default : Option default
  check : Option (CheckOf ref)
  deriving Inhabited

namespace ParameterOf

variable {default ref : Type}

/-- Positional parameters are required unless stated otherwise, all others are optional. -/
def ofKind (name : String) (kind : ParameterKind) : ParameterOf default ref :=
  ⟨name, kind, kind == .positional, none, none⟩

/-- A default makes a parameter optional. -/
def withDefault (p : ParameterOf default ref) (value : default) : ParameterOf default ref :=
  { p with default := some value, required := false }

/-- Flags and switches come before the positional arguments. -/
def isFlag (p : ParameterOf default ref) : Bool :=
  p.kind == .flag || p.kind == .switch

end ParameterOf

end DynamicObjects
