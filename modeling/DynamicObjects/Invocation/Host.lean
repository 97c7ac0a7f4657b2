import DynamicObjects.Method.Arguments
import DynamicObjects.World

/-!
# Running code

What an expression can see of the call it stands in, and the three ways in which the operations of this library come
back to running code: evaluating an expression, calling a method by name, and running a method in a frame. The
operations take these as a parameter; tying the knot is left to the interpreter.
-/
namespace DynamicObjects

/-- What an expression sees of the call it belongs to. -/
inductive Surroundings where
  | none
  /-- The body of a scripted method sees its parameters. -/
  | scripted (arguments : Arguments)
  /-- A native body sees the receiver and the arguments as they came. -/
  | native (receiver : Handle) (arguments : List Value)
  /-- A computed argument of a forwarder sees the receiver. -/
  | receiver (receiver : Handle)

structure Host where
  eval : Surroundings → Expr → Action Value
  call : Handle → String → List Value → CallModifiers → Action Value
  run : Frame → Method → CallModifiers → Action Value

namespace World

/-- Whether the class of a live object is `cls` or inherits from it. -/
def isInstanceOf (w : World) (h cls : Handle) : Bool :=
  (w.live? h).any fun o => Hierarchy.inheritsFrom w.objects o.cls cls

/-- Whether a value satisfies a check. -/
def accepts (w : World) (check : Check) (value : Value) : Bool :=
  match check with
  | .integer => value.isInteger
  | .boolean => value.isBoolean
  | .number => value.isNumber
  | .text =>
    match value with
    | .list _ => false
    | _ => true
  | .object => value.asObject?.any w.isObject
  | .cls => value.asObject?.any w.isClass
  | .instanceOf c => value.asObject?.any (w.isInstanceOf · c)

end World

end DynamicObjects
