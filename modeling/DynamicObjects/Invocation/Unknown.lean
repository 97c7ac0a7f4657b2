import DynamicObjects.Invocation.Search

/-!
# Unknown methods

A call that finds no method goes to the installed handler; if that declines, to the system's method for unknown calls,
with the name put before the arguments; failing that, it fails.
-/
namespace DynamicObjects.Invocation

/-- The installed handler's answer; nil declines. -/
def askHandler (host : Host) (h : Handle) (name : String) (args : List Value) : Action (Option Value) := do
  match (← get).unknownHandler with
  | none => return none
  | some body =>
    match ← host.eval (.native h (.text name :: args)) body with
    | .nil => return none
    | answer => return some answer

/-- The name of the system's method for unknown calls. -/
def unknownMethod? (w : World) (h : Handle) : Option String :=
  ((w.live? h).bind fun o => w.systems[o.system]?).bind (·.methods.unknown)

def answerUnknown (host : Host) (h : Handle) (name : String) (args : List Value) : Action Value := do
  match ← askHandler host h name args with
  | some answer => return answer
  | none =>
    match (unknownMethod? (← get) h).filter (· ≠ name) with
    | some unknown =>
      if (← searchObject h unknown).isSome then
        return ← host.call h unknown (.text name :: args) { ignorePermissions := true, noUnknown := true }
    | none => pure ()
    throw (.unknown (← Update.nameOf h) name)

end DynamicObjects.Invocation
