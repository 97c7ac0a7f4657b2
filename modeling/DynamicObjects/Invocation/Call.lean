import DynamicObjects.Invocation.Implementation
import DynamicObjects.Invocation.Unknown

/-!
# Calls

A call finds a method and runs it in a frame. When the frame closes, the positions pushed for it are popped, the result
is held against the declared check, and unknown handling that a next call left open is done.
-/
namespace DynamicObjects.Invocation

/-- Holds the result of a frame against the check its method declares. -/
def checkResult (w : World) (frame : Frame) (value : Value) : Except Failure Value :=
  match frame.method.bind (·.returns) with
  | some check =>
    if w.settings.checkResults && !w.accepts check value then
      .error (.returnType (w.nameOf frame.object) frame.path value.toText check.description)
    else .ok value
  | none => .ok value

/-- What a frame ends with, once its own run has ended. -/
def conclude (host : Host) (frame : Frame) (outcome : Except Failure Value) : Action Value := do
  let value ← Action.resume outcome
  let value ← Action.resume (checkResult (← get) frame value)
  if frame.unknownDue then answerUnknown host frame.object frame.called frame.arguments
  else return value

/-- Closes the innermost frame. -/
def close (host : Host) (outcome : Except Failure Value) : Action Value := do
  match (← get).stack.top? with
  | none => Action.resume outcome
  | some frame =>
    modify fun w => { w with stack := w.stack.pop }
    popPositions frame.object frame.pushedFilterPosition frame.pushedMixinPosition
    let outcome ← Action.settle (conclude host frame outcome)
    letGo frame.object
    Action.resume outcome

/-- Opens a frame, runs a method in it and closes it. -/
def run (host : Host) (frame : Frame) (method : Method) (mods : CallModifiers) : Action Value := do
  let i := (← get).stack.depth
  modify fun w => { w with stack := w.stack.push frame }
  hold frame.object
  let outcome ← Action.settle (implement host i frame.object method frame.arguments mods)
  close host outcome

/-- Calls a method by name. -/
def call (host : Host) (h : Handle) (name : String) (args : List Value) (mods : CallModifiers) : Action Value := do
  let w ← get
  if w.settings.maxDepth ≤ w.stack.depth then throw (.recursion w.settings.maxDepth)
  let _ ← Update.object h
  match ← resolve host h name mods with
  | some resolved => enter host h name resolved args mods
  | none =>
    if mods.noUnknown then throw (.unknown (← Update.nameOf h) name)
    answerUnknown host h name args

end DynamicObjects.Invocation
