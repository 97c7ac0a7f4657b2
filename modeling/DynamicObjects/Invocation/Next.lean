import DynamicObjects.Invocation.Entry

/-!
# The next method

A running method can pass its call on to the next implementation: the filters that follow, then the mixins, then the
object's own method, then the class order. The chain is searched from the position of the frame.
-/
namespace DynamicObjects.Invocation

/-- What a search for the next method finds, and whether it ran off the end of the filters. -/
structure Continuation where
  resolved : Option Resolved
  filtersDone : Bool

/-- Where the search goes on once the filters are done: the name and the defining class to search behind. -/
structure SearchState where
  name : String
  definer : Option Handle
  filtersDone : Bool := false

/-- The filter behind the one of a filter frame. -/
def nextFilter (host : Host) (h : Handle) : Action (Option Resolved) := do
  let order ← Interception.filterOrder h
  let w ← get
  let start := indexAfter order ((filterPosition? w h).bind (·.current)) (·.key == ·)
  match ← searchFilters host h (w.isClass h) (order.drop start) with
  | some entry =>
    setFilterPosition h (some entry.key)
    return some { method := entry.method, definer := entry.definer, kind := .filter true, name := entry.name }
  | none => return none

/-- The mixin behind the current mixin position. -/
def nextMixin (host : Host) (h : Handle) (name : String) : Action (Option Resolved) := do
  let order ← Interception.mixinOrder h
  let start := indexAfter order (mixinPosition (← get) h) (·.target == ·)
  match ← searchMixins host h name (order.drop start) with
  | some (c, method) =>
    setMixinPosition h (some c)
    return some { method, definer := some c, kind := .mixin true, name }
  | none => return none

/-- Whether a frame runs a given own method of its receiver. -/
def runsOwn (frame : Frame) (own : Method) : Bool :=
  frame.definer.isNone && frame.method.any (·.epoch == own.epoch)

/-- The object's own method, unless it was passed or runs already, or the class behind the defining one. -/
def nextPlain (frame : Frame) (state : SearchState) : Update (Option Resolved) := do
  let o ← Update.object frame.object
  let own := o.methods.get? state.name
  if (state.filtersDone || state.definer.isNone) && !own.any (runsOwn frame) then
    match own.filter (!·.isPrivate) with
    | some method => return some { method, definer := none, kind := .plain, name := state.name }
    | none => pure ()
  return (← searchClassOrder o.cls state.name state.definer).map fun (method, definer) =>
    { method, definer, kind := .plain, name := state.name }

/-- Searches mixins where the frame is in their chain, then the object and its classes. -/
def continueUnfiltered (host : Host) (frame : Frame) (state : SearchState) : Action (Option Resolved) := do
  if (state.filtersDone || frame.kind.isMixin) && !(mixinPositions (← get) frame.object).isEmpty then
    match ← nextMixin host frame.object state.name with
    | some resolved => return some resolved
    | none => nextPlain frame { state with definer := none }
  else nextPlain frame state

/-- The continuation of the chain behind a frame. -/
def continuation (host : Host) (frame : Frame) : Action Continuation := do
  if frame.kind.isFilter then
    let position := filterPosition? (← get) frame.object
    match ← nextFilter host frame.object with
    | some resolved => return ⟨some resolved, false⟩
    | none =>
      let name := (position.map (·.called)).getD frame.called
      return ⟨← continueUnfiltered host frame ⟨name, none, true⟩, true⟩
  else return ⟨← continueUnfiltered host frame ⟨frame.methodName, frame.definer, false⟩, false⟩

/-- Marks a frame as running a next call for the time of an action. -/
def duringNext (i : Nat) (kind : FrameKind) (a : Action Value) : Action (Except Failure Value) := do
  changeFrame i fun f => { f with runsNext := true, kind := kind.deactivated }
  let outcome ← Action.settle a
  changeFrame i fun f => { f with runsNext := false, kind }
  return outcome

/-- Runs the method behind the frame `i`, with the arguments of the frame if none are given. Without such a method the
result is nil; where the filters or an ensemble end so, unknown handling is left to the closing of the frame. `fromSub`
says that a sub-method asks on behalf of its ensemble. -/
def nextFrom (host : Host) (i : Nat) (args : Option (List Value)) (fromSub : Bool) : Action Value := do
  match (← get).stack.get? i with
  | none => throw (.noActiveFrame "next")
  | some frame =>
    let h := frame.object
    let filterBefore := (filterPosition? (← get) h).bind (·.current)
    let mixinBefore := mixinPosition (← get) h
    let outcome ← Action.settle do
      let found ← continuation host frame
      match found.resolved with
      | some resolved =>
        let call := enter host h frame.called resolved (args.getD frame.arguments) {}
        Action.resume (← duringNext i frame.kind call)
      | none =>
        if found.filtersDone || (frame.runsEnsemble && !fromSub) then
          changeFrame i ({ · with unknownDue := true })
        return .nil
    setFilterPosition h filterBefore
    setMixinPosition h mixinBefore
    Action.resume outcome

/-- Runs the method behind the running one. A sub-method goes on behind its ensemble. -/
def next (host : Host) (args : Option (List Value)) : Action Value := do
  let stack := (← get).stack
  match stack.activeIndex? with
  | none => throw (.noActiveFrame "next")
  | some i =>
    if (stack.get? i).any (·.kind == .ensemble) then
      match stack.ensembleIndex? i with
      | some container => nextFrom host container args true
      | none => throw (.noActiveFrame "next")
    else nextFrom host i args false

end DynamicObjects.Invocation
