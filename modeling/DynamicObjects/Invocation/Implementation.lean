import DynamicObjects.Definition.Visible
import DynamicObjects.Invocation.Assertion
import DynamicObjects.Invocation.Next
import DynamicObjects.Method.Template

/-!
# Running implementations

What a method does in its frame, by the kind of its implementation.
-/
namespace DynamicObjects.Invocation

/-- A scripted method parses its arguments and is surrounded by assertions. -/
def runScript (host : Host) (h : Handle) (method : Method) (parameters : List Parameter) (body : Expr)
    (args : List Value) : Action Value := do
  let w ← get
  match Parsing.parse w.accepts parameters args with
  | .error fault => throw (.argument (w.nameOf h) method.name fault)
  | .ok arguments =>
    checkAssertions host h method .before
    let result ← host.eval (.scripted arguments) body
    checkAssertions host h method .after
    return result

/-- The value of a variable, if it is set. -/
def readVariable (h : Handle) (name : String) : Update (Option Value) :=
  return (← Update.object h).vars.get? name

def setVariable (h : Handle) (name : String) (value : Value) : Update Unit :=
  Update.changeObject h fun o => { o with vars := o.vars.insert name value }

/-- A setter reads its variable without an argument, and sets it to its only argument. -/
def runSetter (h : Handle) (name : String) (p : Parameter) : List Value → Update Value
  | [] => do
    match ← readVariable h p.name with
    | some value => return value
    | none =>
      throw (.script ((← Update.nameOf h) ++ ": can't read \"" ++ p.name ++ "\": no such variable"))
  | [value] => do
    let w ← get
    match Parsing.validate w.accepts p value with
    | .error fault => throw (.argument (w.nameOf h) name fault)
    | .ok () =>
      setVariable h p.name value
      return value
  | _ :: extra :: _ => do throw (.argument (← Update.nameOf h) name (.surplus extra.toText))

/-- Computes what a template argument contributes by itself. -/
def ingredient (host : Host) (h : Handle) (name : String) : ForwardArgument → Action Ingredient
  | .literal v => return .fixed v
  | .receiver => return .fixed (.object h)
  | .methodName => return .fixed (.text name)
  | .positional default => return .positional default
  | .flag flag default => return .flag flag default
  | .computed body => return .fixed (← host.eval (.receiver h) body)
  | .placed placement argument => return .placed placement (← ingredient host h name argument)

/-- Sends a forwarded call to its target. For an object, the first argument of a template that makes any is the name of
the method. -/
def sendForward (host : Host) (h : Handle) (name : String) (spec : Forward) (args : List Value) :
    Action Value :=
  let send (target : Handle) : Action Value :=
    let start := spec.methodStart.getD ""
    match spec.template, args with
    | _ :: _, first :: rest => host.call target (start ++ first.toText) rest {}
    | _, _ => host.call target (start ++ name) args {}
  match spec.target with
  | .command path => host.call h path args {}
  | .receiver => send h
  | .object target => send target

/-- A forwarder fills its template and sends the call on. A failure goes to the method named for it, unless the depth
is exhausted. -/
def runForward (host : Host) (h : Handle) (name : String) (spec : Forward) (args : List Value) :
    Action Value := do
  let ingredients ← spec.template.mapM (ingredient host h name)
  let outcome ← Action.settle (sendForward host h name spec (Template.fill ingredients args))
  match outcome, spec.onFailure with
  | .error (.recursion depth), _ => throw (.recursion depth)
  | .error f, some handler => host.call h handler [.text f.message] {}
  | outcome, _ => Action.resume outcome

/-- What a call of a missing sub-method fails with. -/
def unknownSubMethod (h container : Handle) (path sub : String) : Action Failure := do
  match ← Action.settle (Definition.visibleNames container) with
  | .ok names => return .unknownSubMethod (← Update.nameOf h) path sub (", ".intercalate names)
  | .error _ => return .unknownSubMethod (← Update.nameOf h) path sub ""

/-- The sub-method a call of an ensemble means, and its arguments: the first argument, or the system's default. -/
def subMethod (h : Handle) (args : List Value) (mods : CallModifiers) : Update (Option (String × List Value)) :=
  match args, mods.noArgumentShift with
  | first :: rest, false => return some (first.toText, rest)
  | _, _ => return (← Update.systemOf h).methods.default.map (·, args)

/-- The frame of a sub-method that runs on behalf of the caller of its ensemble. -/
def subFrame (h : Handle) (path sub : String) (method : Method) (definer : Option Handle) (args : List Value) :
    Frame where
  object := h
  definer := definer
  method := some method
  methodName := sub
  path := path ++ " " ++ sub
  kind := .ensemble
  arguments := args

/-- An ensemble calls a method of its container. If the container has none of this name, an ensemble further up the
chain may have one. -/
def runEnsemble (host : Host) (i : Nat) (h container : Handle) (args : List Value) (mods : CallModifiers) :
    Action Value := do
  changeFrame i ({ · with runsEnsemble := true })
  let path := (((← get).stack.get? i).map (·.path)).getD ""
  match ← subMethod h args mods with
  | none => throw (← unknownSubMethod h container path "")
  | some (sub, rest) =>
  match ← searchObject container sub with
  | none =>
    let result ← nextFrom host i (some args) false
    let unknown := ((← get).stack.get? i).any (·.unknownDue)
    changeFrame i ({ · with unknownDue := false })
    if unknown then throw (← unknownSubMethod h container path sub)
    return result
  | some (method, definer) =>
    if !(← Update.object container).keepsCallerSelf then host.call container sub rest {}
    else
      let method ← Definition.followAliases method
      host.run (subFrame h path sub method definer rest) method {}

/-- Runs a method in the frame `i` of a call on `h`. -/
def implement (host : Host) (i : Nat) (h : Handle) (method : Method) (args : List Value) (mods : CallModifiers) :
    Action Value :=
  match method.implementation with
  | .scripted parameters body => runScript host h method parameters body args
  | .native body _ => host.eval (.native h args) body
  | .setter p => runSetter h method.name p args
  | .forward spec => runForward host h method.name spec args
  | .ensemble container => runEnsemble host i h container args mods
  | .aliased path => throw (.structural (.aliasNotResolved method.name path))

end DynamicObjects.Invocation
