import DynamicObjects.Inspection
import DynamicObjects.Invocation.Call
import DynamicObjects.Lifecycle.Creation
import DynamicObjects.Lifecycle.Reclassing
import DynamicObjects.Script.Binding

/-!
# Evaluation

The value of an expression. Parts of an expression are evaluated through the host: from left to right, the object of a
step first, its name next.
-/
namespace DynamicObjects.Script

/-- The names of some objects. -/
def namesOf (hs : List Handle) : Update Value := do
  let w ← get
  return .texts (hs.map w.nameOf)

/-- What a scripted or native method can read of its call. -/
def argumentList : Surroundings → List Value
  | .scripted arguments => arguments.bound.map fun (name, value) => .list [.text name, value]
  | .native _ arguments => arguments
  | .none | .receiver _ => []

def nthArgument (i : Nat) : Surroundings → Value
  | .native _ arguments => arguments.getD i .nil
  | _ => .nil

def parameterValue (name : String) : Surroundings → Value
  | .scripted arguments => (arguments.get? name).getD .nil
  | _ => .nil

def receiverOf : Surroundings → Value
  | .native h _ | .receiver h => .object h
  | _ => .nil

/-- An order as a number. -/
def orderValue : Option Ordering → Value
  | some .lt => .word (-1)
  | some .eq => .word 0
  | some .gt => .word 1
  | none => .nil

def operate (operator : Operator) (a b : Value) : Value :=
  match operator with
  | .add => .word (a.asWord?.getD 0 + b.asWord?.getD 0)
  | .compare => orderValue (a.order? b)
  | .equal => .bool (a == b)
  | .less => .bool (a.order? b == some .lt)

/-- The kind and message of a failure. -/
def failureValue (f : Failure) : Value :=
  .texts ["error", f.kind, f.message]

def systemValue (id : Nat) (s : ObjectSystem) : Value :=
  let m := s.methods
  .list ([.ofNat id, .object s.rootClass, .object s.rootMetaclass] ++
    [m.init, m.destroy, m.unknown, m.default].map .ofText?)

/-- What the running method can ask about itself and its caller; nil where there is no answer. -/
def contextValue (w : World) : Value :=
  let active := w.stack.active?
  let caller := w.stack.caller?
  let called := active.map fun frame =>
    let position := if frame.kind.isFilter then Invocation.filterPosition? w frame.object else none
    (position.map (·.called)).getD frame.called
  .list [
    .ofObject? (active.map (·.object)), .ofObject? (active.bind (·.definer)),
    .ofText? (active.map (·.methodName)), ((active.map fun f => .list f.arguments).getD .nil),
    .ofText? (active.map (·.kind.name)), .ofText? called, .bool w.stack.reachedByNext,
    .ofObject? (caller.map (·.object)), .ofObject? (caller.bind (·.definer)),
    .ofText? (caller.map (·.methodName)), .ofNat w.stack.callerLevel, .ofNat w.stack.depth]

def worldStep : WorldStep → Update Value
  | .systems => do return .list ((← get).systems.mapIdx systemValue)
  | .heapUse => do
    let objects := (← get).objects
    return .list [.ofNat objects.totalSlots, .ofNat objects.freeSlots, .ofNat objects.size]
  | .currentSelf => do return .object (← Invocation.activeFrame).object
  | .currentClass => do return .ofObject? (← Invocation.activeFrame).definer
  | .currentMethod => do return .text (← Invocation.activeFrame).methodName
  | .currentArguments => do return .list (← Invocation.activeFrame).arguments
  | .currentFrameKind => do return .text (← Invocation.activeFrame).kind.name
  | .calledMethod => do return .text (← Invocation.calledMethod)
  | .callDepth => do return .ofNat (← get).stack.depth
  | .context => do return contextValue (← get)

def checksValue (c : CheckOptions) : Value :=
  .list [.bool c.pre, .bool c.post, .bool c.objectInvariants, .bool c.classInvariants]

def filterValue (entry : FilterEntry) : Value :=
  .list [.text entry.name, .ofObject? entry.definer, .ofNat entry.method.epoch,
    .ofText? (entry.guard.map (·.source))]

def entryValue (entry : Inspection.OrderEntry) : Value :=
  .list [.text entry.1, .ofText? entry.2]

def objectStep (host : Host) (h : Handle) : ObjectStep → Action Value
  | .destroy => do
    Lifecycle.destroy host h
    return .nil
  | .superclasses => do namesOf (← Update.classPart h).supers
  | .subclasses => do namesOf (← Update.classPart h).subs
  | .nameOf => return .text (← Update.nameOf h)
  | .classOf => return .object (← Update.object h).cls
  | .isObject => return .bool ((← get).isObject h)
  | .isClass => return .bool ((← get).isClass h)
  | .isMetaclass => return .bool (← Update.isMetaclass h)
  | .classMethodNames => return .texts (← Update.classPart h).methods.names
  | .checks => return checksValue (← Update.object h).checks
  | .mixins reach => do namesOf ((← Interception.registrations reach h).mixins.map (·.target))
  | .filters reach => return .texts ((← Interception.registrations reach h).filters.map (·.target))
  | .classMixinOrder => do namesOf (← Interception.classMixinOrder h)
  | .filterOrder => return .list ((← Interception.filterOrder h).map filterValue)
  | .precedenceOrder => do namesOf (← Update.precedenceOrder h)

def pairStep (h other : Handle) : PairStep → Update Value
  | .changeClass => do
    Lifecycle.changeClass h other
    return .nil
  | .isInstanceOf => return .bool ((← get).isInstanceOf h other)
  | .isType => return .bool (← Inspection.isType h other)
  | .removeMixin reach => return .bool (← Interception.removeMixin reach h other)

def unsetVariable (h : Handle) (name : String) : Update Bool := do
  let isSet := (← Update.object h).vars.contains name
  Update.changeObject h fun o => { o with vars := o.vars.erase name }
  return isSet

def nameStep (h : Handle) (name : String) : NameStep → Update Value
  | .removeMethod reach => return .bool (← Definition.removeMethod reach h name)
  | .resolve => do
    match ← Inspection.methodHandle? h name with
    | some m => return .list [.text m.definer, .text m.kind.name, .text m.path, .bool m.perObject]
    | none => return .nil
  | .variable => return (← Invocation.readVariable h name).getD .nil
  | .unsetVariable => return .bool (← unsetVariable h name)
  | .removeFilter reach => return .bool (← Interception.removeFilter reach h name)

def listingStep (host : Host) (surroundings : Surroundings) (h : Handle) (pattern : Option String) :
    ListingStep Expr → Action Value
  | .instances closure => do
    let closure ← host.eval surroundings closure
    namesOf (← Inspection.instances h pattern closure.truthy)
  | .methodNames => return .texts (← Inspection.methodNames h pattern)
  | .mixinOrder => return .list ((← Inspection.mixinEntries h pattern).map entryValue)
  | .filterOrder guards => do
    let guards ← host.eval surroundings guards
    return .list ((← Inspection.filterEntries h pattern guards.truthy).map entryValue)
  | .precedenceOrder mixins roots => do
    let mixins ← host.eval surroundings mixins
    let roots ← host.eval surroundings roots
    namesOf (← Inspection.precedence h pattern mixins.truthy roots.truthy)

/-- Evaluates expressions in turn; the value is the last one. -/
def sequence (eval : Expr → Action Value) : List Expr → Action Value
  | [] => return .nil
  | [e] => eval e
  | e :: rest => do
    let _ ← eval e
    sequence eval rest

/-- A size: an integer of either kind, or a text that reads as a word, from 0 to 2 ^ 64 - 1. -/
def asSize? (value : Value) : Option Nat :=
  let n? : Option Int := match value with
    | .integer n => some n
    | _ => value.asWord?.map Int64.toInt
  (n?.bind Int.toNat?).filter (· < UInt64.size)

/-- Sets one field of the settings. A depth that is no size changes nothing. -/
def configure (field : Settings.Field) (value : Value) : Update Unit :=
  modify fun w => { w with settings :=
    match field with
    | .filtersEnabled => { w.settings with filtersEnabled := value.truthy }
    | .assertionsEnabled => { w.settings with assertionsEnabled := value.truthy }
    | .checkResults => { w.settings with checkResults := value.truthy }
    | .maxDepth => { w.settings with maxDepth := (asSize? value).getD w.settings.maxDepth }
    | .warnMixinCycles => { w.settings with warnMixinCycles := value.truthy } }

/-- A value as it is shown now. -/
def observe (w : World) : Value → Observation
  | .nil => .nil
  | .bool b => .bool b
  | .word i => .word i
  | .integer n => .integer n
  | .double x => .double x
  | .text s => .text s
  | .object h => .object (w.nameOf h) h
  | .list items => .list (items.map (observe w))

def log (value : Value) : Update Unit :=
  modify fun w => { w with journal := observe w value :: w.journal }

def bindKey (key : String) (h : Handle) : Update Unit :=
  modify fun w => { w with bindings := w.bindings.insert key h }

/-- Binds a new object to a key, if one is given. -/
def bindNew (key : Option String) (h : Handle) : Update Value := do
  if let some key := key then bindKey key h
  return .object h

def parsedValue (w : World) (parameters : List Parameter) (args : List Value) : Value :=
  match Parsing.parse w.accepts parameters args with
  | .ok arguments =>
    .list [.list (argumentList (.scripted arguments)), .ofNat arguments.bound.length,
      .bool arguments.bound.isEmpty]
  | .error fault => .texts ["error", fault.name, fault.message]

def methodValue (m : Method) : Value :=
  .list [.text m.kind.name, .text m.visibility.name, .bool m.classOnly, .bool m.isPrivate, .ofNat m.epoch,
    .text (Inspection.outline m)]

/-- Changes definitions, registrations or settings. -/
def changeStep (host : Host) (surroundings : Surroundings) : ChangeStep Expr → Action Unit
  | .setSuperclasses on supers => do
    let h ← lookUp host surroundings on
    Hierarchy.setSuperclasses h (← lookUpAll host surroundings supers)
  | .defineMethod reach on method => do
    let h ← lookUp host surroundings on
    Definition.defineMethod reach h (← bindMethod host surroundings method)
  | .defineCommand method path => do
    let method ← bindMethod host surroundings method
    Definition.defineCommand (← textOf host surroundings path) method
  | .defineEnsemble on name container => do
    let h ← lookUp host surroundings on
    let name ← textOf host surroundings name
    Definition.defineEnsemble h name (← lookUp host surroundings container)
  | .keepCallerSelf on keep => do
    let h ← lookUp host surroundings on
    let keep ← host.eval surroundings keep
    Update.changeObject h ({ · with keepsCallerSelf := keep.truthy })
  | .setChecks on options => do
    let h ← lookUp host surroundings on
    Update.changeObject h ({ · with checks := options })
  | .addInvariant reach on predicate => do
    let h ← lookUp host surroundings on
    Interception.changeRegistrations reach h fun r => { r with invariants := r.invariants ++ [predicate] }
  | .setVariable on name value => do
    let h ← lookUp host surroundings on
    let name ← textOf host surroundings name
    Invocation.setVariable h name (← host.eval surroundings value)
  | .configure changes => changes.forM fun (field, e) => do
    configure field (← host.eval surroundings e)
  | .setUnknownHandler body => modify fun w => { w with unknownHandler := body }
  | .setMixins reach on mixins => do
    let h ← lookUp host surroundings on
    Interception.setMixins reach h (← mixins.mapM (bindMixin host surroundings))
  | .addMixin reach on mixin => do
    let h ← lookUp host surroundings on
    Interception.addMixin reach h (← bindMixin host surroundings mixin)
  | .setMixinGuard reach on mixin => do
    let h ← lookUp host surroundings on
    let mixin ← bindMixin host surroundings mixin
    Interception.setMixinGuard reach h mixin.target mixin.guard
  | .setFilters reach on filters => do
    let h ← lookUp host surroundings on
    Interception.setFilters reach h (← filters.mapM (bindFilter host surroundings))
  | .addFilter reach on filter => do
    let h ← lookUp host surroundings on
    Interception.addFilter reach h (← bindFilter host surroundings filter)
  | .setFilterGuard reach on filter => do
    let h ← lookUp host surroundings on
    let filter ← bindFilter host surroundings filter
    Interception.setFilterGuard reach h filter.target filter.guard

/-- The value of an expression. -/
def evaluate (host : Host) (surroundings : Surroundings) (e : Expr) : Action Value := do
  let eval := host.eval surroundings
  match e with
  | .literal v => return v
  | .list items => return .list (← items.mapM eval)
  | .object r => return .object (← lookUp host surroundings r)
  | .parameter name => return parameterValue name surroundings
  | .argument i => return nthArgument i surroundings
  | .arguments => return .list (argumentList surroundings)
  | .receiver => return receiverOf surroundings
  | .self => return .object (← Invocation.activeFrame).object
  | .ownVariable name =>
    return (← Invocation.readVariable (← Invocation.activeFrame).object name).getD .nil
  | .concat items => return .text (String.join ((← items.mapM eval).map (·.toText)))
  | .sequence steps => sequence eval steps
  | .choose condition yes no => do eval (if (← eval condition).truthy then yes else no)
  | .attempt step =>
    match ← Action.settle (eval step) with
    | .ok value => return .list [.text "ok", value]
    | .error f => return failureValue f
  | .fail reason => throw (.script (← textOf host surroundings reason))
  | .log e =>
    let value ← eval e
    log value
    return value
  | .operate operator left right =>
    let a ← eval left
    return operate operator a (← eval right)
  | .bind r key =>
    let h ← lookUp host surroundings r
    bindKey key h
    return .object h
  | .createSystem root metaclass methods =>
    let root ← textOf host surroundings root
    let metaclass ← textOf host surroundings metaclass
    let init ← textOf? host surroundings methods.init
    let destroy ← textOf? host surroundings methods.destroy
    let unknown ← textOf? host surroundings methods.unknown
    let default ← textOf? host surroundings methods.default
    let (rootClass, rootMetaclass) ←
      Lifecycle.createSystem root metaclass { init, destroy, unknown, default }
    return .list [.object rootClass, .object rootMetaclass]
  | .createClass name metaclass supers key =>
    let name ← textOf host surroundings name
    let metaclass ← lookUp host surroundings metaclass
    let supers ← lookUpAll host surroundings supers
    bindNew key (← Lifecycle.createClass host name metaclass supers [])
  | .createObject name cls args key =>
    let name ← textOf? host surroundings name
    let cls ← lookUp host surroundings cls
    let args ← argumentsOf host surroundings args
    bindNew key (← Lifecycle.createObject host cls name args)
  | .ofWorld step => worldStep step
  | .ofObject step on => objectStep host (← lookUp host surroundings on) step
  | .ofPair step on other =>
    let h ← lookUp host surroundings on
    pairStep h (← lookUp host surroundings other) step
  | .ofName step on name =>
    let h ← lookUp host surroundings on
    nameStep h (← textOf host surroundings name) step
  | .listing step on pattern =>
    let h ← lookUp host surroundings on
    listingStep host surroundings h (← textOf? host surroundings pattern) step
  | .objectNamed name =>
    let name ← textOf host surroundings name
    return .ofObject? (Lifecycle.objectNamed? (← get) name)
  | .autoname start => return .text (← Lifecycle.autoname (← textOf host surroundings start))
  | .methodInfo method => return methodValue (← bindMethod host surroundings method)
  | .parseArguments parameters args =>
    let parameters ← parameters.mapM (bindParameter host surroundings)
    let args ← argumentsOf host surroundings args
    return parsedValue (← get) parameters args
  | .checkValue check e =>
    let check ← bindCheck host surroundings check
    let value ← eval e
    return .list [.bool ((← get).accepts check value), .text check.description]
  | .dispatch on args method modifiers =>
    let h ← lookUp host surroundings on
    let args ← argumentsOf host surroundings args
    host.call h (← textOf host surroundings method) args modifiers
  | .next args =>
    match args with
    | none => Invocation.next host none
    | some e => Invocation.next host (some (← argumentsOf host surroundings e))
  | .change step =>
    changeStep host surroundings step
    return .nil

end DynamicObjects.Script
