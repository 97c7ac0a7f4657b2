import DynamicObjects.Invocation.Host
import DynamicObjects.Lifecycle.Naming

/-!
# Binding specifications

References are looked up, and the defaults and references inside method specifications evaluated, when the step that
contains them runs. Bodies and predicates are kept as they are.
-/
namespace DynamicObjects.Script

variable (host : Host) (surroundings : Surroundings)

/-- The object a reference denotes. -/
def lookUp : Reference → Action Handle
  | .handle h => return h
  | .key key => do
    match (← get).bindings.get? key with
    | some h => return h
    | none => throw (.script ("driver: no object @" ++ key))
  | .name name => do
    match Lifecycle.objectNamed? (← get) name with
    | some h => return h
    | none => throw (.script ("driver: no object " ++ name))
  | .computed body => do
    match (← host.eval surroundings body).asObject? with
    | some h => return h
    | none => throw (.script "driver: not an object")

def lookUpAll (refs : List Reference) : Action (List Handle) :=
  refs.mapM (lookUp host surroundings)

/-- The text an expression computes. -/
def textOf (e : Expr) : Action String :=
  return (← host.eval surroundings e).toText

def textOf? : Option Expr → Action (Option String)
  | some e => some <$> textOf host surroundings e
  | none => return none

def valueOf? : Option Expr → Action (Option Value)
  | some e => some <$> host.eval surroundings e
  | none => return none

/-- The arguments an expression computes: the items of a list, nothing for nil, else one. -/
def argumentsOf (e : Expr) : Action (List Value) := do
  match ← host.eval surroundings e with
  | .list items => return items
  | .nil => return []
  | value => return [value]

def bindCheck : CheckSpec → Action Check
  | .integer => return .integer
  | .boolean => return .boolean
  | .number => return .number
  | .text => return .text
  | .object => return .object
  | .cls => return .cls
  | .instanceOf r => return .instanceOf (← lookUp host surroundings r)

def bindCheck? : Option CheckSpec → Action (Option Check)
  | some check => some <$> bindCheck host surroundings check
  | none => return none

def bindParameter (p : ParameterSpec) : Action Parameter := do
  let check ← bindCheck? host surroundings p.check
  let default ← valueOf? host surroundings p.default
  return ⟨p.name, p.kind, p.required, default, check⟩

def bindTarget : ForwardTargetOf Reference → Action ForwardTarget
  | .receiver => return .receiver
  | .object r => return .object (← lookUp host surroundings r)
  | .command path => return .command path

def bindForwardArgument : ForwardArgumentOf Expr Expr → Action ForwardArgument
  | .literal e => return .literal (← host.eval surroundings e)
  | .receiver => return .receiver
  | .methodName => return .methodName
  | .positional default => return .positional (← valueOf? host surroundings default)
  | .flag name default => return .flag name (← valueOf? host surroundings default)
  | .computed body => return .computed body
  | .placed placement argument => return .placed placement (← bindForwardArgument argument)

def bindImplementation : ImplementationOf Expr Reference Expr → Action Implementation
  | .scripted parameters body =>
    return .scripted (← parameters.mapM (bindParameter host surroundings)) body
  | .native body leaf => return .native body leaf
  | .forward spec => do
    let target ← bindTarget host surroundings spec.target
    let template ← spec.template.mapM (bindForwardArgument host surroundings)
    return .forward ⟨target, template, spec.methodStart, spec.onFailure⟩
  | .aliased path => return .aliased path
  | .setter p => return .setter (← bindParameter host surroundings p)
  | .ensemble container => return .ensemble (← lookUp host surroundings container)

def bindMethod (m : MethodSpec) : Action Method := do
  let implementation ← bindImplementation host surroundings m.implementation
  let returns ← bindCheck? host surroundings m.returns
  return ⟨m.name, implementation, m.visibility, m.classOnly, returns, m.pre, m.post, m.epoch⟩

def bindMixin (m : GuardedOf Reference Expr) : Action Mixin :=
  return ⟨← lookUp host surroundings m.target, m.guard⟩

def bindFilter (f : GuardedOf Expr Expr) : Action Filter :=
  return ⟨← textOf host surroundings f.target, f.guard⟩

end DynamicObjects.Script
