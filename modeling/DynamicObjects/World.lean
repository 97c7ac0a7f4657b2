import DynamicObjects.Hierarchy.Precedence
import DynamicObjects.Invocation.Stack

/-!
# The world

All state of one object system run, and the two kinds of operations on it. An update runs no method and always ends;
an action may run methods and may need more depth than it is given, in which case it has no result at all. Both keep
the changes they made when they fail.
-/
namespace DynamicObjects

structure ObjectSystem where
  rootClass : Handle
  rootMetaclass : Handle
  methods : SystemMethods
  deriving DecidableEq, Repr

/-- What is registered under a command path. -/
structure Registration where
  /-- The defining object or class, or none for a command. -/
  owner : Option Handle
  perObject : Bool
  method : Method

/-- A value as it is shown: an object with the name it has at that moment. -/
inductive Observation where
  | nil
  | bool (b : Bool)
  | word (i : Int64)
  | integer (n : Int)
  | double (x : Double)
  | text (s : String)
  | object (name : String) (h : Handle)
  | list (items : List Observation)
  deriving Inhabited, Repr

structure World where
  objects : Objects := {}
  names : NameTable Handle := .empty
  systems : List ObjectSystem := []
  registry : NameTable Registration := .empty
  /-- The objects and classes that register a filter of some name. -/
  filterUsers : NameTable HandleSet := .empty
  stack : FrameStack := {}
  settings : Settings := {}
  /-- The number of open guards. -/
  guardDepth : Nat := 0
  /-- The number of open rounds of assertion checks. -/
  assertionDepth : Nat := 0
  /-- Answers calls that nothing else answers. -/
  unknownHandler : Option Expr := none
  /-- The number of the latest definition. -/
  epoch : Nat := 0
  /-- The next number of each kind of automatic names. -/
  nameCounters : NameTable Nat := .empty
  /-- For aliases, by epoch, the method they led to last. -/
  aliasTargets : List (Nat × Method) := []
  /-- The objects bound to keys. -/
  bindings : NameTable Handle := .empty
  /-- What was logged, the latest first. -/
  journal : List Observation := []

/-- An operation that runs no method. -/
abbrev Update := ExceptT Failure (StateM World)

/-- An operation that may run methods. -/
abbrev Action := ExceptT Failure (StateT World Option)

namespace Action

def ofUpdate {α : Type} (u : Update α) : Action α :=
  ExceptT.mk fun w => some (u.run w)

instance : MonadLift Update Action := ⟨ofUpdate⟩

/-- No result, for want of depth. -/
def exhausted {α : Type} : Action α :=
  ExceptT.mk fun _ => none

/-- Runs an action to its end, failed or not. -/
def settle {α : Type} (a : Action α) : Action (Except Failure α) :=
  ExceptT.mk ((fun r => .ok r) <$> a.run)

/-- Ends as a settled action did. -/
def resume {α : Type} : Except Failure α → Action α
  | .ok a => pure a
  | .error f => throw f

end Action

namespace World

/-- The object of a handle, unless it is gone or unlinked. -/
def live? (w : World) (h : Handle) : Option Object :=
  (w.objects.get? h).filter fun o => !o.deleted

def nameOf (w : World) (h : Handle) : String :=
  w.objects.nameOf h

def isObject (w : World) (h : Handle) : Bool :=
  (w.live? h).isSome

def isClass (w : World) (h : Handle) : Bool :=
  (w.live? h).any (·.isClass)

def isRoot (w : World) (h : Handle) : Bool :=
  (w.live? h).any (·.isRoot)

end World

namespace Update

def ofExcept {α : Type} (r : Except Failure α) : Update α :=
  match r with
  | .ok a => pure a
  | .error f => throw f

/-- A live object. -/
def object (h : Handle) : Update Object := do
  match (← get).live? h with
  | some o => return o
  | none => throw (.destroyed h.text)

def changeObject (h : Handle) (f : Object → Object) : Update Unit := do
  let _ ← object h
  modify fun w => { w with objects := w.objects.modify h f }

/-- The class part of a live class. -/
def classPart (h : Handle) : Update ClassPart := do
  let o ← object h
  match o.classPart with
  | some c => return c
  | none => throw (.structural (.notClass o.name))

def changeClass (h : Handle) (f : ClassPart → ClassPart) : Update Unit := do
  let _ ← classPart h
  modify fun w => { w with objects := w.objects.modifyClass h f }

/-- Changes whatever still resolves, live or not. -/
def changeObjects (f : Objects → Objects) : Update Unit :=
  modify fun w => { w with objects := f w.objects }

/-- The system of a live object. -/
def systemOf (h : Handle) : Update ObjectSystem := do
  let o ← object h
  match (← get).systems[o.system]? with
  | some s => return s
  | none => throw (.structural (.noSystem o.system))

def nameOf (h : Handle) : Update String :=
  return (← get).nameOf h

/-- Whether a live class inherits from the root metaclass of its system. -/
def isMetaclass (h : Handle) : Update Bool := do
  let w ← get
  match (w.live? h).bind fun o => w.systems[o.system]? with
  | some system => return w.isClass h && Hierarchy.inheritsFrom w.objects h system.rootMetaclass
  | none => return false

/-- The precedence order of a live class. -/
def precedenceOrder (cls : Handle) : Update (List Handle) := do
  let _ ← classPart cls
  match Hierarchy.precedenceOrder (← get).objects cls with
  | .ok (order, objects) =>
    modify fun w => { w with objects }
    return order
  | .error defect => throw (.structural defect)

end Update

end DynamicObjects
