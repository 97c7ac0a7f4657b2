import DynamicObjects.Interception.Upkeep

/-!
# Defining methods

A method is entered in the table of its class or object and, under its path, in the registry. Every definition gets a
number of its own.
-/
namespace DynamicObjects.Definition

/-- Two colons make a name absolute. -/
def isQualified (name : String) : Bool :=
  "::".toList.isPrefixOf name.toList

def qualify (name : String) : String :=
  if isQualified name then name else "::" ++ name

/-- The registry path of an instance method. -/
def instanceMethodPath (w : World) (cls : Handle) (name : String) : String :=
  "::classes" ++ qualify (w.nameOf cls) ++ "::" ++ name

/-- The registry path of an object's own method. -/
def objectMethodPath (w : World) (h : Handle) (name : String) : String :=
  qualify (w.nameOf h) ++ "::" ++ name

def methodPath (w : World) : Reach → Handle → String → String
  | .object => objectMethodPath w
  | .instances => instanceMethodPath w

/-- The method table of an object or class. -/
def methods (reach : Reach) (on : Handle) : Update (NameTable Method) :=
  match reach with
  | .object => return (← Update.object on).methods
  | .instances => return (← Update.classPart on).methods

def changeMethods (reach : Reach) (on : Handle) (f : NameTable Method → NameTable Method) : Update Unit :=
  match reach with
  | .object => Update.changeObject on fun o => { o with methods := f o.methods }
  | .instances => Update.changeClass on fun c => { c with methods := f c.methods }

/-- The number of a new definition. -/
def nextEpoch : Update Nat :=
  modifyGet fun w => (w.epoch + 1, { w with epoch := w.epoch + 1 })

def register (path : String) (r : Registration) : Update Unit :=
  modify fun w => { w with registry := w.registry.insert path r }

/-- Defines a method, over one of the same name. -/
def defineMethod (reach : Reach) (on : Handle) (method : Method) : Update Unit := do
  let _ ← methods reach on
  let method := { method with epoch := ← nextEpoch }
  changeMethods reach on (·.insert method.name method)
  register (methodPath (← get) reach on method.name) ⟨some on, reach == .object, method⟩
  Interception.forgetFilterUsers method.name

/-- Reports whether the method was there. -/
def removeMethod (reach : Reach) (on : Handle) (name : String) : Update Bool := do
  unless (← methods reach on).contains name do return false
  changeMethods reach on (·.erase name)
  modify fun w => { w with registry := w.registry.erase (methodPath w reach on name) }
  let _ ← nextEpoch
  Interception.forgetFilterUsers name
  return true

/-- Defines a command that is reached by its path only. -/
def defineCommand (path : String) (method : Method) : Update Unit := do
  unless isQualified path do throw (.structural (.unqualifiedCommand path))
  register path ⟨none, false, { method with epoch := ← nextEpoch }⟩

/-- Defines a method whose sub-methods are the methods of a container. -/
def defineEnsemble (cls : Handle) (name : String) (container : Handle) : Update Unit := do
  let _ ← Update.object container
  defineMethod .instances cls {
    name, implementation := .ensemble container, visibility := .everyone, classOnly := false,
    returns := none, pre := [], post := [], epoch := 0 }

/-- An alias leads to what is registered at its path; the world remembers where it led. -/
def followOnce (link : Method) (path : String) : Update Method := do
  let w ← get
  match w.registry.get? path with
  | none => throw (.structural (.aliasTargetMissing path link.name))
  | some r =>
    match w.aliasTargets.lookup link.epoch with
    | some seen =>
      if seen.epoch = r.method.epoch then return seen
    | none => pure ()
    let others := w.aliasTargets.filter (·.1 ≠ link.epoch)
    set { w with aliasTargets := (link.epoch, r.method) :: others }
    return r.method

/-- Follows aliases for at most `hops` steps. -/
def follow : Nat → Method → Update Method
  | 0, method => throw (.structural (.aliasChainTooLong method.name))
  | hops + 1, method =>
    match method.implementation with
    | .aliased path => do follow hops (← followOnce method path)
    | _ => return method

/-- Chains of aliases that are not at their end within so many steps are broken. -/
def maxHops : Nat := 16

/-- The implementation behind a method. -/
def followAliases (method : Method) : Update Method :=
  follow maxHops method

end DynamicObjects.Definition
