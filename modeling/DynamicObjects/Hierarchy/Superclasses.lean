import DynamicObjects.Hierarchy.Links
import DynamicObjects.Interception.Upkeep

/-!
# Changing superclasses

The superclasses of a class can be replaced as a whole. A list that is refused changes no link; one that would close a
cycle is tried, and the former links and kept orders are put back.
-/
namespace DynamicObjects.Hierarchy

/-- No superclasses means the root class, or the root metaclass for a metaclass. -/
def defaultSuperclass (cls : Handle) (system : ObjectSystem) : Update Handle :=
  return if ← Update.isMetaclass cls then system.rootMetaclass else system.rootClass

/-- A superclass has to be a class of the same system. -/
def requireSuperclass (name : String) (system : Nat) (sup : Handle) : Update Unit := do
  unless (← get).isClass sup do
    throw (.structural (.superclassNotClass (← Update.nameOf sup) name))
  unless (← Update.object sup).system = system do
    throw (.structural (.foreignSuperclass (← Update.nameOf sup) name))

/-- No superclass may be an ancestor of one behind it, or stand twice. -/
def requireDependenceOrder (name : String) : List Handle → Update Unit
  | [] => return ()
  | earlier :: rest => do
    for later in rest do
      if (← Update.precedenceOrder later).contains earlier then
        throw (.structural (.superclassOrder name (← Update.nameOf earlier) (← Update.nameOf later)))
    requireDependenceOrder name rest

/-- Computes the orders of some classes, up to the first that has none. -/
def computeOrders (objects : Objects) : List Handle → Option Defect × Objects
  | [] => (none, objects)
  | c :: rest =>
    match precedenceOrder objects c with
    | .ok (_, objects) => computeOrders objects rest
    | .error defect => (some defect, objects)

/-- Keeps again the orders that some classes had before. -/
def restoreOrders (before objects : Objects) (classes : List Handle) : Objects :=
  classes.foldl (fun objects c =>
    objects.modifyClass c fun p => { p with order := before.cachedOrder? c }) objects

/-- Links a class to new superclasses and computes the orders of its dependents. If one of them has none, the links and
orders are put back. -/
def replaceSuperclasses (objects : Objects) (cls : Handle) (old new dependents : List Handle) :
    Option Defect × Objects :=
  match computeOrders (forgetOrders (relink objects cls old new) dependents) dependents with
  | (none, changed) => (none, changed)
  | (some defect, changed) => (some defect, restoreOrders objects (relink changed cls new old) dependents)

/-- Replaces the superclasses of a class. -/
def setSuperclasses (cls : Handle) (supers : List Handle) : Update Unit := do
  let o ← Update.object cls
  if o.isRoot then throw (.structural (.fixedSuperclasses o.name))
  let system ← Update.systemOf cls
  let old := (← Update.classPart cls).supers
  let new ← if supers.isEmpty then pure [← defaultSuperclass cls system] else pure supers
  new.forM (requireSuperclass o.name o.system)
  requireDependenceOrder o.name new
  let before := (← get).objects
  let dependents := dependentSubclasses before cls
  let (defect, objects) := replaceSuperclasses before cls old new dependents
  modify fun w => { w with objects }
  match defect with
  | none => Interception.forgetAffected dependents
  | some defect => throw (.structural defect)

end DynamicObjects.Hierarchy
