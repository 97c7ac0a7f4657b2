import DynamicObjects.Lifecycle.Destruction
import DynamicObjects.Lifecycle.Naming

/-!
# Creation

Object systems, classes and objects. A new object is linked before its init method runs; if that fails the object is
destroyed again.
-/
namespace DynamicObjects.Lifecycle

def allocate (o : Object) : Update Handle :=
  modifyGet fun w =>
    let (h, objects) := w.objects.allocate o
    (h, { w with objects })

def giveName (name : String) (h : Handle) : Update Unit :=
  modify fun w => { w with names := w.names.insert name h }

/-- Creates a root class and a root metaclass. The root metaclass is its own instance and a subclass of the root
class. -/
def createSystem (root metaclass : String) (methods : SystemMethods) : Update (Handle × Handle) := do
  let rootName ← claimName root
  let metaName ← claimName metaclass
  if rootName = metaName then throw (.structural (.sharedRootName rootName))
  let system := (← get).systems.length
  let rootClass ← allocate (.newClass rootName default system)
  let rootMetaclass ← allocate (.newClass metaName default system)
  Update.changeObject rootClass ({ · with cls := rootMetaclass, isRootClass := true })
  Update.changeObject rootMetaclass ({ · with cls := rootMetaclass, isRootMetaclass := true })
  Update.changeObjects (Hierarchy.link · rootMetaclass rootClass)
  Update.changeClass rootMetaclass fun c =>
    { c with instances := (c.instances.insert rootClass).insert rootMetaclass }
  giveName rootName rootClass
  giveName metaName rootMetaclass
  modify fun w => { w with systems := w.systems ++ [⟨rootClass, rootMetaclass, methods⟩] }
  return (rootClass, rootMetaclass)

/-- Runs the system's init method, if the object has one. -/
def callInit (host : Host) (h : Handle) (args : List Value) : Action Unit := do
  match (← Update.systemOf h).methods.init with
  | none => return ()
  | some init =>
    unless ← implements h init do return ()
    match ← Action.settle (host.call h init args { ignorePermissions := true }) with
    | .ok _ => return ()
    | .error f =>
      let _ ← Action.settle (destroy host h)
      throw f

/-- Takes back a class whose superclasses were refused. -/
def discard (h metaclass : Handle) (name : String) : Update Unit := do
  Update.changeObjects (·.modifyClass metaclass fun c => { c with instances := c.instances.erase h })
  for sup in (← get).objects.supersOf h do
    Update.changeObjects (Hierarchy.unlink · h sup)
  modify fun w => { w with names := w.names.erase name, objects := w.objects.release h }

/-- Links an object that is allocated with its name and class. -/
def enroll (o : Object) : Update Handle := do
  let h ← allocate o
  giveName o.name h
  Update.changeClass o.cls fun c => { c with instances := c.instances.insert h }
  return h

/-- A class of a metaclass, linked but not initialised. -/
def enrollClass (name : String) (metaclass : Handle) (supers : List Handle) : Update Handle := do
  unless ← Update.isMetaclass metaclass do
    throw (.structural (.notMetaclass (← Update.nameOf metaclass)))
  let name ← claimName name
  let h ← enroll (.newClass name metaclass (← Update.object metaclass).system)
  try Hierarchy.setSuperclasses h supers
  catch f =>
    discard h metaclass name
    throw f
  return h

/-- Creates a class; without superclasses it inherits from the root class of its system. -/
def createClass (host : Host) (name : String) (metaclass : Handle) (supers : List Handle) (args : List Value) :
    Action Handle := do
  let h ← enrollClass name metaclass supers
  callInit host h args
  return h

/-- Creates an instance of a class; an instance of a metaclass is a class. -/
def createObject (host : Host) (cls : Handle) (name : Option String) (args : List Value) : Action Handle := do
  unless (← get).isClass cls do throw (.structural (.notClass (← Update.nameOf cls)))
  let name ←
    match name with
    | some name => claimName name
    | none => freshName
  if ← Update.isMetaclass cls then createClass host name cls [] args
  else
    let h ← enroll (.ofClass name cls (← Update.object cls).system)
    callInit host h args
    return h

end DynamicObjects.Lifecycle
