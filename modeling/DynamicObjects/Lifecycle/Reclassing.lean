import DynamicObjects.Interception.Upkeep

/-!
# Changing the class of an object

Objects stay objects and classes stay classes: a class needs a metaclass, any other object needs a class that is none.
-/
namespace DynamicObjects.Lifecycle

def changeClass (h cls : Handle) : Update Unit := do
  let o ← Update.object h
  let reject (fault : String → String → ReclassFault) : Update Unit := do
    throw (.reclass (fault (← Update.nameOf h) (← Update.nameOf cls)))
  unless (← get).isClass cls do throw (.reclass (.notClass (← Update.nameOf cls)))
  let toMetaclass ← Update.isMetaclass cls
  if o.isClass && !toMetaclass then reject .classToObject
  if !o.isClass && toMetaclass then reject .objectToClass
  if o.cls = cls then return ()
  Update.changeObjects (·.modifyClass o.cls fun c => { c with instances := c.instances.erase h })
  Update.changeClass cls fun c => { c with instances := c.instances.insert h }
  Update.changeObject h ({ · with cls })
  Interception.forgetOrdersOf h

end DynamicObjects.Lifecycle
