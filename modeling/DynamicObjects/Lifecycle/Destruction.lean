import DynamicObjects.Hierarchy.Superclasses
import DynamicObjects.Interception.Registration
import DynamicObjects.Invocation.Search

/-!
# Destruction

The system's destroy method runs once, then the object is unlinked from everything that mentions it. Its slot is
reclaimed at once, or when the last frame that holds the object closes.
-/
namespace DynamicObjects.Lifecycle

/-- Whether an object has an implementation of a method in its mixins, of its own or along its class order. -/
def implements (h : Handle) (name : String) : Update Bool := do
  let mixins ← Interception.mixinOrder h
  let objects := (← get).objects
  let inMixin := mixins.any fun m => (objects.class? m.target).any (·.methods.contains name)
  if inMixin then return true
  return (← Invocation.searchObject h name).isSome

/-- Moves an instance to another class. -/
def moveInstance (fallback h : Handle) : Update Unit := do
  Update.changeObjects (·.modify h ({ · with cls := fallback }))
  Update.changeClass fallback fun c => { c with instances := c.instances.insert h }
  Interception.forgetOrdersOf h

/-- Takes a subclass off a class; one left without superclasses gets a root class. -/
def detachSubclass (cls : Handle) (system : ObjectSystem) (sub : Handle) : Update Unit := do
  let root ← Hierarchy.defaultSuperclass sub system
  Update.changeObjects (Hierarchy.unlink · sub cls)
  if ((← get).objects.class? sub).any (·.supers.isEmpty) then
    Update.changeObjects (Hierarchy.link · sub root)

/-- Takes a mixin class off an object that uses it. -/
def dropObjectMixin (cls user : Handle) : Update Unit := do
  Update.changeObjects (·.modify user fun o =>
    { o with registrations := { o.registrations with
        mixins := o.registrations.mixins.filter (·.target ≠ cls) } })
  Interception.forgetOrdersOf user

/-- Takes a mixin class off a class that uses it. -/
def dropClassMixin (cls user : Handle) : Update Unit := do
  Update.changeObjects (·.modifyClass user fun c =>
    { c with registrations := { c.registrations with
        mixins := c.registrations.mixins.filter (·.target ≠ cls) } })
  Interception.forgetDependents user

/-- Takes a user off the users of some mixin classes. -/
def forgetUser (reach : Reach) (user : Handle) (mixins : List Mixin) : Update Unit :=
  mixins.forM fun m =>
    Update.changeObjects (·.modifyClass m.target (·.mapUsers reach (·.filter (· ≠ user))))

/-- Unlinks the class part: instances and bereft subclasses go to the root classes, and all registrations that name the
class are dropped. -/
def unlinkClass (cls : Handle) : Update Unit := do
  let system ← Update.systemOf cls
  let fallback ← Hierarchy.defaultSuperclass cls system
  let dependents := Hierarchy.dependentSubclasses (← get).objects cls
  let part ← Update.classPart cls
  (part.instances.erase cls).toList.forM (moveInstance fallback)
  Update.changeObjects (·.modifyClass cls ({ · with instances := .empty }))
  part.subs.forM (detachSubclass cls system)
  part.supers.forM fun sup => Update.changeObjects (Hierarchy.unlink · cls sup)
  part.objectUsers.forM (dropObjectMixin cls)
  part.classUsers.forM (dropClassMixin cls)
  forgetUser .instances cls part.registrations.mixins
  Interception.trackFilters cls part.registrations.filters []
  Update.changeObjects (Hierarchy.forgetOrders · dependents)
  Interception.forgetAffected dependents

/-- Unlinks an object and reclaims its slot unless a frame holds it. -/
def unlink (h : Handle) : Update Unit := do
  Update.changeObject h ({ · with duringDelete := true })
  if (← get).isClass h then unlinkClass h
  let o ← Update.object h
  modify fun w => { w with
    names := if w.names.get? o.name = some h then w.names.erase o.name else w.names
    registry := w.registry.filter fun _ r => r.owner ≠ some h }
  forgetUser .object h o.registrations.mixins
  Interception.trackFilters h o.registrations.filters []
  Update.changeObjects (·.modifyClass o.cls fun c => { c with instances := c.instances.erase h })
  Update.changeObject h fun o => { o.withoutOrders with deleted := true }
  if o.holders = 0 then Update.changeObjects (·.release h)

/-- Runs the system's destroy method, if the object has one. -/
def callDestroy (host : Host) (h : Handle) : Action (Except Failure Unit) := do
  Update.changeObject h ({ · with destroyCalled := true })
  match (← Update.systemOf h).methods.destroy with
  | none => return .ok ()
  | some destroy =>
    if ← implements h destroy then
      let outcome ← Action.settle (host.call h destroy [] { ignorePermissions := true, noUnknown := true })
      return outcome.map fun _ => ()
    else return .ok ()

/-- Whether nothing is left to unlink. -/
def isGone (w : World) (h : Handle) : Bool :=
  (w.objects.get? h).all fun o => o.duringDelete || o.deleted

/-- Destroys an object. A failing destroy method does not keep it alive; the failure is reported afterwards. -/
def destroy (host : Host) (h : Handle) : Action Unit := do
  let o ← Update.object h
  if o.isRoot then throw (.structural (.rootDestruction o.name))
  if o.duringDelete then return ()
  let outcome ← if o.destroyCalled then pure (.ok ()) else callDestroy host h
  unless isGone (← get) h do unlink h
  Action.resume outcome

end DynamicObjects.Lifecycle
