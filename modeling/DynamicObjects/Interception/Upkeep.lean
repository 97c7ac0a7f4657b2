import DynamicObjects.World

/-!
# Keeping orders current

Mixin and filter orders are kept on objects until something they depend on changes. A change to a class reaches the
instances and the mixing objects of every class that depends on it; a change to a method reaches whoever registers a
filter of its name.
-/
namespace DynamicObjects.Interception

/-- Forgets the orders kept on one object. -/
def forgetOrdersOf (h : Handle) : Update Unit :=
  Update.changeObjects (·.modify h Object.withoutOrders)

/-- The instances of some classes and the objects that mix them in. -/
def affectedBy (objects : Objects) (classes : List Handle) : HandleSet :=
  classes.foldl (fun found c =>
    match objects.class? c with
    | some part => (found.insertAll part.instances.toList).insertAll part.objectUsers
    | none => found) .empty

/-- Forgets the orders of all objects affected by some classes. -/
def forgetAffected (classes : List Handle) : Update Unit := do
  (affectedBy (← get).objects classes).toList.forM forgetOrdersOf

/-- Forgets the orders of all objects that depend on a class. -/
def forgetDependents (cls : Handle) : Update Unit := do
  forgetAffected (Hierarchy.dependentSubclasses (← get).objects cls)

/-- Forgets the orders in which a filter of this name may stand, now that a method of this name has changed. -/
def forgetFilterUsers (name : String) : Update Unit := do
  let users := ((← get).filterUsers.get? name).getD .empty
  users.toList.forM fun user => do
    if (← get).isClass user then forgetDependents user
    forgetOrdersOf user

/-- Takes a user off the filters it registered before and enters it for those it registers now. -/
def trackFilters (user : Handle) (old new : List Filter) : Update Unit :=
  modify fun w =>
    let drop (users : NameTable HandleSet) (f : Filter) : NameTable HandleSet :=
      match users.get? f.target with
      | some found =>
        let left := found.erase user
        if left.toList.isEmpty then users.erase f.target else users.insert f.target left
      | none => users
    let enter (users : NameTable HandleSet) (f : Filter) : NameTable HandleSet :=
      users.insert f.target (((users.get? f.target).getD .empty).insert user)
    { w with filterUsers := new.foldl enter (old.foldl drop w.filterUsers) }

end DynamicObjects.Interception
