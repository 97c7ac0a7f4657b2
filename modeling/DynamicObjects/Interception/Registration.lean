import DynamicObjects.Interception.Upkeep

/-!
# Registering mixins and filters

Registrations are made on an object for itself or on a class for its instances. A mixin class knows its users, and
the users of a filter name are tracked, so that later changes find the orders they spoil.
-/
namespace DynamicObjects.Interception

def registrations (reach : Reach) (on : Handle) : Update Registrations :=
  match reach with
  | .object => return (← Update.object on).registrations
  | .instances => return (← Update.classPart on).registrations

def changeRegistrations (reach : Reach) (on : Handle) (f : Registrations → Registrations) : Update Unit :=
  match reach with
  | .object => Update.changeObject on fun o => { o with registrations := f o.registrations }
  | .instances => Update.changeClass on fun c => { c with registrations := f c.registrations }

/-- Forgets the orders that a change of registrations spoils. -/
def forgetFor (reach : Reach) (on : Handle) : Update Unit :=
  match reach with
  | .object => forgetOrdersOf on
  | .instances => forgetDependents on

/-- Enters a user of a mixin class, once. -/
def enterUser (user : Handle) (users : List Handle) : List Handle :=
  if users.contains user then users else users ++ [user]

/-- Replaces the mixins. All of them have to be classes. -/
def setMixins (reach : Reach) (on : Handle) (mixins : List Mixin) : Update Unit := do
  for m in mixins do
    unless (← get).isClass m.target do
      throw (.structural (.mixinNotClass (← Update.nameOf m.target)))
  let old := (← registrations reach on).mixins
  for m in old do
    Update.changeObjects (·.modifyClass m.target (·.mapUsers reach (·.filter (· ≠ on))))
  for m in mixins do
    Update.changeObjects (·.modifyClass m.target (·.mapUsers reach (enterUser on)))
  changeRegistrations reach on ({ · with mixins })
  forgetFor reach on

/-- Registers a mixin in front of the others; an earlier registration of the class goes. -/
def addMixin (reach : Reach) (on : Handle) (mixin : Mixin) : Update Unit := do
  let old := (← registrations reach on).mixins
  setMixins reach on (mixin :: old.filter (·.target ≠ mixin.target))

/-- Reports whether the class was registered. -/
def removeMixin (reach : Reach) (on cls : Handle) : Update Bool := do
  let old := (← registrations reach on).mixins
  let left := old.filter (·.target ≠ cls)
  if left.length = old.length then return false
  setMixins reach on left
  return true

/-- Changes the first entry of a list that meets `p`. -/
def modifyFirst {α : Type} (p : α → Bool) (f : α → α) : List α → List α
  | [] => []
  | a :: rest => if p a then f a :: rest else a :: modifyFirst p f rest

/-- What is missing when a guard is set on nothing. -/
def notRegistered (owner target : String) (reach : Reach) (what : String) : Failure :=
  match reach with
  | .object => .script (owner ++ ": " ++ target ++ " is not a " ++ what ++ " of this object")
  | .instances => .script (owner ++ ": " ++ target ++ " is not a class " ++ what)

def setMixinGuard (reach : Reach) (on cls : Handle) (guard : Option Predicate) : Update Unit := do
  let isIt (m : Mixin) : Bool := m.target == cls
  unless (← registrations reach on).mixins.any isIt do
    throw (notRegistered (← Update.nameOf on) (← Update.nameOf cls) reach "mixin")
  changeRegistrations reach on fun r =>
    { r with mixins := modifyFirst isIt ({ · with guard }) r.mixins }
  forgetFor reach on

def setFilters (reach : Reach) (on : Handle) (filters : List Filter) : Update Unit := do
  trackFilters on (← registrations reach on).filters filters
  changeRegistrations reach on ({ · with filters })
  forgetFor reach on

/-- Registers a filter in front of the others; an earlier registration of the name goes. -/
def addFilter (reach : Reach) (on : Handle) (filter : Filter) : Update Unit := do
  let old := (← registrations reach on).filters
  setFilters reach on (filter :: old.filter (·.target ≠ filter.target))

/-- Reports whether the name was registered. -/
def removeFilter (reach : Reach) (on : Handle) (name : String) : Update Bool := do
  let old := (← registrations reach on).filters
  let left := old.filter (·.target ≠ name)
  if left.length = old.length then return false
  setFilters reach on left
  return true

def setFilterGuard (reach : Reach) (on : Handle) (name : String) (guard : Option Predicate) : Update Unit := do
  let isIt (f : Filter) : Bool := f.target == name
  unless (← registrations reach on).filters.any isIt do
    throw (notRegistered (← Update.nameOf on) name reach "filter")
  changeRegistrations reach on fun r =>
    { r with filters := modifyFirst isIt ({ · with guard }) r.filters }
  forgetFor reach on

end DynamicObjects.Interception
