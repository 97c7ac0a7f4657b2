import DynamicObjects.Interception.MixinOrder

/-!
# Filter orders

The implementations that run before a call on an object: those of the filters registered on its mixin classes, on
itself and along its class order. Every registration stands for all implementations of its name along the order it
resolves in; of repeated implementations the last place counts.
-/
namespace DynamicObjects.Interception

/-- The implementations of a filter along the order of a class. -/
def classImplementations (cls : Handle) (name : String) : Update (List FilterEntry) := do
  (← Update.precedenceOrder cls).foldlM (fun found c => do
    match (← Update.classPart c).methods.get? name with
    | some method => return found ++ [⟨name, some c, method, none⟩]
    | none => return found) []

/-- The object's own implementation of a filter, then those along its class order. -/
def objectImplementations (h : Handle) (name : String) : Update (List FilterEntry) := do
  let o ← Update.object h
  let own : List FilterEntry :=
    match o.methods.get? name with
    | some method => [⟨name, none, method, none⟩]
    | none => []
  return own ++ (← classImplementations o.cls name)

/-- The first class of a list that defines a method. -/
def firstDefiner (name : String) : List Handle → Update (Option Handle)
  | [] => return none
  | c :: rest => do
    if (← Update.classPart c).methods.contains name then return some c
    firstDefiner name rest

/-- Where a filter registered on a class resolves first. -/
def classHead (cls : Handle) (name : String) : Update (Option (Option Handle)) := do
  return (← firstDefiner name (← Update.precedenceOrder cls)).map some

/-- Where a filter registered on an object resolves first. -/
def objectHead (h : Handle) (name : String) : Update (Option (Option Handle)) := do
  let o ← Update.object h
  if o.methods.contains name then return some none
  classHead o.cls name

/-- The guard of the first guarded filter of the entry's name that resolves to the entry. -/
def guardAmong (entry : FilterEntry) (head : String → Update (Option (Option Handle))) :
    List Filter → Update (Option Predicate)
  | [] => return none
  | f :: rest => do
    if f.target == entry.name && f.guard.isSome then
      if (← head f.target) == some entry.definer then return f.guard
    guardAmong entry head rest

/-- The guard of an entry from the filters registered on some classes. -/
def guardAlong (entry : FilterEntry) : List Handle → Update (Option Predicate)
  | [] => return none
  | c :: rest => do
    match ← guardAmong entry (classHead c) (← Update.classPart c).registrations.filters with
    | some guard => return some guard
    | none => guardAlong entry rest

/-- The guard of an entry: that of the registration that resolves to it, on the mixin classes first, then on the
object, then along the class order; failing that, the guard of an entry of the same name `before` it. -/
def entryGuard (h : Handle) (entry : FilterEntry) (mixins classOrder : List Handle)
    (before : List FilterEntry) : Update (Option Predicate) := do
  match ← guardAlong entry mixins with
  | some guard => return some guard
  | none =>
  match ← guardAmong entry (objectHead h) (← Update.object h).registrations.filters with
  | some guard => return some guard
  | none =>
  match ← guardAlong entry classOrder with
  | some guard => return some guard
  | none => return (before.find? (·.name == entry.name)).bind (·.guard)

/-- Keeps the last place of each implementation and finds its guard; `before` is what is kept so far. -/
def keepLast (h : Handle) (mixins classOrder : List Handle) :
    List FilterEntry → List FilterEntry → Update (List FilterEntry)
  | before, [] => return before
  | before, entry :: later => do
    if later.any (·.key == entry.key) then keepLast h mixins classOrder before later
    else
      let guard ← entryGuard h entry mixins classOrder before
      keepLast h mixins classOrder (before ++ [{ entry with guard }]) later

/-- All implementations of the filters registered on some classes. -/
def registeredAlong (classes : List Handle) : Update (List FilterEntry) :=
  classes.foldlM (fun found c => do
    (← Update.classPart c).registrations.filters.foldlM (fun found f =>
      return found ++ (← classImplementations c f.target)) found) []

/-- The filter order of an object, from what is registered and defined now. -/
def computeFilterOrder (h : Handle) (mixins : List Handle) : Update (List FilterEntry) := do
  let o ← Update.object h
  let classOrder ← Update.precedenceOrder o.cls
  let fromMixins ← registeredAlong mixins
  let own ← o.registrations.filters.foldlM (fun found f =>
    return found ++ (← objectImplementations h f.target)) []
  let fromClasses ← registeredAlong classOrder
  keepLast h mixins classOrder [] (fromMixins ++ own ++ fromClasses)

/-- The filter order of an object, computed if it is not kept. -/
def filterOrder (h : Handle) : Update (List FilterEntry) := do
  let o ← Update.object h
  match o.filterOrder with
  | some order => return order
  | none =>
    let mixins ← mixinOrder h
    let order ← computeFilterOrder h (mixins.map (·.target))
    Update.changeObject h ({ · with filterOrder := some order })
    return order

end DynamicObjects.Interception
