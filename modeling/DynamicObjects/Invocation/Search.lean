import DynamicObjects.Definition.Registry
import DynamicObjects.Interception.FilterOrder
import DynamicObjects.Invocation.Position

/-!
# Searching methods

Searches along filters, mixins, own methods and classes. Private methods are passed over, except in the namespace of
the running method and under a path. A method found comes with its defining class, or none for an object's own.

Guards run in frames of their own. While a guard runs there are no filters and no further guards.
-/
namespace DynamicObjects.Invocation

abbrev Found := Method × Option Handle

/-- A method that was found for a call. -/
structure Resolved where
  method : Method
  /-- The defining class, or none for an object's own method and for a command. -/
  definer : Option Handle
  kind : FrameKind
  /-- The name it was found under; for a filter, the name of the filter. -/
  name : String
  pushedFilterPosition : Bool := false
  pushedMixinPosition : Bool := false

/-- Runs a guard for a call of `name` on `h`. -/
def evalGuard (host : Host) (h : Handle) (name : String) (guard : Predicate) : Action Bool := do
  modify fun w => { w with
    stack := w.stack.push { object := h, methodName := name, isGuard := true }
    guardDepth := w.guardDepth + 1 }
  let outcome ← Action.settle (host.eval .none guard.test)
  modify fun w => { w with stack := w.stack.pop, guardDepth := w.guardDepth - 1 }
  match outcome with
  | .ok value => return value.truthy
  | .error f => throw (.guard (← Update.nameOf h) name guard.source f.message)

/-- Whether a guard, if there is one, lets a call pass. -/
def passes (host : Host) (h : Handle) (name : String) : Option Predicate → Action Bool
  | some guard => evalGuard host h name guard
  | none => return true

/-- The first filter that can run on `h`. -/
def searchFilters (host : Host) (h : Handle) (isClass : Bool) : List FilterEntry → Action (Option FilterEntry)
  | [] => return none
  | entry :: rest => do
    if entry.method.isPrivate || (entry.method.classOnly && !isClass) then
      searchFilters host h isClass rest
    else if ← passes host h entry.name entry.guard then return some entry
    else searchFilters host h isClass rest

/-- The first mixin that defines `name` and whose guard passes. -/
def searchMixins (host : Host) (h : Handle) (name : String) : List Mixin → Action (Option (Handle × Method))
  | [] => return none
  | m :: rest => do
    let w ← get
    match ((w.objects.class? m.target).bind (·.methods.get? name)).filter (!·.isPrivate) with
    | none => searchMixins host h name rest
    | some method =>
      if ← passes host h name (if w.guardDepth = 0 then m.guard else none) then return some (m.target, method)
      else searchMixins host h name rest

/-- The first method of this name along some classes. -/
def searchClasses (name : String) : List Handle → Update (Option Found)
  | [] => return none
  | c :: rest => do
    match ((← Update.classPart c).methods.get? name).filter (!·.isPrivate) with
    | some method => return some (method, some c)
    | none => searchClasses name rest

/-- Searches the order of a class behind `after`, or from its start. -/
def searchClassOrder (cls : Handle) (name : String) (after : Option Handle) : Update (Option Found) := do
  let order ← Update.precedenceOrder cls
  searchClasses name (order.drop (indexAfter order after (· == ·)))

/-- An object's own method, if it is not private. -/
def ownMethod? (o : Object) (name : String) : Option Method :=
  (o.methods.get? name).filter (!·.isPrivate)

/-- An object's own methods, then its class order. -/
def searchObject (h : Handle) (name : String) : Update (Option Found) := do
  let o ← Update.object h
  match ownMethod? o name with
  | some method => return some (method, none)
  | none => searchClassOrder o.cls name none

/-- The namespace of the running method: the class that defines it, or the receiver's own methods. -/
def searchNamespace (h : Handle) (name : String) : Update (Option Found) := do
  match (← get).stack.active?.bind (·.definer) with
  | some c => return ((← Update.classPart c).methods.get? name).map fun method => (method, some c)
  | none => return ((← Update.object h).methods.get? name).map fun method => (method, none)

/-- The root class of the receiver's system. -/
def searchSystem (h : Handle) (name : String) : Update (Option Found) := do
  let root := (← Update.systemOf h).rootClass
  return ((← Update.classPart root).methods.get? name).map fun method => (method, some root)

/-- The registry. Commands have no defining class. -/
def searchRegistry (w : World) (path : String) : Option Found :=
  (w.registry.get? path).map fun r => (r.method, if r.perObject then none else r.owner)

/-- Whether the running method may call a method on `h`. -/
def permitted (w : World) (h : Handle) (method : Method) : Bool :=
  (!method.classOnly || w.isClass h) &&
    match method.visibility with
    | .everyone => true
    | .receiver => callerSelf? w == some h
    | .hidden => false

/-- Whether a mixin or filter takes part in a call of a simple name. -/
def interceptable (name : String) (mods : CallModifiers) : Bool :=
  !Definition.isQualified name && !(mods.localOnly || mods.systemOnly || mods.intrinsicOnly)

/-- Calls from inside an active filter of the receiver are not filtered. -/
def insideFilterOf (w : World) (h : Handle) : Bool :=
  w.stack.active?.any fun f => f.object == h && f.kind == .filter true

/-- The filter a call starts with, if any. -/
def firstFilter (host : Host) (h : Handle) : Action (Option FilterEntry) := do
  let w ← get
  if w.settings.filtersEnabled && w.guardDepth == 0 && !insideFilterOf w h then
    let order ← Interception.filterOrder h
    searchFilters host h ((← get).isClass h) order
  else return none

/-- The method a call reaches when no filter and no mixin takes part. -/
def resolvePlain (h : Handle) (name : String) (mods : CallModifiers) : Update (Option Resolved) := do
  let found ←
    if Definition.isQualified name then pure (searchRegistry (← get) name)
    else if mods.localOnly then searchNamespace h name
    else if mods.systemOnly then searchSystem h name
    else searchObject h name
  match found with
  | none => return none
  | some (method, definer) =>
    let exempt := Definition.isQualified name || mods.localOnly || mods.ignorePermissions
    if !exempt && !permitted (← get) h method then return none
    return some { method, definer, kind := .plain, name }

/-- The method a call reaches when no filter takes part. -/
def resolveUnfiltered (host : Host) (h : Handle) (name : String) (mods : CallModifiers) (mixins : List Mixin) :
    Action (Option Resolved) := do
  match ← searchMixins host h name mixins with
  | some (c, method) =>
    if !mods.ignorePermissions && !permitted (← get) h method then return none
    pushMixinPosition h (some c)
    return some { method, definer := some c, kind := .mixin true, name, pushedMixinPosition := true }
  | none => resolvePlain h name mods

/-- The method a call reaches: the first filter, else the first mixin that knows the name, else the object's own
method or that of a class. Positions are pushed for what is found and for nothing else. The filter chain ends in the
mixin chain, so a filter comes with a mixin position that has not started. -/
def resolve (host : Host) (h : Handle) (name : String) (mods : CallModifiers) : Action (Option Resolved) := do
  if !interceptable name mods then return ← resolvePlain h name mods
  let filter ← firstFilter host h
  let mixins ← Interception.mixinOrder h
  match filter with
  | some entry =>
    pushFilterPosition h ⟨some entry.key, name⟩
    if !mixins.isEmpty then pushMixinPosition h none
    return some {
      method := entry.method, definer := entry.definer, kind := .filter true, name := entry.name,
      pushedFilterPosition := true, pushedMixinPosition := !mixins.isEmpty }
  | none => resolveUnfiltered host h name mods mixins

end DynamicObjects.Invocation
