import DynamicObjects.Definition.Visible
import DynamicObjects.Glob.Coverage
import DynamicObjects.Invocation.Search
import DynamicObjects.Text.Quoted

/-!
# Inspection

What can be asked about objects, classes, methods and orders. Listings may be narrowed by a pattern, which is read
before anything else.
-/
namespace DynamicObjects.Inspection

/-- Reads an optional pattern. -/
def readPattern : Option String → Update (Option Glob)
  | none => return none
  | some pattern =>
    match Glob.read pattern with
    | .ok glob => return some glob
    | .error e => throw (.pattern pattern e.message)

/-- Whether a pattern, if there is one, accepts one of some texts. -/
def isListed (pattern : Option Glob) (texts : List String) : Bool :=
  pattern.all fun glob => texts.any glob.accepts

/-- The instances of a class, with `closure` also those of its subclasses. -/
def instances (cls : Handle) (pattern : Option String) (closure : Bool) : Update (List Handle) := do
  let pattern ← readPattern pattern
  let _ ← Update.classPart cls
  let w ← get
  let classes := if closure then Hierarchy.transitiveSubclasses w.objects cls else [cls]
  let add (found : HandleSet) (c : Handle) : HandleSet :=
    match w.objects.class? c with
    | some part => found.insertAll part.instances.toList
    | none => found
  return (classes.foldl add .empty).toList.filter fun h => isListed pattern [w.nameOf h]

/-- Whether a class is in the class order or in the mixin order of an object. -/
def isType (h cls : Handle) : Update Bool := do
  let o ← Update.object h
  if (← Update.precedenceOrder o.cls).contains cls then return true
  return (← Interception.mixinOrder h).any (·.target == cls)

def methodNames (h : Handle) (pattern : Option String) : Update (List String) := do
  let pattern ← readPattern pattern
  return (← Definition.visibleNames h).filter fun name => isListed pattern [name]

/-- Where a method name leads. -/
structure MethodHandle where
  definer : String
  kind : ImplementationKind
  path : String
  perObject : Bool
  deriving DecidableEq, Repr

/-- Where a method name leads on an object when no filter and no mixin takes part. -/
def methodHandle? (h : Handle) (name : String) : Update (Option MethodHandle) := do
  let w ← get
  if Definition.isQualified name then
    return (w.registry.get? name).map fun r =>
      ⟨(r.owner.map w.nameOf).getD "", r.method.kind, name, r.perObject⟩
  match ← Invocation.searchObject h name with
  | none => return none
  | some (method, some c) =>
    return some ⟨w.nameOf c, method.kind, Definition.instanceMethodPath w c name, false⟩
  | some (method, none) =>
    return some ⟨w.nameOf h, method.kind, Definition.objectMethodPath w h name, true⟩

/-- An entry of a mixin or filter order: its name, and the text of its guard. -/
abbrev OrderEntry := String × Option String

def mixinEntries (h : Handle) (pattern : Option String) : Update (List OrderEntry) := do
  let pattern ← readPattern pattern
  let order ← Interception.mixinOrder h
  let w ← get
  let entries := order.map fun m => (w.nameOf m.target, m.guard.map (·.source))
  return entries.filter fun entry => isListed pattern [entry.1]

/-- The filter order as method paths. A pattern may accept the path or the name alone. -/
def filterEntries (h : Handle) (pattern : Option String) (guards : Bool) : Update (List OrderEntry) := do
  let pattern ← readPattern pattern
  let order ← Interception.filterOrder h
  let w ← get
  let path (entry : FilterEntry) : String :=
    match entry.definer with
    | some c => Definition.instanceMethodPath w c entry.name
    | none => Definition.objectMethodPath w h entry.name
  let listed := order.filter fun entry => isListed pattern [entry.name, path entry]
  return listed.map fun entry => (path entry, if guards then entry.guard.map (·.source) else none)

/-- The precedence order of a class, on request behind the mixins of its instances and with the root classes. -/
def precedence (cls : Handle) (pattern : Option String) (mixins roots : Bool) : Update (List Handle) := do
  let pattern ← readPattern pattern
  let first ← if mixins then Interception.classMixinOrder cls else pure []
  let classes := first ++ (← Update.precedenceOrder cls)
  let w ← get
  return classes.filter fun c => (roots || !w.isRoot c) && isListed pattern [w.nameOf c]

/-- A method's outline on one line. -/
def outline (m : Method) : String :=
  "Method \x7b name: " ++ Quoted.encode m.name ++ ", kind: " ++ m.kind.name ++ ", visibility: " ++
    m.visibility.name ++ ", class_only: " ++ toString m.classOnly ++ ", epoch: " ++ toString m.epoch ++ " \x7d"

end DynamicObjects.Inspection
