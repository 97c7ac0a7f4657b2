import DynamicObjects.Definition.Registry

/-!
# Names

Every live object has an absolute name of its own. Automatic names count up under a common start.
-/
namespace DynamicObjects.Lifecycle

def objectNamed? (w : World) (name : String) : Option Handle :=
  w.names.get? (Definition.qualify name)

/-- The absolute form of a name that nothing has yet. -/
def claimName (name : String) : Update String := do
  let name := Definition.qualify name
  if (← get).names.contains name then throw (.structural (.nameTaken name))
  return name

/-- The next automatic name under a start. -/
def autoname (start : String) : Update String :=
  modifyGet fun w =>
    let n := (w.nameCounters.get? start).getD 0
    ("::" ++ start ++ "::__#" ++ toString n, { w with nameCounters := w.nameCounters.insert start (n + 1) })

/-- The start of the names of objects that were given none. -/
def anonymousStart : String :=
  "treenx"

/-- The next automatic name that nothing has, among at most `tries`. -/
def firstFree : Nat → Update String
  | 0 => autoname anonymousStart
  | tries + 1 => do
    let name ← autoname anonymousStart
    if (← get).names.contains name then firstFree tries else return name

/-- A name for an object that was given none. One more try than there are names finds it. -/
def freshName : Update String := do
  firstFree (← get).names.size

end DynamicObjects.Lifecycle
