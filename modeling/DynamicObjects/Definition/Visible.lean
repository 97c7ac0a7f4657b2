import DynamicObjects.World

/-!
# Visible method names

The names a user of an object can be told about: the methods of the object and of its class order that are not private,
without those of the root classes.
-/
namespace DynamicObjects.Definition

/-- Adds the names of the methods that are not private. -/
def addVisible (methods : NameTable Method) (names : NameTable Unit) : NameTable Unit :=
  methods.entries.foldl (fun names (name, method) =>
    if method.isPrivate then names else names.insert name ()) names

/-- The visible method names of an object, each once, in order. -/
def visibleNames (h : Handle) : Update (List String) := do
  let o ← Update.object h
  let classes ← Update.precedenceOrder o.cls
  let names ← classes.foldlM (fun names c => do
    if (← get).isRoot c then return names
    return addVisible (← Update.classPart c).methods names) (addVisible o.methods {})
  return names.names

end DynamicObjects.Definition
