import DynamicObjects.Object

/-!
# Superclass links

A link is kept at both ends. A handle that is no class is passed over at its end.
-/
namespace DynamicObjects.Hierarchy

/-- Makes `sup` the first superclass of `cls`. The link is recorded again even if it is there. -/
def link (objects : Objects) (cls sup : Handle) : Objects :=
  let objects := objects.modifyClass cls fun c => { c with supers := sup :: c.supers }
  objects.modifyClass sup fun c => { c with subs := c.subs ++ [cls] }

def isLinked (objects : Objects) (cls sup : Handle) : Bool :=
  (objects.supersOf cls).contains sup

/-- Removes one link in both directions. -/
def unlink (objects : Objects) (cls sup : Handle) : Objects :=
  let objects := objects.modifyClass cls fun c => { c with supers := c.supers.erase sup }
  objects.modifyClass sup fun c => { c with subs := c.subs.erase cls }

/-- Replaces the links to the classes in `old` by links to those in `new`, in this order. -/
def relink (objects : Objects) (cls : Handle) (old new : List Handle) : Objects :=
  let objects := old.foldl (unlink · cls ·) objects
  new.reverse.foldl (link · cls ·) objects

/-- Forgets the precedence orders of some classes. -/
def forgetOrders (objects : Objects) (classes : List Handle) : Objects :=
  classes.foldl (fun objects c => objects.modifyClass c fun p => { p with order := none }) objects

end DynamicObjects.Hierarchy
