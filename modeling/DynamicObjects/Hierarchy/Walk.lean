import DynamicObjects.Object

/-!
# Walks over links

A depth-first walk from one handle along some kind of links. Every handle is begun once; the handles are listed as they
are finished, the latest first, so that without cycles each comes before the handles behind it.
-/
namespace DynamicObjects.Hierarchy

structure Walk where
  begun : List Handle := []
  finished : List Handle := []

/-- Walks on from `h`. Handles that link further are occupied slots, so `fuel` above the number of slots suffices. -/
def walkFrom (links : Handle → List Handle) : Nat → Walk → Handle → Walk
  | 0, walk, _ => walk
  | fuel + 1, walk, h =>
    if h ∈ walk.begun then walk
    else
      let walk := (links h).foldl (walkFrom links fuel) { walk with begun := h :: walk.begun }
      { walk with finished := h :: walk.finished }

def walk (objects : Objects) (links : Handle → List Handle) (h : Handle) : Walk :=
  walkFrom links (objects.totalSlots + 1) {} h

/-- A class and its transitive subclasses, each before its own subclasses. -/
def transitiveSubclasses (objects : Objects) (cls : Handle) : List Handle :=
  (walk objects objects.subsOf cls).finished

/-- The links from a class to the classes whose instances depend on it: subclasses and classes that mix it in. -/
def dependentsOf (objects : Objects) (cls : Handle) : List Handle :=
  ((objects.class? cls).map fun c => c.subs ++ c.classUsers).getD []

/-- A class and all classes whose instances depend on it. -/
def dependentSubclasses (objects : Objects) (cls : Handle) : List Handle :=
  (walk objects (dependentsOf objects) cls).finished

/-- Whether `ancestor` is reached from `cls` along superclass links. -/
def inheritsFrom (objects : Objects) (cls ancestor : Handle) : Bool :=
  (walk objects objects.supersOf cls).finished.contains ancestor

/-- Walks along superclass links from `h`, the links of each class from last to first. `path` leads to `h` and `done`
lists what is finished. A superclass on the path closes a cycle; it is the error. -/
def seekCycle (supers : Handle → List Handle) : Nat → List Handle → List Handle → Handle →
    Except Handle (List Handle)
  | 0, _, done, _ => .ok done
  | fuel + 1, path, done, h => do
    let visit (done : List Handle) (sup : Handle) : Except Handle (List Handle) :=
      if sup ∈ h :: path then .error sup
      else if sup ∈ done then .ok done
      else seekCycle supers fuel (h :: path) done sup
    return h :: (← (supers h).reverse.foldlM visit done)

/-- The class at which a walk from `cls` first closes a cycle. -/
def cycle? (objects : Objects) (cls : Handle) : Option Handle :=
  match seekCycle objects.supersOf (objects.totalSlots + 1) [] [] cls with
  | .error closing => some closing
  | .ok _ => none

end DynamicObjects.Hierarchy
