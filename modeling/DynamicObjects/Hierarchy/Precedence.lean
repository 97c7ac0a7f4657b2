import DynamicObjects.Failure
import DynamicObjects.Hierarchy.Walk

/-!
# Precedence orders

The order in which a class and its ancestors are searched. With one superclass it is the class followed by the order of
the superclass; with several the orders of the superclasses are merged one after the other. Orders are kept in the
class parts once they are computed.
-/
namespace DynamicObjects.Hierarchy

/-- Puts a class last, taking it away from an earlier place. -/
def place (result : List Handle) (c : Handle) : List Handle :=
  result.erase c ++ [c]

/-- Whether `b` has to come before `a`: `a` is in the order kept for `b`, or the superclasses are declared so. -/
def mustPrecede (objects : Objects) (supers : List Handle) (b a : Handle) : Bool :=
  ((objects.cachedOrder? b).getD []).contains a ||
    match supers.idxOf? b, supers.idxOf? a with
    | some i, some j => i < j
    | _, _ => false

/-- Merges two orders behind `result`. Where the heads differ, the head of the first order goes first unless the other
head has to precede it. -/
def mergeTwo (precedes : Handle → Handle → Bool) (result : List Handle) :
    List Handle → List Handle → List Handle
  | [], ys => ys.foldl place result
  | x :: xs, [] => (x :: xs).foldl place result
  | x :: xs, y :: ys =>
    if x = y then mergeTwo precedes (place result x) xs ys
    else if precedes y x then mergeTwo precedes (place result y) (x :: xs) ys
    else mergeTwo precedes (place result x) xs (y :: ys)
termination_by xs ys => xs.length + ys.length

/-- Merges orders from left to right. -/
def mergeAll (precedes : Handle → Handle → Bool) : List (List Handle) → List Handle
  | [] => []
  | first :: rest => rest.foldl (mergeTwo precedes []) first

/-- The order of a class from those of its superclasses. -/
def orderFrom (objects : Objects) (cls : Handle) (supers : List Handle) (orders : List (List Handle)) :
    List Handle :=
  match orders with
  | [] => [cls]
  | [order] => cls :: order
  | _ => (mergeAll (mustPrecede objects supers) orders).foldl place [cls]

/-- The order of a class, computed without looking for cycles, and the heap that keeps it. Without cycles a `fuel`
above the number of slots suffices. -/
def computeOrder : Nat → Objects → Handle → List Handle × Objects
  | 0, objects, cls => ([cls], objects)
  | fuel + 1, objects, cls =>
    match objects.cachedOrder? cls with
    | some order => (order, objects)
    | none =>
      let supers := objects.supersOf cls
      let step (done : List (List Handle) × Objects) (sup : Handle) : List (List Handle) × Objects :=
        let (order, objects) := computeOrder fuel done.2 sup
        (done.1 ++ [order], objects)
      let (orders, objects) := supers.foldl step ([], objects)
      let order := orderFrom objects cls supers orders
      (order, objects.modifyClass cls fun c => { c with order := some order })

/-- The precedence order of a class, and the heap that keeps it. Fails for what is no class and for a class from which
a cycle is reached. -/
def precedenceOrder (objects : Objects) (cls : Handle) : Except Defect (List Handle × Objects) :=
  match objects.class? cls with
  | none => .error (.notClass (objects.nameOf cls))
  | some part =>
    match part.order with
    | some order => .ok (order, objects)
    | none =>
      match cycle? objects cls with
      | some closing => .error (.cycle (objects.nameOf cls) (objects.nameOf closing))
      | none => .ok (computeOrder (objects.totalSlots + 1) objects cls)

end DynamicObjects.Hierarchy
