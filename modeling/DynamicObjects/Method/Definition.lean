import DynamicObjects.Method.Forward
import DynamicObjects.Method.Parameter

/-!
# Method definitions

The six kinds of implementation and what surrounds them: visibility, checks and predicates. As with parameters, one
type serves for methods in a program and for defined methods.
-/
namespace DynamicObjects

/-- A named test. Guards of mixins and filters are predicates, too. -/
structure PredicateOf (code : Type) where
  /-- The text shown in failures. -/
  source : String
  test : code
  deriving Inhabited

inductive Visibility where
  | everyone
  /-- Only calls made by the receiver itself. -/
  | receiver
  /-- Only calls in the namespace of the running method, and calls by path. -/
  | hidden
  deriving DecidableEq, Repr, Inhabited

inductive ImplementationKind where
  | scripted
  | native
  | forward
  | aliased
  | setter
  | ensemble
  deriving DecidableEq, Repr

inductive ImplementationOf (value ref code : Type) where
  | scripted (parameters : List (ParameterOf value ref)) (body : code)
  /-- A leaf runs without being visible as a frame. -/
  | native (body : code) (leaf : Bool)
  | forward (spec : ForwardOf value ref code)
  /-- Whatever is registered at the path. -/
  | aliased (path : String)
  /-- Reads or writes the variable named by the parameter. -/
  | setter (parameter : ParameterOf value ref)
  /-- Sub-methods are the methods of the container. -/
  | ensemble (container : ref)
  deriving Inhabited

structure MethodOf (value ref code : Type) where
  name : String
  implementation : ImplementationOf value ref code
  visibility : Visibility
  /-- Only receivers that are classes. -/
  classOnly : Bool
  returns : Option (CheckOf ref)
  pre : List (PredicateOf code)
  post : List (PredicateOf code)
  /-- The number of the definition; no two definitions share it. Zero before the method is defined. -/
  epoch : Nat
  deriving Inhabited

namespace Visibility

def name : Visibility → String
  | everyone => "Public"
  | receiver => "Protected"
  | hidden => "Private"

end Visibility

namespace ImplementationKind

def name : ImplementationKind → String
  | scripted => "Scripted"
  | native => "Native"
  | forward => "Forward"
  | aliased => "Alias"
  | setter => "Setter"
  | ensemble => "Ensemble"

end ImplementationKind

namespace MethodOf

variable {value ref code : Type}

def kind (m : MethodOf value ref code) : ImplementationKind :=
  match m.implementation with
  | .scripted .. => .scripted
  | .native .. => .native
  | .forward _ => .forward
  | .aliased _ => .aliased
  | .setter _ => .setter
  | .ensemble _ => .ensemble

def isPrivate (m : MethodOf value ref code) : Bool :=
  m.visibility == .hidden

/-- Whether the method runs without being visible as a frame. -/
def isLeaf (m : MethodOf value ref code) : Bool :=
  match m.implementation with
  | .native _ leaf => leaf
  | _ => false

end MethodOf

end DynamicObjects
