import DynamicObjects.HandleSet
import DynamicObjects.Heap
import DynamicObjects.NameTable
import DynamicObjects.Script.Expression

/-!
# Objects and classes

A class is an object that has a class part. Links between objects are handles, kept at both ends.
-/
namespace DynamicObjects

/-- A mixin class with the guard under which it takes part. -/
abbrev Mixin := GuardedOf Handle Expr

/-- The name of a filter with the guard under which it runs. -/
abbrev Filter := GuardedOf String Expr

/-- One implementation in a filter order. -/
structure FilterEntry where
  name : String
  /-- The defining class, or none for a method of the object itself. -/
  definer : Option Handle
  method : Method
  guard : Option Predicate

/-- What tells the entries of a filter order apart. -/
structure FilterKey where
  definer : Option Handle
  name : String
  deriving DecidableEq, Repr

def FilterEntry.key (entry : FilterEntry) : FilterKey :=
  ⟨entry.definer, entry.name⟩

/-- Where a filtered call on an object stands. -/
structure FilterPosition where
  current : Option FilterKey
  /-- The method the caller asked for. -/
  called : String
  deriving DecidableEq, Repr

/-- What is registered on an object for itself, or on a class for its instances. -/
structure Registrations where
  mixins : List Mixin := []
  filters : List Filter := []
  invariants : List Predicate := []

structure ClassPart where
  /-- The methods of the instances. -/
  methods : NameTable Method := .empty
  /-- The direct superclasses in declared order. -/
  supers : List Handle := []
  subs : List Handle := []
  /-- The precedence order, once it is computed. -/
  order : Option (List Handle) := none
  registrations : Registrations := {}
  /-- The objects that mix in this class. -/
  objectUsers : List Handle := []
  /-- The classes that mix in this class for their instances. -/
  classUsers : List Handle := []
  instances : HandleSet := .empty

structure Object where
  name : String
  cls : Handle
  /-- The number of the object system. -/
  system : Nat
  classPart : Option ClassPart := none
  /-- The methods of this object alone. -/
  methods : NameTable Method := .empty
  vars : NameTable Value := .empty
  registrations : Registrations := {}
  checks : CheckOptions := {}
  /-- The mixin order, while it is known to be current. -/
  mixinOrder : Option (List Mixin) := none
  /-- The filter order, while it is known to be current. -/
  filterOrder : Option (List FilterEntry) := none
  /-- The mixin positions of open calls, the innermost first. -/
  mixinPositions : List (Option Handle) := []
  /-- The filter positions of open calls, the innermost first. -/
  filterPositions : List FilterPosition := []
  /-- The number of frames that hold on to this object. -/
  holders : Nat := 0
  isRootClass : Bool := false
  isRootMetaclass : Bool := false
  /-- Sub-methods of this ensemble run on behalf of the caller. -/
  keepsCallerSelf : Bool := false
  /-- The destroy method has been called. -/
  destroyCalled : Bool := false
  /-- The object is being unlinked. -/
  duringDelete : Bool := false
  /-- The object is unlinked and only waits for its last frame. -/
  deleted : Bool := false

abbrev Objects := Heap Object

namespace Object

def ofClass (name : String) (cls : Handle) (system : Nat) : Object :=
  { name, cls, system }

def newClass (name : String) (metaclass : Handle) (system : Nat) : Object :=
  { name, cls := metaclass, system, classPart := some {} }

def isClass (o : Object) : Bool :=
  o.classPart.isSome

/-- Root classes and root metaclasses are fixed. -/
def isRoot (o : Object) : Bool :=
  o.isRootClass || o.isRootMetaclass

def withoutOrders (o : Object) : Object :=
  { o with mixinOrder := none, filterOrder := none }

end Object

namespace ClassPart

/-- The objects or classes that mix in this class. -/
def users (c : ClassPart) : Reach → List Handle
  | .object => c.objectUsers
  | .instances => c.classUsers

def mapUsers (c : ClassPart) (reach : Reach) (f : List Handle → List Handle) : ClassPart :=
  match reach with
  | .object => { c with objectUsers := f c.objectUsers }
  | .instances => { c with classUsers := f c.classUsers }

end ClassPart

namespace Heap

/-- The class part of a handle that resolves to a class. -/
def class? (objects : Objects) (h : Handle) : Option ClassPart :=
  (objects.get? h).bind (·.classPart)

def modifyClass (objects : Objects) (h : Handle) (f : ClassPart → ClassPart) : Objects :=
  objects.modify h fun o => { o with classPart := o.classPart.map f }

/-- The name of an object, or the text of its handle once it is gone. -/
def nameOf (objects : Objects) (h : Handle) : String :=
  ((objects.get? h).map (·.name)).getD h.text

def supersOf (objects : Objects) (h : Handle) : List Handle :=
  ((objects.class? h).map (·.supers)).getD []

def subsOf (objects : Objects) (h : Handle) : List Handle :=
  ((objects.class? h).map (·.subs)).getD []

/-- The precedence order kept for a class. -/
def cachedOrder? (objects : Objects) (h : Handle) : Option (List Handle) :=
  (objects.class? h).bind (·.order)

end Heap

end DynamicObjects
