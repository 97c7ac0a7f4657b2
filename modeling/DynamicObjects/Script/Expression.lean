import DynamicObjects.Method.Definition
import DynamicObjects.Settings
import DynamicObjects.Value

/-!
# Expressions

The language of method bodies, predicates and sessions. An expression reads its surroundings, computes, or is a step
that changes the world; every step is an expression whose value is the step's result.

Steps on one object come in families by what they take besides the object.
-/
namespace DynamicObjects

/-- A way to name an object. -/
inductive ReferenceOf (code : Type) where
  | handle (h : Handle)
  /-- An object bound to a key earlier in the session. -/
  | key (key : String)
  | name (name : String)
  | computed (body : code)
  deriving Inhabited

/-- The names of the methods that the system calls by itself. -/
structure SystemMethodsOf (name : Type) where
  init : Option name := none
  destroy : Option name := none
  unknown : Option name := none
  default : Option name := none
  deriving DecidableEq, Repr, Inhabited

/-- Whether a registration is made for one object or for the instances of a class. -/
inductive Reach where
  | object
  | instances
  deriving DecidableEq, Repr

/-- Which checks are made for an object. -/
structure CheckOptions where
  pre : Bool := false
  post : Bool := false
  objectInvariants : Bool := false
  classInvariants : Bool := false
  deriving DecidableEq, Repr, Inhabited

def CheckOptions.all : CheckOptions :=
  ⟨true, true, true, true⟩

/-- How a call deviates from an ordinary one. -/
structure CallModifiers where
  /-- Protection and class-only restrictions are ignored. -/
  ignorePermissions : Bool := false
  /-- Nothing answers for an unknown method. -/
  noUnknown : Bool := false
  /-- The method is sought in the namespace of the running method only. -/
  localOnly : Bool := false
  /-- The method is sought in the root class of the receiver's system only. -/
  systemOnly : Bool := false
  /-- Filters and mixins do not take part. -/
  intrinsicOnly : Bool := false
  /-- An ensemble does not take the first argument as its sub-method. -/
  noArgumentShift : Bool := false
  /-- Leaf methods get a visible frame. -/
  forceFrame : Bool := false
  deriving DecidableEq, Repr, Inhabited

/-- Steps on nothing but the world or the running method. -/
inductive WorldStep where
  | systems
  | heapUse
  | currentSelf
  | currentClass
  | currentMethod
  | currentArguments
  | currentFrameKind
  | calledMethod
  | callDepth
  | context
  deriving DecidableEq, Repr

/-- Steps on one object. -/
inductive ObjectStep where
  | destroy
  | superclasses
  | subclasses
  | nameOf
  | classOf
  | isObject
  | isClass
  | isMetaclass
  | classMethodNames
  | checks
  | mixins (reach : Reach)
  | filters (reach : Reach)
  | classMixinOrder
  | filterOrder
  | precedenceOrder
  deriving DecidableEq, Repr

/-- Steps on an object and another one. -/
inductive PairStep where
  | changeClass
  | isInstanceOf
  | isType
  | removeMixin (reach : Reach)
  deriving DecidableEq, Repr

/-- Steps on an object and a name. -/
inductive NameStep where
  | removeMethod (reach : Reach)
  | resolve
  | variable
  | unsetVariable
  | removeFilter (reach : Reach)
  deriving DecidableEq, Repr

/-- Steps that list what matches an optional pattern. -/
inductive ListingStep (code : Type) where
  | instances (closure : code)
  | methodNames
  | mixinOrder
  | filterOrder (guards : code)
  | precedenceOrder (mixins root : code)

/-- Steps on two values. -/
inductive Operator where
  | add
  | compare
  | equal
  | less
  deriving DecidableEq, Repr

/-- A mixin or filter with its guard, if any. -/
structure GuardedOf (target code : Type) where
  target : target
  guard : Option (PredicateOf code)
  deriving Inhabited

/-- Steps that change definitions, registrations and settings. -/
inductive ChangeStep (code : Type) where
  | setSuperclasses (on : ReferenceOf code) (supers : List (ReferenceOf code))
  | defineMethod (reach : Reach) (on : ReferenceOf code) (method : MethodOf code (ReferenceOf code) code)
  | defineCommand (method : MethodOf code (ReferenceOf code) code) (path : code)
  | defineEnsemble (on : ReferenceOf code) (name : code) (container : ReferenceOf code)
  | keepCallerSelf (on : ReferenceOf code) (keep : code)
  | setChecks (on : ReferenceOf code) (options : CheckOptions)
  | addInvariant (reach : Reach) (on : ReferenceOf code) (predicate : PredicateOf code)
  | setVariable (on : ReferenceOf code) (name value : code)
  | configure (changes : List (Settings.Field × code))
  | setUnknownHandler (body : Option code)
  | setMixins (reach : Reach) (on : ReferenceOf code) (mixins : List (GuardedOf (ReferenceOf code) code))
  | addMixin (reach : Reach) (on : ReferenceOf code) (mixin : GuardedOf (ReferenceOf code) code)
  | setMixinGuard (reach : Reach) (on : ReferenceOf code) (mixin : GuardedOf (ReferenceOf code) code)
  | setFilters (reach : Reach) (on : ReferenceOf code) (filters : List (GuardedOf code code))
  | addFilter (reach : Reach) (on : ReferenceOf code) (filter : GuardedOf code code)
  | setFilterGuard (reach : Reach) (on : ReferenceOf code) (filter : GuardedOf code code)

inductive Expr where
  | literal (v : Value)
  | list (items : List Expr)
  | object (r : ReferenceOf Expr)
  /-- A parameter of the running scripted method. -/
  | parameter (name : String)
  /-- An argument of the running native method. -/
  | argument (i : Nat)
  | arguments
  | receiver
  | self
  /-- A variable of the current receiver. -/
  | ownVariable (name : String)
  | concat (items : List Expr)
  | sequence (steps : List Expr)
  | choose (condition yes no : Expr)
  | attempt (step : Expr)
  | fail (reason : Expr)
  | log (value : Expr)
  | operate (operator : Operator) (left right : Expr)
  | bind (r : ReferenceOf Expr) (key : String)
  | createSystem (root metaclass : Expr) (methods : SystemMethodsOf Expr)
  | createClass (name : Expr) (metaclass : ReferenceOf Expr) (supers : List (ReferenceOf Expr))
      (key : Option String)
  | createObject (name : Option Expr) (cls : ReferenceOf Expr) (arguments : Expr) (key : Option String)
  | ofWorld (step : WorldStep)
  | ofObject (step : ObjectStep) (on : ReferenceOf Expr)
  | ofPair (step : PairStep) (on other : ReferenceOf Expr)
  | ofName (step : NameStep) (on : ReferenceOf Expr) (name : Expr)
  | listing (step : ListingStep Expr) (on : ReferenceOf Expr) (pattern : Option Expr)
  | objectNamed (name : Expr)
  | autoname (start : Expr)
  | methodInfo (method : MethodOf Expr (ReferenceOf Expr) Expr)
  | parseArguments (parameters : List (ParameterOf Expr (ReferenceOf Expr))) (arguments : Expr)
  | checkValue (check : CheckOf (ReferenceOf Expr)) (value : Expr)
  | change (step : ChangeStep Expr)
  | dispatch (on : ReferenceOf Expr) (arguments method : Expr) (modifiers : CallModifiers)
  | next (arguments : Option Expr)
  deriving Inhabited

/-! ## Expressions in a program -/

abbrev Reference := ReferenceOf Expr

abbrev MethodSpec := MethodOf Expr Reference Expr

abbrev ParameterSpec := ParameterOf Expr Reference

abbrev CheckSpec := CheckOf Reference

/-! ## What a program has defined -/

abbrev Predicate := PredicateOf Expr

abbrev Check := CheckOf Handle

abbrev Parameter := ParameterOf Value Handle

abbrev ForwardTarget := ForwardTargetOf Handle

abbrev ForwardArgument := ForwardArgumentOf Value Expr

abbrev Forward := ForwardOf Value Handle Expr

abbrev Implementation := ImplementationOf Value Handle Expr

abbrev Method := MethodOf Value Handle Expr

abbrev SystemMethods := SystemMethodsOf String

/-- The predicate that is always or never met. -/
def PredicateOf.constant (b : Bool) : Predicate :=
  ⟨if b then "true" else "false", .literal (.bool b)⟩

end DynamicObjects
