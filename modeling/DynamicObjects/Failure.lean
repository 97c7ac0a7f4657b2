/-!
# Failures

Why an operation refuses. Every cause is a constructor; `message` gives its wording. Objects, methods and values stand
in a failure as the texts they had when it arose.
-/
namespace DynamicObjects

/-- What is wrong with the arguments of a call. -/
inductive ArgumentFault where
  | missing (parameter : String)
  | mismatch (parameter expected value : String)
  | unknownFlag (flag valid : String)
  | ambiguousFlag (flag candidates : String)
  | missingValue (parameter : String)
  | surplus (value : String)
  deriving DecidableEq, Repr

/-- Why a change of classes, names or commands is refused, or a class cannot be used. -/
inductive Defect where
  | notClass (object : String)
  | notMetaclass (object : String)
  | nameTaken (name : String)
  | sharedRootName (name : String)
  | noSystem (system : Nat)
  | fixedSuperclasses (root : String)
  | superclassNotClass (superclass cls : String)
  | foreignSuperclass (superclass cls : String)
  | superclassOrder (cls earlier later : String)
  | cycle (cls closing : String)
  | mixinNotClass (mixin : String)
  | unqualifiedCommand (path : String)
  | aliasTargetMissing (path name : String)
  | aliasChainTooLong (name : String)
  | aliasNotResolved (name path : String)
  | rootDestruction (root : String)
  | stated (reason : String)
  deriving DecidableEq, Repr

/-- Why an object cannot change its class. -/
inductive ReclassFault where
  | notClass (object : String)
  | classToObject (cls target : String)
  | objectToClass (object target : String)
  | stated (reason : String)
  deriving DecidableEq, Repr

inductive Failure where
  | structural (defect : Defect)
  | unknown (object method : String)
  | unknownSubMethod (object path sub valid : String)
  | guard (object method expression reason : String)
  | assertion (object method expression : String)
  | returnType (object method value expected : String)
  | argument (object method : String) (fault : ArgumentFault)
  | reclass (fault : ReclassFault)
  | destroyed (object : String)
  | recursion (depth : Nat)
  | noActiveFrame (operation : String)
  | pattern (text reason : String)
  | script (reason : String)
  deriving DecidableEq, Repr

namespace ArgumentFault

def name : ArgumentFault → String
  | missing .. => "MissingRequired"
  | mismatch .. => "TypeMismatch"
  | unknownFlag .. => "UnknownFlag"
  | ambiguousFlag .. => "AmbiguousFlag"
  | missingValue .. => "MissingFlagValue"
  | surplus .. => "TooManyArguments"

def message : ArgumentFault → String
  | missing parameter => "required argument '" ++ parameter ++ "' is missing"
  | mismatch parameter expected value =>
    "expected " ++ expected ++ " but got \"" ++ value ++ "\" for parameter \"" ++ parameter ++ "\""
  | unknownFlag flag valid => "invalid non-positional argument '" ++ flag ++ "', valid are: " ++ valid
  | ambiguousFlag flag candidates =>
    "the provided argument '" ++ flag ++ "' is an abbreviation for " ++ candidates
  | missingValue parameter => "value for parameter '" ++ parameter ++ "' expected"
  | surplus value => "invalid argument '" ++ value ++ "', maybe too many arguments"

end ArgumentFault

namespace Defect

def message : Defect → String
  | notClass object => object ++ " is not a class"
  | notMetaclass object => object ++ " is not a metaclass"
  | nameTaken name => "object " ++ name ++ " already exists"
  | sharedRootName name => "root class and root metaclass both named " ++ name
  | noSystem system => "no object system " ++ toString system
  | fixedSuperclasses root => "cannot change superclasses of root class " ++ root
  | superclassNotClass superclass cls => "superclass " ++ superclass ++ " of " ++ cls ++ " is not a class"
  | foreignSuperclass superclass cls =>
    "superclass " ++ superclass ++ " of " ++ cls ++ " belongs to a different object system"
  | superclassOrder cls earlier later =>
    "superclasses of " ++ cls ++ " are not in dependence order: " ++ earlier ++ " precedes " ++ later
  | cycle cls closing =>
    "cycle in the superclass graph of class " ++ cls ++ " (detected at " ++ closing ++ ")"
  | mixinNotClass mixin => "mixin " ++ mixin ++ " is not a class"
  | unqualifiedCommand path => "command path " ++ path ++ " is not fully qualified"
  | aliasTargetMissing path name =>
    "target \"" ++ path ++ "\" of alias " ++ name ++ " apparently disappeared"
  | aliasChainTooLong name => "alias chain of " ++ name ++ " is too long"
  | aliasNotResolved name path => "alias " ++ name ++ " to " ++ path ++ " was not resolved"
  | rootDestruction root => "cannot destroy root class " ++ root
  | stated reason => reason

end Defect

namespace ReclassFault

def message : ReclassFault → String
  | notClass object => object ++ " is not a class"
  | classToObject cls target => "cannot turn class " ++ cls ++ " into an object of " ++ target
  | objectToClass object target => "cannot turn object " ++ object ++ " into a class of " ++ target
  | stated reason => reason

end ReclassFault

namespace Failure

/-- The name of the kind of failure; faulty arguments also name the fault. -/
def kind : Failure → String
  | structural _ => "Structural"
  | unknown .. => "Unknown"
  | unknownSubMethod .. => "UnknownSubMethod"
  | guard .. => "Guard"
  | assertion .. => "Assertion"
  | returnType .. => "ReturnType"
  | argument _ _ fault => "Argument." ++ fault.name
  | reclass _ => "Reclass"
  | destroyed _ => "Destroyed"
  | recursion _ => "Recursion"
  | noActiveFrame _ => "NoActiveFrame"
  | pattern .. => "Pattern"
  | script _ => "Script"

def message : Failure → String
  | structural defect => defect.message
  | unknown object method => object ++ ": unable to dispatch method '" ++ method ++ "'"
  | unknownSubMethod object path sub valid =>
    object ++ ": unable to dispatch sub-method \"" ++ sub ++ "\" of " ++ path ++ "; valid are: " ++ valid
  | guard object method expression reason =>
    object ++ " " ++ method ++ ": guard \x7b" ++ expression ++ "\x7d raised an error: " ++ reason
  | assertion object method expression =>
    object ++ ": assertion failed check: \x7b" ++ expression ++ "\x7d in proc '" ++ method ++ "'"
  | returnType object method value expected =>
    object ++ " " ++ method ++ ": result \"" ++ value ++ "\" is not of type " ++ expected
  | argument object method fault => object ++ " " ++ method ++ ": " ++ fault.message
  | reclass fault => fault.message
  | destroyed object => "object " ++ object ++ " does not exist or was destroyed"
  | recursion depth => "maximum dispatch depth of " ++ toString depth ++ " exceeded"
  | noActiveFrame operation => operation ++ ": no active method frame"
  | pattern text reason => "invalid pattern \"" ++ text ++ "\": " ++ reason
  | script reason => reason

/-- Whether no implementation answered the call. -/
def isUnknown : Failure → Bool
  | unknown .. | unknownSubMethod .. => true
  | _ => false

/-- The fault behind a failure, if it has one of its own. -/
def cause? : Failure → Option ArgumentFault
  | argument _ _ fault => some fault
  | _ => none

end Failure

end DynamicObjects
