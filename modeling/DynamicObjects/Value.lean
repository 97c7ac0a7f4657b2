import DynamicObjects.Double
import DynamicObjects.Handle

/-!
# Values

What methods take and return. Integers come in two kinds that compare by number but are different values: words of 64
bits and integers of any size.
-/
namespace DynamicObjects

inductive Value where
  | nil
  | bool (b : Bool)
  | word (i : Int64)
  | integer (n : Int)
  | double (x : Double)
  | text (s : String)
  | object (h : Handle)
  | list (items : List Value)
  deriving Inhabited, Repr

namespace Value

/-- An integer as a word if it fits, as an integer of any size otherwise. -/
def ofInt (n : Int) : Value :=
  match Numeral.fitWord? n with
  | some i => .word i
  | none => .integer n

def ofNat (n : Nat) : Value :=
  ofInt n

def ofText? : Option String → Value
  | some s => .text s
  | none => .nil

def ofObject? : Option Handle → Value
  | some h => .object h
  | none => .nil

def texts (names : List String) : Value :=
  .list (names.map .text)

/-- The texts that count as false. -/
def falseTexts : List String :=
  ["", "0", "false", "no", "off"]

/-- The texts that are booleans. -/
def booleanTexts : List String :=
  ["0", "1", "true", "false", "yes", "no", "on", "off"]

/-- What guards, switches and conditions make of a value. -/
def truthy : Value → Bool
  | nil => false
  | bool b => b
  | word i => i != 0
  | integer n => n != 0
  | double x => x.magnitude != 0
  | text s => !falseTexts.contains s
  | object _ => true
  | list items => !items.isEmpty

def asText? : Value → Option String
  | text s => some s
  | _ => none

def asWord? : Value → Option Int64
  | word i => some i
  | integer n => Numeral.fitWord? n
  | text s => Numeral.word? s
  | _ => none

def asObject? : Value → Option Handle
  | object h => some h
  | _ => none

def isInteger : Value → Bool
  | word _ | integer _ => true
  | text s => (Numeral.word? s).isSome || (Numeral.integer? s).isSome
  | _ => false

def isNumber : Value → Bool
  | double _ => true
  | text s => Numeral.isReal s
  | v => v.isInteger

def isBoolean : Value → Bool
  | bool _ => true
  | word i => i == 0 || i == 1
  | text s => booleanTexts.contains s
  | _ => false

/-- A text that looks like a flag: a minus sign with something after it that is no number. -/
def isFlag : Value → Bool
  | text s => s.toList.head? == some '-' && 1 < s.length && !Numeral.isReal s
  | _ => false

mutual

/-- Equality of values: the kinds must agree, and doubles compare as numbers. -/
def same : Value → Value → Bool
  | nil, nil => true
  | bool a, bool b => a == b
  | word a, word b => a == b
  | integer a, integer b => a == b
  | double a, double b => a.order? b == some .eq
  | text a, text b => a == b
  | object a, object b => a == b
  | list as, list bs => sameAll as bs
  | _, _ => false

def sameAll : List Value → List Value → Bool
  | [], [] => true
  | a :: as, b :: bs => same a b && sameAll as bs
  | _, _ => false

end

instance : BEq Value := ⟨same⟩

/-- The order of numbers with numbers and of texts with texts; all else is unordered. -/
def order? : Value → Value → Option Ordering
  | word a, word b => some (compare a.toInt b.toInt)
  | integer a, integer b => some (compare a b)
  | word a, integer b => some (compare a.toInt b)
  | integer a, word b => some (compare a b.toInt)
  | double a, double b => a.order? b
  | double a, word b => a.orderInt? b.toInt
  | double a, integer b => a.orderInt? b
  | word a, double b => (b.orderInt? a.toInt).map Ordering.swap
  | integer a, double b => (b.orderInt? a).map Ordering.swap
  | text a, text b => some (compare a b)
  | _, _ => none

end Value

end DynamicObjects
