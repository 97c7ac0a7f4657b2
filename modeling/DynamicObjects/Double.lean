/-!
# Doubles

Binary floating-point numbers of 64 bits, kept as their bits. Every finite double is a whole number of the smallest
positive one, 2 ^ -1074; that count, its *position*, decides every comparison. Infinity sits at the position 2 ^ 1024,
beyond all finite doubles.
-/
namespace DynamicObjects

structure Double where
  bits : UInt64
  deriving DecidableEq, Repr, Inhabited

namespace Double

def negative (x : Double) : Bool :=
  x.bits >>> 63 == 1

def exponentField (x : Double) : Nat :=
  ((x.bits >>> 52) &&& 0x7ff).toNat

def fraction (x : Double) : Nat :=
  (x.bits &&& 0xfffffffffffff).toNat

def isNaN (x : Double) : Bool :=
  x.exponentField == 2047 && x.fraction != 0

def isInfinite (x : Double) : Bool :=
  x.exponentField == 2047 && x.fraction == 0

/-- The magnitude's leading digits, with the hidden bit of normal numbers. -/
def mantissa (x : Double) : Nat :=
  if x.exponentField = 0 then x.fraction else Nat.pow 2 52 + x.fraction

/-- The distance to the next double, in units of 2 ^ -1074. -/
def spacing (x : Double) : Nat :=
  Nat.pow 2 (x.exponentField - 1)

/-- The magnitude in units of 2 ^ -1074. -/
def magnitude (x : Double) : Nat :=
  x.mantissa * x.spacing

/-- The signed magnitude; both zeros have position zero. -/
def position (x : Double) : Int :=
  if x.negative then -x.magnitude else x.magnitude

/-- The position of infinity. -/
def infinitePosition : Nat :=
  Nat.pow 2 1024 * Nat.pow 2 1074

/-- Rounds a whole number to 53 binary digits; a half goes to the even neighbour. -/
def round53 (n : Nat) : Nat :=
  if n < Nat.pow 2 53 then n
  else
    let step := Nat.pow 2 (n.log2 - 52)
    let down := n / step
    let rest := n % step
    if step < 2 * rest ∨ (2 * rest = step ∧ down % 2 = 1) then (down + 1) * step else down * step

/-- Whether digits below the leading 64 are seen. They are searched by words of 64 digits; of each word, the lowest
digits count, as many of them as the highest word has. -/
def tailSeen (n : Nat) : Bool :=
  let width := n.log2 % 64 + 1
  (List.range (n.log2 / 64)).any fun i => n / Nat.pow 2 (64 * i) % Nat.pow 2 width != 0

/-- The leading 64 binary digits in their places; a tail that is seen makes the last of them odd, so that they do not
pass for a half when they are rounded in turn. -/
def leading (n : Nat) : Nat :=
  if n.log2 < 64 then n
  else
    let step := Nat.pow 2 (n.log2 - 63)
    let digits := n / step
    (if tailSeen n && digits % 2 == 0 then digits + 1 else digits) * step

/-- The position of the double that stands for an integer: the leading digits, rounded. It is the nearest double for
up to 128 digits, of which all are seen, and otherwise one of the two doubles around the integer. Integers beyond all
doubles go to infinity. -/
def integerPosition (n : Int) : Int :=
  let rounded : Nat := min (round53 (leading n.natAbs)) (Nat.pow 2 1024) * Nat.pow 2 1074
  if n < 0 then -(rounded : Int) else rounded

/-- The order of two doubles; a NaN is comparable to nothing. -/
def order? (x y : Double) : Option Ordering :=
  if x.isNaN || y.isNaN then none else some (compare x.position y.position)

/-- The order of a double and the double that stands for an integer. -/
def orderInt? (x : Double) (n : Int) : Option Ordering :=
  if x.isNaN then none else some (compare x.position (integerPosition n))

end Double

end DynamicObjects
