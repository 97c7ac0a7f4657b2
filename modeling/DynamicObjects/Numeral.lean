/-!
# Written numbers

Which texts count as numbers: machine words, integers of any size and reals. Words are signed and fit 64 bits;
integers may group their digits with underscores after the first digit; reals need only be recognised.
-/
namespace DynamicObjects.Numeral

/-- The value of a decimal digit. Digits outside ASCII do not count. -/
def digit? (c : Char) : Option Nat :=
  if '0' ≤ c ∧ c ≤ '9' then some (c.toNat - '0'.toNat) else none

def isDigit (c : Char) : Bool :=
  (digit? c).isSome

/-- The number written by a non-empty run of digits. -/
def natural? (cs : List Char) : Option Nat :=
  if cs.isEmpty then none
  else cs.foldlM (fun n c => (digit? c).map (10 * n + ·)) 0

/-- Separates a leading sign; the flag says whether it is a minus. -/
def splitSign : List Char → Bool × List Char
  | '-' :: rest => (true, rest)
  | '+' :: rest => (false, rest)
  | cs => (false, cs)

/-- The word of this value, if it fits 64 bits. -/
def fitWord? (n : Int) : Option Int64 :=
  if Int64.minValue.toInt ≤ n ∧ n ≤ Int64.maxValue.toInt then some (Int64.ofInt n) else none

/-- A word: an optional sign, then digits, within the range of 64 bits. -/
def word? (s : String) : Option Int64 :=
  let (negative, digits) := splitSign s.toList
  (natural? digits).bind fun n => fitWord? (if negative then -n else n)

/-- Digits with underscores between or after them; the first character must be a digit. -/
def grouped? : List Char → Option Nat
  | '_' :: _ => none
  | cs => natural? (cs.filter (· ≠ '_'))

/-- A magnitude may carry one plus sign. -/
def magnitude? : List Char → Option Nat
  | '+' :: '+' :: _ => none
  | '+' :: rest => grouped? rest
  | cs => grouped? cs

/-- An integer of any size: a minus sign, if any, is not followed by a plus sign. -/
def integer? (s : String) : Option Int :=
  match s.toList with
  | '-' :: '+' :: _ => none
  | '-' :: rest => (magnitude? rest).map fun n => -(n : Int)
  | cs => (magnitude? cs).map fun n => (n : Int)

/-- An exponent part is absent, or a mark, an optional sign and at least one digit. -/
def isExponent : List Char → Bool
  | [] => true
  | c :: rest => (c == 'e' || c == 'E') && (natural? (splitSign rest).2).isSome

/-- Digits with at most one point among them, at least one digit, and an exponent part. -/
def isPositional (cs : List Char) : Bool :=
  let whole := cs.takeWhile isDigit
  match cs.dropWhile isDigit with
  | '.' :: rest =>
    !(whole ++ rest.takeWhile isDigit).isEmpty && isExponent (rest.dropWhile isDigit)
  | rest => !whole.isEmpty && isExponent rest

/-- The names of the reals that have no digits, in any letter case. -/
def specialNames : List String :=
  ["inf", "infinity", "nan"]

/-- A real: an optional sign before a special name or positional digits. -/
def isReal (s : String) : Bool :=
  let body := (splitSign s.toList).2
  specialNames.contains (String.ofList (body.map Char.toLower)) || isPositional body

end DynamicObjects.Numeral
