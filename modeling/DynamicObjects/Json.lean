/-!
# JSON text

A reader of JSON texts that keeps what settings need: numbers keep their spelling, and a string whose escapes do not
form characters is kept as unreadable, since only strings that matter have to be readable.
-/
namespace DynamicObjects

inductive Json where
  | null
  | bool (b : Bool)
  | number (literal : String)
  | string (readable : Option String)
  | array (items : List Json)
  | object (members : List (Option String × Json))
  deriving Inhabited, Repr

namespace Json

inductive Token where
  | openArray
  | closeArray
  | openObject
  | closeObject
  | comma
  | colon
  | null
  | bool (b : Bool)
  | number (literal : String)
  | string (readable : Option String)
  deriving DecidableEq, Repr

def isBlank (c : Char) : Bool :=
  c == ' ' || c == '\t' || c == '\n' || c == '\r'

def isDecimal (c : Char) : Bool :=
  '0' ≤ c && c ≤ '9'

def hexDigit? (c : Char) : Option Nat :=
  if isDecimal c then some (c.toNat - '0'.toNat)
  else if 'a' ≤ c ∧ c ≤ 'f' then some (c.toNat - 'a'.toNat + 10)
  else if 'A' ≤ c ∧ c ≤ 'F' then some (c.toNat - 'A'.toNat + 10)
  else none

/-- One unit of a string: a character, or half of a pair of escapes. -/
inductive StringUnit where
  | char (c : Char)
  | half (code : Nat)
  deriving DecidableEq, Repr

/-- The unit of a four-digit escape. -/
def escapedUnit (code : Nat) : StringUnit :=
  if 0xd800 ≤ code ∧ code < 0xe000 then .half code else .char (Char.ofNat code)

/-- The character behind a backslash followed by one letter. -/
def shortEscape? : Char → Option Char
  | '"' => some '"'
  | '\\' => some '\\'
  | '/' => some '/'
  | 'b' => some '\x08'
  | 'f' => some '\x0c'
  | 'n' => some '\n'
  | 'r' => some '\r'
  | 't' => some '\t'
  | _ => none

/-- The units of a string behind its opening quote, and the text behind its closing quote. -/
def readUnits : List Char → Option (List StringUnit × List Char)
  | '"' :: rest => some ([], rest)
  | '\\' :: 'u' :: a :: b :: c :: d :: rest => do
    let code := ((← hexDigit? a) * 16 + (← hexDigit? b)) * 256 + (← hexDigit? c) * 16 + (← hexDigit? d)
    let (units, after) ← readUnits rest
    return (escapedUnit code :: units, after)
  | '\\' :: c :: rest => do
    let escaped ← shortEscape? c
    let (units, after) ← readUnits rest
    return (.char escaped :: units, after)
  | c :: rest =>
    if c < ' ' then none
    else do
      let (units, after) ← readUnits rest
      return (.char c :: units, after)
  | [] => none

/-- Joins the halves of pairs; a half without its partner makes the string unreadable. -/
def joinUnits : List StringUnit → Option (List Char)
  | [] => some []
  | .char c :: rest => (c :: ·) <$> joinUnits rest
  | .half high :: .half low :: rest =>
    if high < 0xdc00 ∧ 0xdc00 ≤ low then
      (Char.ofNat (0x10000 + (high - 0xd800) * 0x400 + (low - 0xdc00)) :: ·) <$> joinUnits rest
    else none
  | .half _ :: _ => none

/-- The whole part of a number: one zero, or digits that do not start with zero. -/
def readWhole : List Char → Option (List Char × List Char)
  | '0' :: rest => some (['0'], rest)
  | c :: rest =>
    if isDecimal c then some (c :: rest.takeWhile isDecimal, rest.dropWhile isDecimal) else none
  | [] => none

/-- At least one digit. -/
def readDigits (cs : List Char) : Option (List Char × List Char) :=
  let digits := cs.takeWhile isDecimal
  if digits.isEmpty then none else some (digits, cs.dropWhile isDecimal)

/-- A fraction, if there is one. -/
def readFraction : List Char → Option (List Char × List Char)
  | '.' :: rest => (readDigits rest).map fun (digits, after) => ('.' :: digits, after)
  | cs => some ([], cs)

/-- An exponent, if there is one. -/
def readExponent : List Char → Option (List Char × List Char)
  | c :: rest =>
    if c = 'e' ∨ c = 'E' then
      match rest with
      | '+' :: digits => (readDigits digits).map fun (ds, after) => (c :: '+' :: ds, after)
      | '-' :: digits => (readDigits digits).map fun (ds, after) => (c :: '-' :: ds, after)
      | digits => (readDigits digits).map fun (ds, after) => (c :: ds, after)
    else some ([], c :: rest)
  | [] => some ([], [])

/-- A number behind its sign. -/
def readMagnitude (cs : List Char) : Option (List Char × List Char) := do
  let (whole, cs) ← readWhole cs
  let (fraction, cs) ← readFraction cs
  let (exponent, cs) ← readExponent cs
  return (whole ++ fraction ++ exponent, cs)

/-- One token and the text behind it. The text starts with no blank. -/
def readToken : List Char → Option (Token × List Char)
  | '[' :: rest => some (.openArray, rest)
  | ']' :: rest => some (.closeArray, rest)
  | '\x7b' :: rest => some (.openObject, rest)
  | '\x7d' :: rest => some (.closeObject, rest)
  | ',' :: rest => some (.comma, rest)
  | ':' :: rest => some (.colon, rest)
  | 'n' :: 'u' :: 'l' :: 'l' :: rest => some (.null, rest)
  | 't' :: 'r' :: 'u' :: 'e' :: rest => some (.bool true, rest)
  | 'f' :: 'a' :: 'l' :: 's' :: 'e' :: rest => some (.bool false, rest)
  | '"' :: rest =>
    (readUnits rest).map fun (units, after) => (.string ((joinUnits units).map String.ofList), after)
  | '-' :: rest =>
    (readMagnitude rest).map fun (literal, after) => (.number (String.ofList ('-' :: literal)), after)
  | cs => (readMagnitude cs).map fun (literal, after) => (.number (String.ofList literal), after)

/-- The tokens of a text of at most `fuel` tokens. -/
def readTokens : Nat → List Char → Option (List Token)
  | fuel, cs =>
    match cs.dropWhile isBlank with
    | [] => some []
    | rest =>
      match fuel with
      | 0 => none
      | fuel + 1 => do
        let (token, after) ← readToken rest
        return token :: (← readTokens fuel after)

mutual

/-- One value and the tokens behind it. -/
def readValue : Nat → List Token → Option (Json × List Token)
  | 0, _ => none
  | _, .null :: rest => some (.null, rest)
  | _, .bool b :: rest => some (.bool b, rest)
  | _, .number literal :: rest => some (.number literal, rest)
  | _, .string s :: rest => some (.string s, rest)
  | _, .openArray :: .closeArray :: rest => some (.array [], rest)
  | fuel + 1, .openArray :: rest => (readItems fuel rest).map fun (items, after) => (.array items, after)
  | _, .openObject :: .closeObject :: rest => some (.object [], rest)
  | fuel + 1, .openObject :: rest =>
    (readMembers fuel rest).map fun (members, after) => (.object members, after)
  | _, _ => none

/-- The items of an array up to its closing bracket. -/
def readItems : Nat → List Token → Option (List Json × List Token)
  | 0, _ => none
  | fuel + 1, tokens => do
    let (item, rest) ← readValue fuel tokens
    match rest with
    | .comma :: rest =>
      let (items, after) ← readItems fuel rest
      return (item :: items, after)
    | .closeArray :: after => return ([item], after)
    | _ => none

/-- The members of an object up to its closing brace. -/
def readMembers : Nat → List Token → Option (List (Option String × Json) × List Token)
  | 0, _ => none
  | fuel + 1, .string key :: .colon :: tokens => do
    let (value, rest) ← readValue fuel tokens
    match rest with
    | .comma :: rest =>
      let (members, after) ← readMembers fuel rest
      return ((key, value) :: members, after)
    | .closeObject :: after => return ([(key, value)], after)
    | _ => none
  | _, _ => none

end

/-- Reads a text that holds one value and nothing else. -/
def read? (s : String) : Option Json := do
  let tokens ← readTokens s.length s.toList
  match ← readValue (2 * tokens.length + 1) tokens with
  | (value, []) => return value
  | _ => none

end Json

end DynamicObjects
