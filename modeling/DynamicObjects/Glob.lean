/-!
# Glob patterns

A question mark stands for one character, a star for any run of them, brackets for one character of a class, and two
stars for a run of whole path components. A pattern covers the whole text. The slash is the only separator.
-/
namespace DynamicObjects

namespace Glob

/-- Part of a bracket class. -/
inductive CharRange where
  | single (c : Char)
  | span (first last : Char)
  deriving DecidableEq, Repr

inductive Token where
  | literal (c : Char)
  | anyChar
  | anyRun
  | anyComponents
  | within (ranges : List CharRange)
  | without (ranges : List CharRange)
  deriving DecidableEq, Repr

inductive Error where
  | tooManyStars (position : Nat)
  | partialComponent (position : Nat)
  | invalidClass (position : Nat)
  deriving DecidableEq, Repr

def Error.position : Error → Nat
  | .tooManyStars n | .partialComponent n | .invalidClass n => n

def Error.reason : Error → String
  | .tooManyStars _ => "wildcards are either regular \x60*\x60 or recursive \x60**\x60"
  | .partialComponent _ => "recursive wildcards must form a single path component"
  | .invalidClass _ => "invalid range pattern"

def Error.message (e : Error) : String :=
  "Pattern syntax error near position " ++ toString e.position ++ ": " ++ e.reason

/-- The ranges of a bracket class. A minus sign between two characters makes a span. -/
def readRanges : List Char → List CharRange
  | a :: '-' :: b :: rest => .span a b :: readRanges rest
  | a :: rest => .single a :: readRanges rest
  | [] => []

/-- The inside of a class whose opening bracket (and exclamation mark) is read, and the text behind its closing
bracket. A closing bracket in the first place belongs to the class. -/
def splitClass : List Char → Option (List Char × List Char)
  | [] => none
  | first :: rest =>
    match rest.dropWhile (· ≠ ']') with
    | _ :: after => some (first :: rest.takeWhile (· ≠ ']'), after)
    | [] => none

/-- The class behind an opening bracket. -/
def readClass : List Char → Option (Token × List Char)
  | '!' :: rest => (splitClass rest).map fun (inside, after) => (.without (readRanges inside), after)
  | rest => (splitClass rest).map fun (inside, after) => (.within (readRanges inside), after)

/-- Two stars must fill a path component: they follow the start or a slash and precede a slash, which belongs to
them, or the end. -/
def readComponents (position : Nat) (previous : Option Char) (rest : List Char) : Except Error (List Char) :=
  if previous = none ∨ previous = some '/' then
    match rest with
    | [] => .ok []
    | '/' :: after => .ok after
    | _ => .error (.partialComponent (position + 2))
  else .error (.partialComponent (position - 1))

/-- Reads the tokens of at most `fuel` characters. `position` counts the characters before `text`, of which
`previous` is the last. -/
def readTokens : Nat → Nat → Option Char → List Char → Except Error (List Token)
  | 0, _, _, _ | _, _, _, [] => .ok []
  | fuel + 1, position, _, '?' :: rest =>
    (Token.anyChar :: ·) <$> readTokens fuel (position + 1) (some '?') rest
  | fuel + 1, position, previous, '*' :: rest =>
    match rest with
    | '*' :: '*' :: _ => .error (.tooManyStars (position + 2))
    | '*' :: after => do
      let remaining ← readComponents position previous after
      let taken := 2 + (after.length - remaining.length)
      let last := if taken = 2 then '*' else '/'
      (Token.anyComponents :: ·) <$> readTokens fuel (position + taken) (some last) remaining
    | _ => (Token.anyRun :: ·) <$> readTokens fuel (position + 1) (some '*') rest
  | fuel + 1, position, _, '[' :: rest =>
    match readClass rest with
    | some (token, after) =>
      (token :: ·) <$> readTokens fuel (position + 1 + (rest.length - after.length)) (some ']') after
    | none => .error (.invalidClass position)
  | fuel + 1, position, _, c :: rest =>
    (Token.literal c :: ·) <$> readTokens fuel (position + 1) (some c) rest

def CharRange.contains (c : Char) : CharRange → Bool
  | single d => c == d
  | span first last => first ≤ c ∧ c ≤ last

/-- Whether a token for one character covers `c`. -/
def Token.coversChar (c : Char) : Token → Bool
  | literal d => c == d
  | anyChar => true
  | within ranges => ranges.any (·.contains c)
  | without ranges => !ranges.any (·.contains c)
  | anyRun | anyComponents => false

/-- The ends of a text, from the whole text down to the empty one. -/
def suffixes : List Char → List (List Char)
  | [] => [[]]
  | c :: rest => (c :: rest) :: suffixes rest

/-- The ends of a text that start a path component, and the empty one. -/
def componentSuffixes : List Char → List (List Char)
  | [] => [[]]
  | c :: rest => if c = '/' then rest :: componentSuffixes rest else componentSuffixes rest

/-- Whether the tokens cover the whole text. -/
def covers : List Token → List Char → Bool
  | [], cs => cs.isEmpty
  | .anyRun :: tokens, cs => (suffixes cs).any (covers tokens)
  | .anyComponents :: tokens, cs => (cs :: componentSuffixes cs).any (covers tokens)
  | token :: tokens, c :: cs => token.coversChar c && covers tokens cs
  | _ :: _, [] => false

end Glob

/-- A pattern that has been read. -/
structure Glob where
  tokens : List Glob.Token
  deriving DecidableEq, Repr

def Glob.read (pattern : String) : Except Glob.Error Glob :=
  (Glob.mk ·) <$> Glob.readTokens pattern.length 0 none pattern.toList

end DynamicObjects
