import DynamicObjects.Text.GraphemeExtend
import DynamicObjects.Text.Unprintable

/-!
# Quoted texts

A text between double quotes, in which quotes, backslashes and characters without a visible form of their own are
escaped: the usual ones by a letter, all others by their code.
-/
namespace DynamicObjects.Quoted

/-- Letters that fill the place of another letter and show nothing: the four Hangul fillers. -/
def fillers : CodeRanges :=
  [(0x115f, 0x1160), (0x3164, 0x3164), (0xffa0, 0xffa0)]

/-- Letters that extend the character before and still have a place and a shape of their own: the two halfwidth sound
marks of Katakana. -/
def soundMarks : CodeRanges :=
  [(0xff9e, 0xff9f)]

/-- Whether the character of this code belongs to the one before and shows only together with it. -/
def isAttached (code : Nat) : Bool :=
  CodeRanges.graphemeExtend.covers code && !soundMarks.covers code

/-- Whether a character has no visible form of its own. -/
def isHidden (c : Char) : Bool :=
  CodeRanges.unprintable.covers c.toNat || isAttached c.toNat || fillers.covers c.toNat

def escapeChar (c : Char) : List Char :=
  match c with
  | '\x00' => ['\\', '0']
  | '\t' => ['\\', 't']
  | '\r' => ['\\', 'r']
  | '\n' => ['\\', 'n']
  | '"' => ['\\', '"']
  | '\\' => ['\\', '\\']
  | c => if isHidden c then '\\' :: 'u' :: '\x7b' :: Nat.toDigits 16 c.toNat ++ ['\x7d'] else [c]

def encode (s : String) : String :=
  "\"" ++ String.ofList (s.toList.flatMap escapeChar) ++ "\""

end DynamicObjects.Quoted
