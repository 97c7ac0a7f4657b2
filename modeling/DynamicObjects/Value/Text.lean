import DynamicObjects.Double.Shortest
import DynamicObjects.Value

/-!
# The text of values

Nil is the empty text, booleans are digits, and the items of a list are separated by blanks.
-/
namespace DynamicObjects.Value

mutual

/-- The text of a value. -/
def toText : Value → String
  | nil => ""
  | bool b => if b then "1" else "0"
  | word i => toString i.toInt
  | integer n => toString n
  | double x => x.text
  | text s => s
  | object h => h.text
  | list items => " ".intercalate (toTexts items)

def toTexts : List Value → List String
  | [] => []
  | v :: vs => toText v :: toTexts vs

end

end DynamicObjects.Value
