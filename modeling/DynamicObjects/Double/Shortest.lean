import DynamicObjects.Double

/-!
# Decimal text of doubles

A double is written with the fewest digits that read back as the same double, always positionally: without exponent,
and without a fraction when it is whole. Of two such digit strings the nearer one is taken, of two equally near ones
the larger.

The search runs over decimal grids from coarse to fine. All positions are counted in quarters of 2 ^ -1074, so that
the two ends of the interval of reals that round to the double are whole.
-/
namespace DynamicObjects.Double

/-- The ends, in quarter units, of the interval of reals that round to the magnitude of `x`. -/
def roundingInterval (x : Double) : Nat × Nat :=
  let below := if x.fraction = 0 ∧ 1 < x.exponentField then x.spacing else 2 * x.spacing
  (4 * x.magnitude - below, 4 * x.magnitude + 2 * x.spacing)

/-- Whether `place / scale` quarter units round to `x`: the ends count for an even mantissa. -/
def roundsTo (x : Double) (place scale : Nat) : Bool :=
  let (low, high) := x.roundingInterval
  if x.mantissa % 2 = 0 then low * scale ≤ place ∧ place ≤ high * scale
  else low * scale < place ∧ place < high * scale

/-- A decimal with `digits` as its whole part times ten to the power `exponent`. -/
structure Decimal where
  digits : Nat
  exponent : Int
  deriving DecidableEq, Repr

/-- Ten to the power `exponent` is `grid / scale` quarter units. -/
def gridSize (exponent : Int) : Nat × Nat :=
  (4 * Nat.pow 2 1074 * Nat.pow 10 exponent.toNat, Nat.pow 10 (-exponent).toNat)

/-- The multiple of ten to the power `exponent` that rounds to `x` and is nearest to it. -/
def onGrid? (x : Double) (exponent : Int) : Option Decimal :=
  let (grid, scale) := gridSize exponent
  let place := 4 * x.magnitude * scale
  let down := place / grid
  let up := down + 1
  let upIsNear := up * grid - place ≤ place - down * grid
  match x.roundsTo (down * grid) scale, x.roundsTo (up * grid) scale with
  | true, true => some ⟨if upIsNear then up else down, exponent⟩
  | true, false => some ⟨down, exponent⟩
  | false, true => some ⟨up, exponent⟩
  | false, false => none

/-- The first grid with a hit among the next `steps` ones, from `exponent` downwards. -/
def coarsest (x : Double) : Nat → Int → Decimal
  | 0, exponent => ⟨0, exponent⟩
  | steps + 1, exponent => (onGrid? x exponent).getD (coarsest x steps (exponent - 1))

/-- The shortest decimal of a positive finite double. Its magnitude is below ten to the power 309, and the grid of
ten to the power -342 separates any two doubles. -/
def shortest (x : Double) : Decimal :=
  coarsest x 652 309

/-- Positional notation. -/
def Decimal.text (d : Decimal) : String :=
  let digits := (toString d.digits).toList
  if 0 ≤ d.exponent then
    String.ofList (digits ++ List.replicate d.exponent.toNat '0')
  else
    let places := (-d.exponent).toNat
    let padded := List.replicate (places + 1 - digits.length) '0' ++ digits
    let whole := padded.length - places
    String.ofList (padded.take whole ++ '.' :: padded.drop whole)

/-- The text of a double. A NaN shows no sign; a zero does. -/
def text (x : Double) : String :=
  if x.isNaN then "NaN"
  else
    let sign := if x.negative then "-" else ""
    if x.isInfinite then sign ++ "inf"
    else if x.magnitude = 0 then sign ++ "0"
    else sign ++ x.shortest.text

end DynamicObjects.Double
