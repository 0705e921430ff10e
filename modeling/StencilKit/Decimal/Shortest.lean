/-
The shortest decimal that reads back as a given double, written positionally.

The decimals `c * 10 ^ e` form a grid for every `e`. The text of a magnitude is the point nearest
to it on the coarsest grid that has a point among the reals which round to the magnitude; of two
equally near points the larger is taken. So the digits are as few as possible and, given their
number, as close as possible. All of it is exact arithmetic on natural numbers.
-/
import StencilKit.Decimal.Binary

namespace StencilKit.Decimal

/-- The decimal `coeff * 10 ^ exp`. -/
structure Grid where
  coeff : Nat
  exp : Int
  deriving DecidableEq, Repr

namespace Binary

/-- The spacing of the grid `10 ^ e` against a quarter unit is `gridSpan b e / unitSpan b e`. -/
def gridSpan (b : Binary) (e : Int) : Nat := Nat.pow 10 e.toNat * Nat.pow 2 (2 - b.exp).toNat

/-- See `gridSpan`. -/
def unitSpan (b : Binary) (e : Int) : Nat := Nat.pow 10 (-e).toNat * Nat.pow 2 (b.exp - 2).toNat

/-- Whether `c * 10 ^ e` rounds to the magnitude. -/
def admits (b : Binary) (e : Int) (c : Nat) : Bool :=
  let point := c * b.gridSpan e
  let lo := b.low * b.unitSpan e
  let hi := b.high * b.unitSpan e
  if b.isClosed then decide (lo ≤ point) && decide (point ≤ hi)
  else decide (lo < point) && decide (point < hi)

/-- The nearest point of the grid `10 ^ e` that rounds to the magnitude, if one does. -/
def onGrid? (b : Binary) (e : Int) : Option Nat :=
  let grid := b.gridSpan e
  let target := b.mid * b.unitSpan e
  let c := target / grid
  match b.admits e c, b.admits e (c + 1) with
  | true, true => if (c + 1) * grid - target ≤ target - c * grid then some (c + 1) else some c
  | true, false => some c
  | false, true => some (c + 1)
  | false, false => none

/-- A grid too coarse for the magnitude: `10 ^ coarsest` exceeds twice the magnitude. -/
def coarsest (b : Binary) : Int := (b.exp + (Nat.log2 b.sig + 1 : Nat)) * 30103 / 100000 + 2

/-- The first hit on `steps` grids, from `10 ^ e` downward. -/
def search (b : Binary) : Nat → Int → Option Grid
  | 0, _ => none
  | steps + 1, e =>
    match b.onGrid? e with
    | some c => some ⟨c, e⟩
    | none => search b steps (e - 1)

/-- The magnitude itself is a point of the grid at `min exp 0`, so the search ends there at last. -/
def shortest (b : Binary) : Grid :=
  (b.search ((b.coarsest - min b.exp 0).toNat + 1) b.coarsest).getD ⟨0, 0⟩

end Binary

/-- `0.…` or digits around a decimal point, without an exponent. -/
def Grid.text (g : Grid) : List Char :=
  let digits := Nat.toDigits 10 g.coeff
  let places := (-g.exp).toNat
  if places = 0 then digits ++ List.replicate g.exp.toNat '0'
  else if places < digits.length then
    digits.take (digits.length - places) ++ '.' :: digits.drop (digits.length - places)
  else '0' :: '.' :: (List.replicate (places - digits.length) '0' ++ digits)

/-- A minus sign in front of what is negative. -/
def signed (negative : Bool) (text : List Char) : List Char := if negative then '-' :: text else text

/-- The text of a double; a negative zero keeps its sign. -/
def Reading.text : Reading → List Char
  | .nan => ['N', 'a', 'N']
  | .infinite negative => signed negative ['i', 'n', 'f']
  | .zero negative => signed negative ['0']
  | .finite negative b => signed negative b.shortest.text

/-- The text of a double; a negative zero keeps its sign. -/
def text (x : Float) : String := .ofList (Reading.ofFloat x).text

/-- The text of a double in a stencil: as `text`, but both zeros are written `0`. -/
def numeralChars (x : Float) : List Char := if x == 0 then ['0'] else (Reading.ofFloat x).text

/-- `numeralChars` as a string. -/
def numeral (x : Float) : String := .ofList (numeralChars x)

end StencilKit.Decimal
