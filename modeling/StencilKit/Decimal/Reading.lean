/-
Reading a decimal as the nearest double.

The grammar: an optional sign, then `inf`, `infinity` or `nan` in any case, or digits with at most
one decimal point and at least one digit on either side of it, and an optional exponent with at
least one digit. Nothing else may stand before, between or after. A decimal beyond the range of
doubles reads as an infinity, one too close to zero as a zero of its sign.
-/
namespace StencilKit.Decimal

/-- The digits in front, and what follows them. -/
def spanDigits (cs : List Char) : List Char × List Char :=
  (cs.takeWhile Char.isDigit, cs.dropWhile Char.isDigit)

/-- The number that a list of digits writes. -/
def ofDigits (ds : List Char) : Nat := ds.foldl (fun n d => 10 * n + (d.toNat - '0'.toNat)) 0

/-- An unsigned decimal, as `coeff * 10 ^ exp`. -/
structure Literal where
  coeff : Nat
  exp : Int
  deriving DecidableEq, Repr

/-- An optional sign in front, and what follows it. -/
def splitSign : List Char → Bool × List Char
  | '-' :: cs => (true, cs)
  | '+' :: cs => (false, cs)
  | cs => (false, cs)

/-- An exponent: nothing at all, or its mark, an optional sign and digits to the end. -/
def readExponent : List Char → Option Int
  | [] => some 0
  | c :: cs =>
    if c = 'e' ∨ c = 'E' then
      let (negative, ds) := splitSign cs
      if ds.isEmpty || !ds.all Char.isDigit then none
      else some (if negative then -(ofDigits ds : Int) else ofDigits ds)
    else none

/-- Digits with an optional decimal point and exponent. -/
def readLiteral (cs : List Char) : Option Literal :=
  let (whole, rest) := spanDigits cs
  let (frac, rest) := match rest with
    | '.' :: rest => spanDigits rest
    | rest => ([], rest)
  if whole.isEmpty && frac.isEmpty then none
  else (readExponent rest).map fun e => ⟨ofDigits (whole ++ frac), e - frac.length⟩

/-- The nearest double. Outside the exponents at which a coefficient of that many digits can be a
positive double, the answer is known without computing a power of ten. -/
def Literal.toFloat (l : Literal) : Float :=
  if l.coeff = 0 then 0.0
  else
    let size : Int := (Nat.toDigits 10 l.coeff).length + l.exp
    if 400 < size then 1.0 / 0.0
    else if size < -400 then 0.0
    else if l.exp < 0 then Float.ofScientific l.coeff true (-l.exp).toNat
    else Float.ofScientific l.coeff false l.exp.toNat

/-- The double that a text without sign writes. -/
def readUnsigned (cs : List Char) : Option Float :=
  let word := cs.map Char.toLower
  if word = ['i', 'n', 'f'] ∨ word = ['i', 'n', 'f', 'i', 'n', 'i', 't', 'y'] then some (1.0 / 0.0)
  else if word = ['n', 'a', 'n'] then some (0.0 / 0.0)
  else (readLiteral cs).map Literal.toFloat

/-- The double nearest to what a text writes, if it writes a number. -/
def read (cs : List Char) : Option Float :=
  let (negative, rest) := splitSign cs
  (readUnsigned rest).map fun x => if negative then -x else x

end StencilKit.Decimal
