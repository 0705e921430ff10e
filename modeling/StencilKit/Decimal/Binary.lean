/-
A double taken apart: its sign, and the magnitude as `sig * 2 ^ exp` with natural `sig`.

The reals that round to a magnitude form an interval. In quarters of its unit, a magnitude
`4 * sig` reaches from `low` to `high`: half a unit either way, but only a quarter downward
from a power of two, where the doubles below lie twice as close.
-/
namespace StencilKit.Decimal

/-- A magnitude `sig * 2 ^ exp`. -/
structure Binary where
  sig : Nat
  exp : Int
  /-- Whether the next smaller magnitude is only half a unit away. -/
  tight : Bool
  deriving DecidableEq, Repr

namespace Binary

/-- Four times the significand: the magnitude in quarter units. -/
def mid (b : Binary) : Nat := 4 * b.sig

/-- The least real that rounds to the magnitude, in quarter units. -/
def low (b : Binary) : Nat := if b.tight then b.mid - 1 else b.mid - 2

/-- The greatest real that rounds to the magnitude, in quarter units. -/
def high (b : Binary) : Nat := b.mid + 2

/-- The ends of the interval round to the magnitude themselves when its significand is even. -/
def isClosed (b : Binary) : Bool := b.sig % 2 == 0

end Binary

/-- What a double stands for. -/
inductive Reading where
  | nan
  | infinite (negative : Bool)
  | zero (negative : Bool)
  | finite (negative : Bool) (magnitude : Binary)
  deriving DecidableEq, Repr

/-- The leading bit of a significand, which the word of a double leaves out: `2 ^ 52`. -/
def leadingBit : Nat := 0x10000000000000

/-- The fields of the 64-bit word of a double: a sign bit, eleven bits of exponent and the bits of
the significand below the leading one. -/
def Reading.ofBits (bits : Nat) : Reading :=
  let negative := decide (UInt64.size / 2 ≤ bits)
  let expField := bits / leadingBit % 2048
  let frac := bits % leadingBit
  if expField = 2047 then
    if frac = 0 then .infinite negative else .nan
  else if expField = 0 then
    if frac = 0 then .zero negative else .finite negative ⟨frac, -1074, false⟩
  else .finite negative ⟨leadingBit + frac, (expField : Int) - 1075, decide (frac = 0 ∧ 1 < expField)⟩

/-- What a double stands for. -/
def Reading.ofFloat (x : Float) : Reading := .ofBits x.toBits.toNat

end StencilKit.Decimal
