/-
The numbers a drawing is measured in.

Everything geometric is written once, over a type `α` of `Scalar`s. A stored drawing uses
binary64 numbers; an exact number type may stand in their place, and then the same definitions
speak of exact coordinates. So nothing here assumes that an operation is exact: a formula is
evaluated in the order in which it is written.

What a number type has to bring is its arithmetic, its comparisons, and the few functions that
cannot be written with them (`sqrt`, `cos`, `sin`, `floor`). Whether a number is NaN or infinite
is a matter of its own arithmetic: NaN differs from itself, and only a finite number cancels
against itself.
-/
namespace StencilKit

/-- A number type that coordinates can be taken from. -/
class Scalar (α : Type) extends Add α, Sub α, Mul α, Div α, Neg α, Zero α, One α, LT α, LE α, BEq α where
  decidableLT : DecidableLT α
  decidableLE : DecidableLE α
  /-- The number of things counted. -/
  count : Nat → α
  /-- `decimal m k` is the number nearest `m / 10 ^ k`. -/
  decimal : Nat → Nat → α
  /-- The ratio of a circle's circumference to its diameter. -/
  pi : α
  sqrt : α → α
  cos : α → α
  sin : α → α
  /-- The greatest whole number not above the argument. -/
  floor : α → α
  /-- A whole number as a count; nothing is counted below zero or for NaN. -/
  toCount : α → Nat
  /-- A total order of all numbers, which also separates what `==` does not. -/
  order : α → α → Ordering
  /-- The largest finite number, if the type has one. -/
  largest? : Option α

namespace Scalar

variable {α : Type} [Scalar α]

instance (a b : α) : Decidable (a < b) := decidableLT a b

instance (a b : α) : Decidable (a ≤ b) := decidableLE a b

/-- NaN is the number that differs from itself. -/
def isNaN (a : α) : Bool := !(a == a)

/-- A finite number cancels against itself. -/
def isFinite (a : α) : Bool := a - a == 0

/-- An infinite number is neither finite nor NaN. -/
def isInfinite (a : α) : Bool := !isNaN a && !isFinite a

/-- The smaller of two numbers, the first of two equal ones; a NaN is ignored. -/
def lesser (a b : α) : α := if isNaN a then b else if b < a then b else a

/-- The larger of two numbers, the first of two equal ones; a NaN is ignored. -/
def greater (a b : α) : α := if isNaN a then b else if a < b then b else a

/-- The distance of a number from zero. -/
def magnitude (a : α) : α := if a < 0 then -a else a

/-- A number moved to the nearer end of `lo … hi` when it lies outside; NaN stays. -/
def clamp (a lo hi : α) : α := if a < lo then lo else if hi < a then hi else a

/-- One half. -/
def half : α := decimal 5 1

/-- Two. -/
def two : α := count 2

/-- A full turn. -/
def turn : α := two * pi

end Scalar

end StencilKit
