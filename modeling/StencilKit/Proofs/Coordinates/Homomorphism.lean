/-
Maps of numbers that respect what geometry does with them.

A geometric definition is written over any type of `Scalar`s. A map that respects the operations such
a definition uses (`Scalar.Hom`) can be applied to its arguments or to its result; it makes no
difference which. Division is only asked for where the divisor is positive, since that is where
stencils divide, and a map that forgets the sign of zero does not respect other divisions.
-/
import StencilKit.Proofs.Coordinates.Map

namespace StencilKit

/-- A map of numbers that respects arithmetic and comparisons. -/
structure Scalar.Hom {α β : Type} [Scalar α] [Scalar β] (φ : α → β) : Prop where
  one : φ 1 = 1
  half : φ Scalar.half = Scalar.half
  two : φ Scalar.two = Scalar.two
  add : ∀ a b, φ (a + b) = φ a + φ b
  sub : ∀ a b, φ (a - b) = φ a - φ b
  mul : ∀ a b, φ (a * b) = φ a * φ b
  div : ∀ a b, 0 < b → φ (a / b) = φ a / φ b
  sqrt : ∀ a, φ (Scalar.sqrt a) = Scalar.sqrt (φ a)
  le : ∀ a b, φ a ≤ φ b ↔ a ≤ b
  pos : ∀ a, 0 < φ a ↔ 0 < a
  beq : ∀ a b, (φ a == φ b) = (a == b)
  half_pos : (0 : α) < Scalar.half
  two_pos : (0 : α) < Scalar.two

end StencilKit
