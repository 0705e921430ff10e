/-
What the operations on exact coordinates come to.

In an ordered field no number is NaN and none is infinite: the smaller of two numbers is their minimum, a
number is moved into an interval as numbers are, and points are added and scaled by their components.
-/
import Mathlib.Algebra.Order.Group.Abs
import StencilKit.Proofs.Coordinates.Exact

namespace StencilKit

namespace Box

variable {α : Type}

@[simp] theorem origin_x (b : Box α) : b.origin.x = b.x := rfl
@[simp] theorem origin_y (b : Box α) : b.origin.y = b.y := rfl
@[simp] theorem size_x (b : Box α) : b.size.x = b.w := rfl
@[simp] theorem size_y (b : Box α) : b.size.y = b.h := rfl

end Box

section

variable {K : Type} [Field K] [LinearOrder K] [FloorRing K] [Transcendental K]

namespace Scalar

@[simp] theorem isNaN_eq_false (a : K) : isNaN a = false := by
  show (!(a == a)) = false
  rw [beq_self_eq_true]
  rfl

@[simp] theorem isFinite_eq_true (a : K) : isFinite a = true := by
  show (a - a == 0) = true
  rw [sub_self]
  exact beq_self_eq_true 0

@[simp] theorem lesser_eq (a b : K) : lesser a b = min a b := by
  rw [lesser, isNaN_eq_false, min_comm, min_def_lt]
  rfl

@[simp] theorem greater_eq (a b : K) : greater a b = max a b := by
  rw [greater, isNaN_eq_false, max_def_lt]
  rfl

@[simp] theorem magnitude_eq [IsStrictOrderedRing K] (a : K) : magnitude a = |a| := by
  unfold magnitude
  split
  · rename_i h
    exact (abs_of_neg h).symm
  · rename_i h
    exact (abs_of_nonneg (not_lt.1 h)).symm

end Scalar

namespace Point

@[simp] theorem add_x (p q : Point K) : (p + q).x = p.x + q.x := rfl
@[simp] theorem add_y (p q : Point K) : (p + q).y = p.y + q.y := rfl
@[simp] theorem sub_x (p q : Point K) : (p - q).x = p.x - q.x := rfl
@[simp] theorem sub_y (p q : Point K) : (p - q).y = p.y - q.y := rfl
@[simp] theorem mul_x (p q : Point K) : (p * q).x = p.x * q.x := rfl
@[simp] theorem mul_y (p q : Point K) : (p * q).y = p.y * q.y := rfl
@[simp] theorem div_x (p q : Point K) : (p / q).x = p.x / q.x := rfl
@[simp] theorem div_y (p q : Point K) : (p / q).y = p.y / q.y := rfl
@[simp] theorem neg_x (p : Point K) : (-p).x = -p.x := rfl
@[simp] theorem neg_y (p : Point K) : (-p).y = -p.y := rfl
@[simp] theorem zero_x : (0 : Point K).x = 0 := rfl
@[simp] theorem zero_y : (0 : Point K).y = 0 := rfl
@[simp] theorem scaled_x (p : Point K) (s : K) : (p.scaled s).x = p.x * s := rfl
@[simp] theorem scaled_y (p : Point K) (s : K) : (p.scaled s).y = p.y * s := rfl
@[simp] theorem lerp_x (p q : Point K) (t : K) : (p.lerp q t).x = p.x * (1 - t) + q.x * t := rfl
@[simp] theorem lerp_y (p q : Point K) (t : K) : (p.lerp q t).y = p.y * (1 - t) + q.y * t := rfl
@[simp] theorem lesser_x (p q : Point K) : (p.lesser q).x = min p.x q.x := Scalar.lesser_eq p.x q.x
@[simp] theorem lesser_y (p q : Point K) : (p.lesser q).y = min p.y q.y := Scalar.lesser_eq p.y q.y
@[simp] theorem greater_x (p q : Point K) : (p.greater q).x = max p.x q.x := Scalar.greater_eq p.x q.x
@[simp] theorem greater_y (p q : Point K) : (p.greater q).y = max p.y q.y := Scalar.greater_eq p.y q.y

end Point

namespace Box

@[simp] theorem far_x (b : Box K) : b.far.x = b.x + b.w := rfl
@[simp] theorem far_y (b : Box K) : b.far.y = b.y + b.h := rfl

/-- A box between two corners begins at the lesser coordinates and ends at the greater ones. -/
theorem ofCorners_x (p q : Point K) : (ofCorners p q).x = min p.x q.x := Point.lesser_x p q
theorem ofCorners_y (p q : Point K) : (ofCorners p q).y = min p.y q.y := Point.lesser_y p q

theorem far_ofCorners (p q : Point K) : (ofCorners p q).far = p.greater q := by
  have hcoordinate : ∀ a b : K, a + (b - a) = b := fun a b => add_sub_cancel a b
  exact Point.ext (hcoordinate _ _) (hcoordinate _ _)

end Box

end

end StencilKit
