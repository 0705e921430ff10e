/-
Exact coordinates.

An ordered field with a floor function is a number type that coordinates can be taken from, such as the
rational numbers. What it lacks, roots and the functions of angles, is any functions in their place:
attachment points are sampled with them, and nothing else depends on them.

In exact coordinates the point halfway between two control points tells the second from the first, and so
a smooth curve is read back with the points that it was drawn from (`retraced_eq`).
-/
import Mathlib.Algebra.Order.Floor.Defs
import Mathlib.Algebra.Order.Field.Basic
import Mathlib.Data.Rat.Floor
import Mathlib.Tactic.FieldSimp
import Mathlib.Tactic.NormNum
import Mathlib.Tactic.Ring
import StencilKit.Proofs.Decomposition.Strokes

namespace StencilKit

attribute [ext] Point Box

/-- What a field stands in with for the functions that it lacks. -/
class Transcendental (K : Type) where
  pi : K
  sqrt : K → K
  cos : K → K
  sin : K → K

/-- Rational numbers near the roots of numbers and the functions of angles. -/
instance : Transcendental ℚ where
  pi := 355 / 113
  sqrt q := (q.num.toNat * q.den).sqrt / q.den
  cos t := 1 - t ^ 2 / 2
  sin t := t - t ^ 3 / 6

section

variable {K : Type} [Field K] [LinearOrder K] [FloorRing K] [Transcendental K]

instance (priority := low) : Scalar K where
  decidableLT := inferInstance
  decidableLE := inferInstance
  count n := n
  decimal m k := m / 10 ^ k
  pi := Transcendental.pi
  sqrt := Transcendental.sqrt
  cos := Transcendental.cos
  sin := Transcendental.sin
  floor a := ⌊a⌋
  toCount a := ⌊a⌋.toNat
  order a b := compare a b
  largest? := none

theorem Scalar.half_eq [IsStrictOrderedRing K] : (Scalar.half : K) = 1 / 2 := by
  show ((5 : Nat) : K) / 10 ^ 1 = 1 / 2
  norm_num

theorem Scalar.two_eq : (Scalar.two : K) = 2 := by
  show ((2 : Nat) : K) = 2
  norm_num

end

section

variable {K : Type} [Field K] [LinearOrder K] [IsStrictOrderedRing K] [FloorRing K] [Transcendental K]

/-- **The point halfway tells the next control point.** -/
theorem Point.beyond_midway (control next : Point K) : control.beyond (control.midway next) = next := by
  have hcoordinate : ∀ a b : K, a + (a * (1 - Scalar.half) + b * Scalar.half - a) / Scalar.half = b := by
    intro a b
    rw [Scalar.half_eq]
    field_simp
    ring
  exact Point.ext (hcoordinate control.x next.x) (hcoordinate control.y next.y)

/-- The points of a smooth curve, from the pieces that it is drawn with. -/
theorem Quadratic.curvePoints_smoothFrom (start p q : Point K) (ps : List (Point K)) :
    ∃ first more, (smoothFrom start (p :: q :: ps)).map (fun c => (c.control, c.stop)) = first :: more ∧
      ∀ a, Run.curvePoints a first more = a :: p :: q :: ps := by
  -- The pieces after the first begin elsewhere, and where a piece begins is no matter.
  induction ps generalizing start p q with
  | nil => exact ⟨_, [], rfl, fun _ => rfl⟩
  | cons r ps ih =>
    obtain ⟨first, more, hpieces, hpoints⟩ := ih (p.midway q) q r
    refine ⟨(p, p.midway q), first :: more, ?_, ?_⟩
    · rw [smoothFrom, List.map_cons, hpieces]
    · intro a
      have hrest : first.1 :: Run.controls first more ++ [((first :: more).getLast (List.cons_ne_nil _ _)).2] =
          q :: r :: ps := (List.cons.inj (hpoints a)).2
      have hfirst : first.1 = q := (List.cons.inj hrest).1
      have hbeyond : p.beyond (p.midway q) = first.1 := (Point.beyond_midway p q).trans hfirst.symm
      rw [Run.curvePoints, Run.controls_cons hbeyond, List.getLast_cons_cons, ← hrest]
      rfl

/-- **A smooth curve is read back with the points that it was drawn from.** -/
theorem Path.retraced_eq (ps : List (Point K)) : retraced ps = ps := by
  match ps with
  | [] | [_] | [_, _] => rfl
  | a :: p :: q :: ps =>
    obtain ⟨first, more, hpieces, hpoints⟩ := Quadratic.curvePoints_smoothFrom a p q ps
    simp only [retraced, Quadratic.smooth, hpieces]
    exact hpoints a

end

end StencilKit
