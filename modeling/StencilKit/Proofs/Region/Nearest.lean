/-
How far a point is from a segment.

It is as far as the foot of the perpendicular on the segment's line, which is moved to an end when it falls beyond
that end. No point of the segment is nearer (`distanceToSegment_isLeast`). Along the segment the square of the
distance is a quadratic function of the way, with its least value at the foot; and from where the foot was moved
to, every way into the segment leads farther away from the foot, never back to it (`clamp_obtuse`). So one expansion
about the moved foot (`lengthSq_sub_lerp`) compares it with all points of the segment at once. An outline's stroke is
told by such distances: it is the points near to some point of the outline (`Outline.passes_iff`).
-/
import Mathlib.Analysis.SpecialFunctions.Trigonometric.Basic
import Mathlib.Analysis.Real.Sqrt
import Mathlib.Order.Bounds.Image
import StencilKit.Proofs.Region.Corners

namespace StencilKit

/-- Real numbers as coordinates. -/
noncomputable instance : Transcendental ℝ where
  pi := Real.pi
  sqrt := Real.sqrt
  cos := Real.cos
  sin := Real.sin

section

variable {K : Type} [Field K] [LinearOrder K] [FloorRing K] [Transcendental K]

namespace Scalar

variable {lo hi : K}

theorem clamp_mem (h : lo ≤ hi) (c : K) : lo ≤ clamp c lo hi ∧ clamp c lo hi ≤ hi := by
  unfold clamp
  split_ifs with hlo hhi
  · exact ⟨le_rfl, h⟩
  · exact ⟨h, le_rfl⟩
  · exact ⟨not_lt.1 hlo, not_lt.1 hhi⟩

theorem clamp_eq_self {c : K} (hlo : lo ≤ c) (hhi : c ≤ hi) : clamp c lo hi = c := by
  rw [clamp, if_neg hlo.not_gt, if_neg hhi.not_gt]

/-- From the end of an interval that a number was moved to, the way into the interval leads away from the number. -/
theorem clamp_obtuse [IsStrictOrderedRing K] {t : K} (hlo : lo ≤ t) (hhi : t ≤ hi) (c : K) :
    0 ≤ (t - clamp c lo hi) * (clamp c lo hi - c) := by
  unfold clamp
  split_ifs with hc hc'
  · exact mul_nonneg (sub_nonneg.2 hlo) (sub_nonneg.2 hc.le)
  · exact mul_nonneg_of_nonpos_of_nonpos (sub_nonpos.2 hhi) (sub_nonpos.2 hc'.le)
  · rw [sub_self, mul_zero]

end Scalar

namespace Point

/-- The fraction of the way from `a` to `b` at which the segment is nearest to a point. -/
def nearestFraction (p a b : Point K) : K := Scalar.clamp ((p - a).dot (b - a) / (b - a).lengthSq) 0 1

/-- **The square of the distance along a segment**, about the point at the fraction `s`. -/
theorem lengthSq_sub_lerp (p a b : Point K) (s t : K) :
    (p - a.lerp b t).lengthSq = (p - a.lerp b s).lengthSq + (t - s) ^ 2 * (b - a).lengthSq +
      2 * ((t - s) * (s * (b - a).lengthSq - (p - a).dot (b - a))) := by
  simp only [lengthSq, dot, sub_x, sub_y, lerp_x, lerp_y]
  ring

theorem lerp_zero (p q : Point K) : p.lerp q 0 = p := by
  have hcoordinate : ∀ u v : K, u * (1 - 0) + v * 0 = u := fun u v => by ring
  exact Point.ext (hcoordinate p.x q.x) (hcoordinate p.y q.y)

theorem add_scaled_sub (p q : Point K) (t : K) : p + (q - p).scaled t = p.lerp q t := by
  have hcoordinate : ∀ u v : K, u + (v - u) * t = u * (1 - t) + v * t := fun u v => by ring
  exact Point.ext (hcoordinate p.x q.x) (hcoordinate p.y q.y)

theorem distanceToSegment_eq (p a b : Point K) :
    p.distanceToSegment a b = p.distance (a.lerp b (nearestFraction p a b)) := by
  rw [distanceToSegment, add_scaled_sub]
  split
  · -- The quotient by zero is zero, and so the segment is nearest at its beginning.
    rename_i hlength
    rw [nearestFraction, eq_of_beq hlength, div_zero, Scalar.clamp_eq_self le_rfl zero_le_one, lerp_zero]
  · rfl

variable [IsStrictOrderedRing K]

theorem lengthSq_nonneg (p : Point K) : 0 ≤ p.lengthSq := add_nonneg (mul_self_nonneg p.x) (mul_self_nonneg p.y)

theorem dot_eq_zero {p q : Point K} (h : q.lengthSq = 0) : p.dot q = 0 := by
  obtain ⟨hx, hy⟩ := mul_self_add_mul_self_eq_zero.1 h
  rw [dot, hx, hy, mul_zero, mul_zero, add_zero]

/-- **No point of a segment is nearer** than the one at the nearest fraction. -/
theorem lengthSq_sub_nearest_le (p a b : Point K) {t : K} (h0 : 0 ≤ t) (h1 : t ≤ 1) :
    (p - a.lerp b (nearestFraction p a b)).lengthSq ≤ (p - a.lerp b t).lengthSq := by
  -- A segment without length has its foot anywhere.
  have hfoot : (p - a).dot (b - a) = (b - a).lengthSq * ((p - a).dot (b - a) / (b - a).lengthSq) := by
    by_cases hlength : (b - a).lengthSq = 0
    · rw [hlength, zero_mul, dot_eq_zero hlength]
    · rw [mul_div_cancel₀ _ hlength]
  have hobtuse := mul_nonneg (lengthSq_nonneg (b - a))
    (Scalar.clamp_obtuse h0 h1 ((p - a).dot (b - a) / (b - a).lengthSq))
  have hcross : 0 ≤ (t - nearestFraction p a b) *
      (nearestFraction p a b * (b - a).lengthSq - (p - a).dot (b - a)) := by
    rw [hfoot]
    refine hobtuse.trans_eq ?_
    rw [nearestFraction]
    ring
  have hsquare := mul_nonneg (sq_nonneg (t - nearestFraction p a b)) (lengthSq_nonneg (b - a))
  rw [lengthSq_sub_lerp p a b (nearestFraction p a b) t]
  linarith

end Point

end

namespace Point

open Patched (of)

theorem distance_eq (p q : Point ℝ) : p.distance q = √((p.x - q.x) ^ 2 + (p.y - q.y) ^ 2) := by
  rw [pow_two, pow_two]
  rfl

/-- **A segment is as near as the nearest of its points.** -/
theorem isLeast_distanceToSegment (p a b : Point ℝ) :
    IsLeast (p.distance '' {q | a.Between b q}) (p.distanceToSegment a b) := by
  obtain ⟨h0, h1⟩ := Scalar.clamp_mem zero_le_one ((p - a).dot (b - a) / (b - a).lengthSq)
  rw [distanceToSegment_eq]
  refine ⟨⟨_, ⟨_, h0, h1, rfl⟩, rfl⟩, ?_⟩
  rintro _ ⟨_, ⟨t, ht0, ht1, rfl⟩, rfl⟩
  exact Real.sqrt_le_sqrt (lengthSq_sub_nearest_le p a b ht0 ht1)

/-- **The distance from a segment** is the least of the distances from its points: that of one of them, and none has a
lesser one. So it does not matter which end comes first. A segment may be without length: nothing is divided by
zero for the distance, which is the same with other quotients by zero, and without any. -/
theorem distanceToSegment_isLeast (p a b : Point ℝ) :
    IsLeast ((fun q => √((p.x - q.x) ^ 2 + (p.y - q.y) ^ 2)) '' {q | a.Between b q}) (p.distanceToSegment a b) ∧
      p.distanceToSegment b a = p.distanceToSegment a b ∧
      ∀ byZero : ℝ → Option ℝ, (p.map (of byZero)).distanceToSegment (a.map (of byZero)) (b.map (of byZero)) =
        of byZero (p.distanceToSegment a b) := by
  refine ⟨?_, distanceToSegment_comm p a b, fun byZero => distanceToSegment_of byZero p a b⟩
  simp only [← distance_eq]
  exact isLeast_distanceToSegment p a b

end Point

/-- **An outline's stroke** is the band of the points that are near to a point of the outline. -/
theorem Outline.passes_iff {tolerance : ℝ} {p : Point ℝ} (o : Outline ℝ) :
    o.passes tolerance p = true ↔ ∃ q, OnRing o.ring q ∧ p.distance q ≤ tolerance := by
  have hfinite : Scalar.isInfinite tolerance = false := by
    rw [Scalar.isInfinite, Scalar.isFinite_eq_true, Bool.not_true, Bool.and_false]
  rw [passes, hfinite, Bool.false_and, Bool.or_false, List.any_eq_true]
  constructor
  · rintro ⟨⟨a, b⟩, hside, hnear⟩
    obtain ⟨q, hq, hdistance⟩ := (Point.isLeast_distanceToSegment p a b).1
    exact ⟨q, ⟨(a, b), hside, hq⟩, hdistance.trans_le (of_decide_eq_true hnear)⟩
  · rintro ⟨q, ⟨⟨a, b⟩, hside, hq⟩, hnear⟩
    have hleast := (Point.isLeast_distanceToSegment p a b).2 ⟨q, hq, rfl⟩
    exact ⟨(a, b), hside, decide_eq_true (hleast.trans hnear)⟩

end StencilKit
