/-
Where samples lie.

In exact coordinates the points that an edge is sampled at lie in every box that holds the points of the edge,
and those of the outline of a box or an ellipse lie in every box that holds two opposite corners of it. The
grid that any other region is scanned with begins in the region but may get past its far ends, where its width
or height falls short of a whole number of steps.
-/
import StencilKit.Proofs.Coordinates.Enclosure
import StencilKit.Proofs.Coordinates.Stepping

namespace StencilKit

variable {K : Type} [Field K] [LinearOrder K] [IsStrictOrderedRing K] [FloorRing K] [Transcendental K]

/-- How far a number between two others is from the first to the second one. -/
theorem fraction_between {a b x : K} (hlo : min a b ≤ x) (hhi : x < max a b) :
    a ≠ b ∧ 0 ≤ (x - a) / (b - a) ∧ (x - a) / (b - a) ≤ 1 := by
  rcases lt_trichotomy a b with hab | rfl | hab
  · rw [min_eq_left hab.le] at hlo
    rw [max_eq_right hab.le] at hhi
    exact ⟨hab.ne, div_nonneg (sub_nonneg.2 hlo) (sub_nonneg.2 hab.le),
      (div_le_one (sub_pos.2 hab)).2 (sub_le_sub_right hhi.le a)⟩
  · rw [min_self] at hlo
    rw [max_self] at hhi
    exact absurd hhi (not_lt.2 hlo)
  · rw [min_eq_right hab.le] at hlo
    rw [max_eq_left hab.le] at hhi
    exact ⟨hab.ne', div_nonneg_of_nonpos (sub_nonpos.2 hhi.le) (sub_nonpos.2 hab.le),
      (div_le_one_of_neg (sub_neg.2 hab)).2 (sub_le_sub_right hlo a)⟩

namespace Sampling

omit [IsStrictOrderedRing K] in
/-- The point of a line at some abscissa is a point between its ends. -/
theorem atAbscissa_eq {a b : Point K} (hx : a.x ≠ b.x) (x : K) :
    atAbscissa a b x = a.lerp b ((x - a.x) / (b.x - a.x)) := by
  have hdx : b.x - a.x ≠ 0 := sub_ne_zero.2 hx.symm
  refine Point.ext ?_ ?_
  · rw [Point.lerp_x]
    show x = _
    field_simp
    ring
  · rw [Point.lerp_y]
    show (b.y - a.y) / (b.x - a.x) * x + (a.y - (b.y - a.y) / (b.x - a.x) * a.x) = _
    field_simp
    ring

omit [IsStrictOrderedRing K] in
/-- The point of a line at some height is a point between its ends, also if the line is upright. -/
theorem atHeight_eq {a b : Point K} (hy : a.y ≠ b.y) (y : K) :
    atHeight a b y = a.lerp b ((y - a.y) / (b.y - a.y)) := by
  have hdy : b.y - a.y ≠ 0 := sub_ne_zero.2 hy.symm
  refine Point.ext ?_ ?_
  · rw [Point.lerp_x]
    show (if b.x - a.x == 0 then a.x
      else (y - (a.y - (b.y - a.y) / (b.x - a.x) * a.x)) / ((b.y - a.y) / (b.x - a.x))) = _
    split
    · rename_i hdx
      rw [← sub_eq_zero.1 (eq_of_beq hdx)]
      ring
    · rename_i hdx
      have hdx : b.x - a.x ≠ 0 := by simpa using hdx
      field_simp
      ring
  · rw [Point.lerp_y]
    show y = _
    field_simp
    ring

variable {frame : Box K}

theorem covers_segment {step : K} {a b : Point K} (ha : frame.Covers a) (hb : frame.Covers b) :
    ∀ p ∈ segment step a b, frame.Covers p := by
  unfold segment
  split <;> (intro p hp; obtain ⟨u, hu, rfl⟩ := List.mem_map.1 hp; obtain ⟨hlo, hhi⟩ := Progression.mem_below hu)
  · rw [Scalar.lesser_eq] at hlo
    rw [Scalar.greater_eq] at hhi
    obtain ⟨hy, h0, h1⟩ := fraction_between hlo hhi
    rw [atHeight_eq hy]
    exact ha.lerp hb h0 h1
  · rw [Scalar.lesser_eq] at hlo
    rw [Scalar.greater_eq] at hhi
    obtain ⟨hx, h0, h1⟩ := fraction_between hlo hhi
    rw [atAbscissa_eq hx]
    exact ha.lerp hb h0 h1

theorem covers_line {step : K} {ps : List (Point K)} (hps : ∀ p ∈ ps, frame.Covers p) :
    ∀ p ∈ line step ps, frame.Covers p := by
  fun_induction line step ps with
  | case1 a b rest ih =>
    obtain ⟨ha, hrest⟩ := List.forall_mem_cons.1 hps
    exact List.forall_mem_append.2 ⟨covers_segment ha (hrest b List.mem_cons_self), ih hrest⟩
  | case2 => exact List.forall_mem_nil _

/-- **A box that holds the points of an edge** holds all samples of it. -/
theorem covers_edge {options : SamplingOptions K} {kind : EdgeKind} {ps : List (Point K)}
    (hps : ∀ p ∈ ps, frame.Covers p) : ∀ p ∈ edge options kind ps, frame.Covers p := by
  cases kind with
  | line => exact covers_line hps
  | curve =>
    show ∀ p ∈ curve options ps, frame.Covers p
    unfold curve
    split
    · exact covers_line hps
    · intro p hp
      obtain ⟨c, hc, hp⟩ := List.mem_flatMap.1 hp
      obtain ⟨t, ht, rfl⟩ := List.mem_map.1 hp
      obtain ⟨h0, h1⟩ := Progression.mem_below ht
      obtain ⟨hstart, hcontrol, hstop⟩ := Quadratic.covers_smooth hps c hc
      exact Box.Covers.point hstart hcontrol hstop h0 h1.le

variable {b : Box K}

theorem covers_center (horigin : frame.Covers b.origin) (hfar : frame.Covers b.far) : frame.Covers b.center := by
  have hcenter : b.center = b.origin.midway b.far := by
    have hcoordinate : ∀ u v : K, u + v * Scalar.half = u * (1 - Scalar.half) + (u + v) * Scalar.half := by
      intro u v
      ring
    exact Point.ext (hcoordinate _ _) (hcoordinate _ _)
  rw [hcenter]
  exact horigin.midway hfar

theorem covers_rectOutline {step : K} (horigin : frame.Covers b.origin) (hfar : frame.Covers b.far) :
    ∀ p ∈ rectOutline step b, frame.Covers p := by
  refine List.forall_mem_append.2 ⟨List.forall_mem_flatMap.2 fun x hx => ?_,
    List.forall_mem_flatMap.2 fun y hy => ?_⟩
  · obtain ⟨hlo, hhi⟩ := Progression.mem_below hx
    have hleft := horigin.left.trans hlo
    have hright := hhi.le.trans hfar.right
    exact List.forall_mem_cons.2 ⟨⟨hleft, hright, horigin.upper, horigin.lower⟩,
      List.forall_mem_singleton.2 ⟨hleft, hright, hfar.upper, hfar.lower⟩⟩
  · obtain ⟨hlo, hhi⟩ := Progression.mem_below hy
    have hupper := horigin.upper.trans hlo
    have hlower := hhi.le.trans hfar.lower
    exact List.forall_mem_cons.2 ⟨⟨horigin.left, horigin.right, hupper, hlower⟩,
      List.forall_mem_singleton.2 ⟨hfar.left, hfar.right, hupper, hlower⟩⟩

/-- A point of the ellipse in a box lies in the box, as long as no cosine and no sine exceeds one. -/
theorem covers_ellipsePoint (hcos : ∀ θ : K, |Scalar.cos θ| ≤ 1) (hsin : ∀ θ : K, |Scalar.sin θ| ≤ 1)
    (horigin : frame.Covers b.origin) (hfar : frame.Covers b.far) (θ : K) : frame.Covers (b.ellipsePoint θ) := by
  have hcoordinate : ∀ u v c lo hi : K, |c| ≤ 1 → lo ≤ u ∧ u ≤ hi → lo ≤ u + v ∧ u + v ≤ hi →
      lo ≤ u + v * Scalar.half + v * Scalar.half * c ∧ u + v * Scalar.half + v * Scalar.half * c ≤ hi := by
    intro u v c lo hi hc hu hv
    obtain ⟨hc0, hc1⟩ := abs_le.1 hc
    have hmiddle : u + v * Scalar.half + v * Scalar.half * c =
        u * (1 - (1 + c) / 2) + (u + v) * ((1 + c) / 2) := by
      rw [Scalar.half_eq]
      ring
    rw [hmiddle]
    exact between_lerp hu hv (by linarith) (by linarith)
  obtain ⟨hleft, hright⟩ := hcoordinate b.x b.w (Scalar.cos θ) frame.x frame.far.x (hcos θ)
    ⟨horigin.left, horigin.right⟩ ⟨hfar.left, hfar.right⟩
  obtain ⟨hupper, hlower⟩ := hcoordinate b.y b.h (Scalar.sin θ) frame.y frame.far.y (hsin θ)
    ⟨horigin.upper, horigin.lower⟩ ⟨hfar.upper, hfar.lower⟩
  exact ⟨hleft, hright, hupper, hlower⟩

end Sampling

end StencilKit
