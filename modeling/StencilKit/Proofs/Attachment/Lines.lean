/-
What a polyline is sampled at.

Each segment has its own run of samples: the points of the segment whose coordinates on its longer axis are
evenly spaced, from the lesser end on (`IsSampled`). The run goes on as long as it is more than the slack of a
step short of the greater end. In exact coordinates this says all that there is to say of the samples
(`line_eq_flatten`), so that it does not matter which end of a segment comes first.
-/
import StencilKit.Proofs.Coordinates.Division
import StencilKit.Proofs.Coordinates.Samples

namespace StencilKit

section

variable {α : Type} [Scalar α]

/-- Whether a point lies on the segment between two points. -/
def Point.Between (a b p : Point α) : Prop := ∃ t, 0 ≤ t ∧ t ≤ 1 ∧ a.lerp b t = p

end

namespace Sampling

section

variable {K : Type} [Field K] [LinearOrder K]

/-- The coordinate on the axis on which two points are farther apart, which is the first one if neither is. -/
def longer (a b : Point K) : Point K → K := if |b.x - a.x| < |b.y - a.y| then Point.y else Point.x

/-- Whether a run holds the points of a segment whose coordinates `f` are the lesser end, one step more, two steps
more, and so on, while these fall short of the greater end by more than `10 ^ -9` of a step. -/
structure IsSampled [FloorRing K] [Transcendental K] (f : Point K → K) (step : K) (a b : Point K)
    (run : List (Point K)) : Prop where
  length : ∀ k : Nat, k < run.length ↔ k * step < max (f a) (f b) - min (f a) (f b) - 1 / 10 ^ 9 * step
  getElem? : ∀ k < run.length, ∀ p, run[k]? = some p ↔ a.Between b p ∧ f p = min (f a) (f b) + k * step

end

end Sampling

variable {K : Type} [Field K] [LinearOrder K] [IsStrictOrderedRing K] [FloorRing K] [Transcendental K]

theorem Point.Between.symm {a b p : Point K} (h : a.Between b p) : b.Between a p := by
  obtain ⟨t, h0, h1, rfl⟩ := h
  have hcoordinate : ∀ u v : K, v * (1 - (1 - t)) + u * (1 - t) = u * (1 - t) + v * t := by
    intro u v
    ring
  exact ⟨1 - t, sub_nonneg.2 h1, sub_le_self 1 h0, Point.ext (hcoordinate _ _) (hcoordinate _ _)⟩

namespace Sampling

open Patched (of of_div)
open Scalar (lesser greater)

omit [IsStrictOrderedRing K] [FloorRing K] [Transcendental K] in
theorem longer_comm (a b : Point K) : longer a b = longer b a := by
  rw [longer, longer, abs_sub_comm b.x, abs_sub_comm b.y]

namespace IsSampled

variable {f : Point K → K} {step : K} {a b : Point K} {run run' : List (Point K)}

theorem symm (h : IsSampled f step a b run) : IsSampled f step b a run where
  length := by
    rw [max_comm, min_comm]
    exact h.length
  getElem? k hk p := by
    rw [h.getElem? k hk p, min_comm]
    exact and_congr_left fun _ => ⟨.symm, .symm⟩

omit [IsStrictOrderedRing K] in
/-- A segment has one run of samples. -/
theorem unique (h : IsSampled f step a b run) (h' : IsSampled f step a b run') : run = run' := by
  have hlength : ∀ k, k < run.length ↔ k < run'.length := fun k => (h.length k).trans (h'.length k).symm
  refine List.ext_getElem (le_antisymm ?_ ?_) fun k hk hk' => ?_
  · exact Nat.le_of_not_lt fun hlt => absurd ((hlength _).1 hlt) (lt_irrefl _)
  · exact Nat.le_of_not_lt fun hlt => absurd ((hlength _).2 hlt) (lt_irrefl _)
  · have hsample := (h.getElem? k hk run[k]).1 (List.getElem?_eq_getElem hk)
    exact (List.getElem_eq_iff hk').2 ((h'.getElem? k hk' run[k]).2 hsample) |>.symm

theorem eq_nil (h : IsSampled f step a a run) (hstep : 0 < step) : run = [] := by
  refine List.eq_nil_of_length_eq_zero (Nat.eq_zero_of_not_pos fun hpos => ?_)
  have := (h.length 0).1 hpos
  rw [max_self, min_self, sub_self, Nat.cast_zero, zero_mul] at this
  have : 0 < 1 / 10 ^ 9 * step := by positivity
  linarith

end IsSampled

/-! ## Runs of samples -/

/-- Stepping along a coordinate that is in proportion with the way along a segment gives a run of samples. -/
theorem isSampled_map_below {f : Point K → K} {point : K → Point K} {step : K} {a b : Point K} (hstep : 0 < step)
    (hf : ∀ t, f (a.lerp b t) = f a * (1 - t) + f b * t)
    (hpoint : f a ≠ f b → ∀ u, point u = a.lerp b ((u - f a) / (f b - f a))) :
    IsSampled f step a b
      ((Progression.below (lesser (f a) (f b)) (greater (f a) (f b)) step).toList.map point) := by
  rw [Scalar.lesser_eq, Scalar.greater_eq]
  constructor
  · intro k
    rw [List.length_map]
    exact Progression.lt_length_below hstep min_le_max
  · intro k hk p
    have hmem : min (f a) (f b) + k * step ∈
        (Progression.below (min (f a) (f b)) (max (f a) (f b)) step).toList :=
      Progression.mem_toList.2 ⟨k, by simpa [Progression.toList] using hk, rfl⟩
    have hk : ((Progression.below (min (f a) (f b)) (max (f a) (f b)) step).toList.map point)[k]? =
        some (point (min (f a) (f b) + k * step)) := by
      rw [List.getElem?_eq_getElem hk]
      simp [Progression.toList]
      rfl
    obtain ⟨hlo, hhi⟩ := Progression.mem_below hmem
    obtain ⟨hne, h0, h1⟩ := fraction_between hlo hhi
    have hdf : f b - f a ≠ 0 := sub_ne_zero.2 hne.symm
    rw [hk, Option.some.injEq, hpoint hne]
    constructor
    · rintro rfl
      refine ⟨⟨_, h0, h1, rfl⟩, ?_⟩
      rw [hf]
      field_simp
      ring
    · rintro ⟨⟨t, -, -, rfl⟩, ht⟩
      rw [← ht, hf]
      congr 1
      field_simp
      ring

theorem isSteep_iff {a b : Point K} : isSteep a b = true ↔ |b.x - a.x| < |b.y - a.y| := by
  rw [isSteep, decide_eq_true_eq, Scalar.magnitude_eq, Scalar.magnitude_eq]

/-- **The samples of a segment.** -/
theorem isSampled_segment {step : K} (hstep : 0 < step) (a b : Point K) :
    IsSampled (longer a b) step a b (segment step a b) := by
  rw [segment, longer]
  by_cases hsteep : isSteep a b = true
  · rw [if_pos hsteep, if_pos (isSteep_iff.1 hsteep)]
    exact isSampled_map_below hstep (fun _ => rfl) fun hy => atHeight_eq hy
  · rw [if_neg hsteep, if_neg (mt isSteep_iff.2 hsteep)]
    exact isSampled_map_below hstep (fun _ => rfl) fun hx => atAbscissa_eq hx

theorem segment_comm {step : K} (hstep : 0 < step) (a b : Point K) : segment step b a = segment step a b := by
  have h := (isSampled_segment hstep b a).symm
  rw [longer_comm] at h
  exact h.unique (isSampled_segment hstep a b)

/-! ## Polylines -/

omit [IsStrictOrderedRing K] in
theorem line_eq (step : K) (ps : List (Point K)) : line step ps = (ps.zipWith (segment step) ps.tail).flatten := by
  fun_induction line step ps with
  | case1 a b rest ih =>
    rw [ih]
    rfl
  | case2 ps hshort =>
    rcases ps with _ | ⟨a, _ | ⟨b, rest⟩⟩
    · rfl
    · rfl
    · exact absurd rfl (hshort a b rest)

omit [IsStrictOrderedRing K] in
theorem line_append (step : K) (ps : List (Point K)) (a b : Point K) :
    line step (ps ++ [a, b]) = line step (ps ++ [a]) ++ segment step a b := by
  induction ps with
  | nil => exact List.append_nil _
  | cons p ps ih =>
    cases ps with
    | nil =>
      show segment step p a ++ (segment step a b ++ []) = (segment step p a ++ []) ++ segment step a b
      rw [List.append_nil, List.append_nil]
    | cons q ps =>
      show segment step p q ++ line step (q :: ps ++ [a, b]) = (segment step p q ++ line step (q :: ps ++ [a])) ++ _
      rw [ih, List.append_assoc]

/-- A polyline from its other end has the runs of its segments in the opposite order. -/
theorem line_reverse {step : K} (hstep : 0 < step) : ∀ ps : List (Point K),
    line step ps.reverse = (ps.zipWith (segment step) ps.tail).reverse.flatten
  | [] | [_] => rfl
  | a :: b :: rest => by
    have hrest := line_reverse hstep (b :: rest)
    rw [List.reverse_cons] at hrest
    have hends : (a :: b :: rest).reverse = rest.reverse ++ [b, a] := by simp
    rw [hends, line_append, hrest, segment_comm hstep]
    simp

/-! ## Division by zero -/

section

variable (byZero : K → Option K)

omit [IsStrictOrderedRing K] in
/-- The slope of a line that is neither level nor upright is not zero. -/
theorem atHeight_of {a b : Point K} (hy : a.y ≠ b.y) (y : K) :
    atHeight (a.map (of byZero)) (b.map (of byZero)) (of byZero y) = (atHeight a b y).map (of byZero) := by
  refine Point.ext ?_ rfl
  show (if b.x - a.x == 0 then of byZero a.x else
      (of byZero y - (of byZero a.y - of byZero (b.y - a.y) / of byZero (b.x - a.x) * of byZero a.x)) /
        (of byZero (b.y - a.y) / of byZero (b.x - a.x))) =
    of byZero (if b.x - a.x == 0 then a.x else
      (y - (a.y - (b.y - a.y) / (b.x - a.x) * a.x)) / ((b.y - a.y) / (b.x - a.x)))
  by_cases hdx : b.x - a.x = 0
  · rw [hdx, beq_self_eq_true, if_pos rfl, if_pos rfl]
  · have hslope : (b.y - a.y) / (b.x - a.x) ≠ 0 := div_ne_zero (sub_ne_zero.2 hy.symm) hdx
    rw [if_neg (by simpa using hdx), if_neg (by simpa using hdx), ← of_div hdx, of_div hslope]
    rfl

omit [IsStrictOrderedRing K] in
theorem atAbscissa_of {a b : Point K} (hx : a.x ≠ b.x) (x : K) :
    atAbscissa (a.map (of byZero)) (b.map (of byZero)) (of byZero x) = (atAbscissa a b x).map (of byZero) := by
  have hslope : of byZero ((b.y - a.y) / (b.x - a.x)) = of byZero (b.y - a.y) / of byZero (b.x - a.x) :=
    of_div (sub_ne_zero.2 hx.symm) _
  refine Point.ext rfl ?_
  show of byZero (b.y - a.y) / of byZero (b.x - a.x) * of byZero x +
    (of byZero a.y - of byZero (b.y - a.y) / of byZero (b.x - a.x) * of byZero a.x) = _
  rw [← hslope]
  rfl

/-- Only where there are samples is anything divided by how far the ends are apart. -/
theorem map_below_of {u v step : K} {point : K → Point K} {point' : Patched byZero → Point (Patched byZero)}
    (h : u ≠ v → ∀ c, point' (of byZero c) = (point c).map (of byZero)) :
    (Progression.below (lesser (of byZero u) (of byZero v)) (greater (of byZero u) (of byZero v))
      (of byZero step)).toList.map point' =
    ((Progression.below (lesser u v) (greater u v) step).toList.map point).map (Point.map (of byZero)) := by
  rw [← Patched.of_lesser, ← Patched.of_greater, Progression.toList_below_of, List.map_map, List.map_map]
  refine List.map_congr_left fun c hc => ?_
  obtain ⟨hlo, hhi⟩ := Progression.mem_below hc
  rw [Scalar.lesser_eq] at hlo
  rw [Scalar.greater_eq] at hhi
  exact h (fraction_between hlo hhi).1 c

theorem segment_of (step : K) (a b : Point K) :
    segment (of byZero step) (a.map (of byZero)) (b.map (of byZero)) =
      (segment step a b).map (Point.map (of byZero)) := by
  have hsteep : isSteep (a.map (of byZero)) (b.map (of byZero)) = isSteep a b := by
    show decide (Scalar.magnitude (of byZero (b.x - a.x)) < Scalar.magnitude (of byZero (b.y - a.y))) = _
    rw [← Patched.of_magnitude, ← Patched.of_magnitude]
    rfl
  rw [segment, segment, hsteep]
  split
  · exact map_below_of byZero (atHeight_of byZero)
  · exact map_below_of byZero (atAbscissa_of byZero)

theorem line_of (step : K) (ps : List (Point K)) :
    line (of byZero step) (ps.map (Point.map (of byZero))) = (line step ps).map (Point.map (of byZero)) := by
  fun_induction line step ps with
  | case1 a b rest ih =>
    rw [List.map_append, ← ih, ← segment_of]
    rfl
  | case2 ps hshort =>
    rcases ps with _ | ⟨a, _ | ⟨b, rest⟩⟩
    · rfl
    · rfl
    · exact absurd rfl (hshort a b rest)

end

/-- **The samples of a polyline** are the runs of its segments one after the other, and a segment without length
has none. From the other end they are the same runs in the opposite order. Nothing is divided by zero for
them: with other quotients by zero, and without any, they are the same. -/
theorem line_eq_flatten {step : K} (hstep : 0 < step) (ps : List (Point K)) :
    ∃ runs : List (List (Point K)),
      List.Forall₂ (fun (a, b) run => IsSampled (longer a b) step a b run ∧ (a = b → run = []))
        (ps.zip ps.tail) runs ∧
      line step ps = runs.flatten ∧ line step ps.reverse = runs.reverse.flatten ∧
      ∀ byZero : K → Option K,
        line (of byZero step) (ps.map (Point.map (of byZero))) = (line step ps).map (Point.map (of byZero)) := by
  refine ⟨ps.zipWith (segment step) ps.tail, ?_, line_eq step ps, line_reverse hstep ps,
    fun byZero => line_of byZero step ps⟩
  rw [← List.map_uncurry_zip_eq_zipWith, List.forall₂_map_right_iff]
  refine List.forall₂_same.2 fun (a, b) _ => ⟨isSampled_segment hstep a b, ?_⟩
  rintro rfl
  exact (isSampled_segment hstep a a).eq_nil hstep

/-- An upright, a level, a steep and a shallow segment, the last two backwards, and one without length. -/
def zigzag : List (Point ℚ) := [⟨0, 0⟩, ⟨0, 5⟩, ⟨4, 5⟩, ⟨4, 5⟩, ⟨2, -1⟩, ⟨-2, 1⟩]

theorem line_eq_flatten_zigzag :
    line 2 zigzag = [⟨0, 0⟩, ⟨0, 2⟩, ⟨0, 4⟩, ⟨0, 5⟩, ⟨2, 5⟩, ⟨2, -1⟩, ⟨8 / 3, 1⟩, ⟨10 / 3, 3⟩, ⟨-2, 1⟩, ⟨0, 0⟩] ∧
      ∀ byZero : ℚ → Option ℚ, line (of byZero 2) (zigzag.map (Point.map (of byZero))) =
        (line 2 zigzag).map (Point.map (of byZero)) := by
  obtain ⟨-, -, -, -, hbyZero⟩ := line_eq_flatten (show (0 : ℚ) < 2 by decide) zigzag
  exact ⟨by decide +kernel, hbyZero⟩

end Sampling

end StencilKit
