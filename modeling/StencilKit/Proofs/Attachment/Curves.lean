/-
What a curve is sampled at.

A curve is sampled where it lies in the drawing plane and drawn relative to the box around the selection, and
where its pieces begin is not written down when it is drawn. In exact coordinates both are the same curve: what
an anchor of it stands for is the point, at some parameter, of a piece that the pen draws, and every piece has
its anchors at the same parameters (`edge_curve_stepped`). These are the multiples of the step that fall short of
one by more than the slack, which is not all those below one (`not_steppedBelow_one`).
-/
import StencilKit.Proofs.Coordinates.Translation
import StencilKit.Proofs.Decomposition.Segments

namespace StencilKit

section

variable {α : Type}

/-- A piece of a curve as what a pen draws. -/
def Quadratic.segment (q : Quadratic α) : Segment α := .quad q.start q.control q.stop

/-- Where an anchor lies, in fractions of the stencil. -/
def Anchor.fraction (a : Anchor α) : Point α := ⟨a.x, a.y⟩

variable [Scalar α]

/-- A pen at the start of a piece draws that piece, and is at the start of the next one. -/
theorem Quadratic.segments_smoothFrom (start p : Point α) (ps : List (Point α)) :
    Cursor.segments ⟨start, p⟩ ((smoothFrom start ps).map fun q => .quad q.control q.stop) =
      (smoothFrom start ps).map segment := by
  fun_induction smoothFrom start ps with
  | case1 => rfl
  | case2 start control next q rest ih => exact congrArg (Segment.quad start control _ :: ·) ih
  | case3 => rfl

/-- There are two fewer pieces than points. -/
theorem Quadratic.length_smooth : ∀ ps : List (Point α), (smooth ps).length = ps.length - 2
  | [] | [_] => rfl
  | start :: p :: rest => length_smoothFrom start p rest

theorem Path.segments_ofCurve {ps : List (Point α)} (h : 3 ≤ ps.length) :
    (ofCurve ps).segments = (Quadratic.smooth ps).map Quadratic.segment := by
  match ps with
  | start :: rest =>
    show Cursor.segments ⟨start, start⟩ (smooth (start :: rest)) = _
    rw [smooth, if_neg (not_lt.2 h)]
    exact Quadratic.segments_smoothFrom start start rest

end

variable {K : Type} [Field K] [LinearOrder K] [IsStrictOrderedRing K] [FloorRing K] [Transcendental K]

/-- Whether points are those of the pieces of a curve, piece by piece, at the parameters zero, `step`, twice
`step` and so on, as long as these are below a limit. -/
def Quadratic.SteppedBelow (limit step : K) (pieces : List (Quadratic K)) (points : List (Point K)) : Prop :=
  ∃ n : Nat, (∀ k : Nat, k < n ↔ k * step < limit) ∧
    points = pieces.flatMap fun q => (List.range n).map fun k => q.point (k * step)

namespace Quadratic.SteppedBelow

variable {limit step : K} {pieces : List (Quadratic K)} {points : List (Point K)}

omit [IsStrictOrderedRing K] in
theorem moved (h : SteppedBelow limit step pieces points) (d : Point K) :
    SteppedBelow limit step (pieces.map (·.moved d)) (points.map (· + d)) := by
  obtain ⟨n, hn, rfl⟩ := h
  refine ⟨n, hn, ?_⟩
  simp only [List.map_flatMap, List.flatMap_map, List.map_map, Function.comp_def, Quadratic.point_moved]

theorem exists_of_mem (h : SteppedBelow limit step pieces points) (hstep : 0 < step) {p : Point K} (hp : p ∈ points) :
    ∃ q ∈ pieces, ∃ t, 0 ≤ t ∧ t < limit ∧ q.point t = p := by
  obtain ⟨n, hn, rfl⟩ := h
  obtain ⟨q, hq, hp⟩ := List.mem_flatMap.1 hp
  obtain ⟨k, hk, rfl⟩ := List.mem_map.1 hp
  exact ⟨q, hq, _, by positivity, (hn k).1 (List.mem_range.1 hk), rfl⟩

end Quadratic.SteppedBelow

namespace Sampling

variable {frame : Box K} {ps : List (Point K)} {options : SamplingOptions K}

omit [IsStrictOrderedRing K] in
/-- An anchor stands for the point that it was made from. -/
theorem fraction_anchor (hw : frame.w ≠ 0) (hh : frame.h ≠ 0) (name : String) (p : Point K) :
    (anchor frame name p).fraction * frame.size = p + -frame.origin :=
  Point.ext ((div_mul_cancel₀ _ hw).trans (sub_eq_add_neg _ _)) ((div_mul_cancel₀ _ hh).trans (sub_eq_add_neg _ _))

omit [IsStrictOrderedRing K] in
/-- A curve that is drawn relative to a box is the curve, moved. -/
theorem smooth_toLocal (frame : Box K) (ps : List (Point K)) :
    Quadratic.smooth (ps.map frame.toLocal) = (Quadratic.smooth ps).map (·.moved (-frame.origin)) := by
  rw [← Quadratic.smooth_moved]
  exact congrArg Quadratic.smooth
    (List.map_congr_left fun p _ => Point.ext (sub_eq_add_neg p.x _) (sub_eq_add_neg p.y _))

/-- A curve of three points or more is sampled piece by piece. -/
theorem steppedBelow_curve (hps : 3 ≤ ps.length) (hstep : 0 < options.curveStep) :
    Quadratic.SteppedBelow (1 - 1 / 10 ^ 9 * options.curveStep) options.curveStep (Quadratic.smooth ps)
      (curve options ps) := by
  refine ⟨(Progression.below 0 1 options.curveStep).toList.length, fun k => ?_, ?_⟩
  · rw [Progression.lt_length_below hstep zero_le_one, sub_zero]
  · have hparameter : ∀ k : Nat, (0 : K) + k * options.curveStep = k * options.curveStep := fun k => zero_add _
    rw [curve, if_neg (not_lt.2 hps), Progression.toList, List.length_map, List.length_range]
    simp only [List.map_map, Function.comp_def]
    exact List.flatMap_congr fun q _ => List.map_congr_left fun k _ => congrArg q.point (hparameter k)

/-- **The samples of a curve** of three points or more lie on the pieces that are drawn of it, on each at the same
parameters. -/
theorem edge_curve_stepped (hps : 3 ≤ ps.length) (hframe : frame.isDegenerate = false)
    (hstep : 0 < options.curveStep) (name : String) :
    let drawn := ((edge options .curve ps).map (anchor frame name)).map fun a => a.fraction * frame.size
    ∃ pieces : List (Quadratic K), pieces.length = ps.length - 2 ∧
      (Path.ofCurve (ps.map frame.toLocal)).segments = pieces.map Quadratic.segment ∧
      Quadratic.SteppedBelow (1 - 1 / 10 ^ 9 * options.curveStep) options.curveStep pieces drawn ∧
      ∀ p ∈ drawn, ∃ q ∈ pieces, ∃ t, 0 ≤ t ∧ t < 1 ∧ q.point t = p := by
  intro drawn
  obtain ⟨hw, hh⟩ : 0 < frame.w ∧ 0 < frame.h := by simpa [Box.isDegenerate] using hframe
  have hdrawn : drawn = (curve options ps).map (· + -frame.origin) :=
    List.map_map.trans (List.map_congr_left fun p _ => fraction_anchor hw.ne' hh.ne' name p)
  have hstepped := (steppedBelow_curve hps hstep).moved (-frame.origin)
  rw [← hdrawn, ← smooth_toLocal] at hstepped
  refine ⟨Quadratic.smooth (ps.map frame.toLocal), ?_, ?_, hstepped, fun p hp => ?_⟩
  · rw [Quadratic.length_smooth, List.length_map]
  · exact Path.segments_ofCurve (by rwa [List.length_map])
  · obtain ⟨q, hq, t, h0, hlimit, hpoint⟩ := hstepped.exists_of_mem hstep hp
    have hslack : 0 < 1 / 10 ^ 9 * options.curveStep := by positivity
    exact ⟨q, hq, t, h0, by linarith, hpoint⟩

/-- Four points, which are two pieces of a curve. -/
def wave : List (Point ℚ) := [⟨0, 0⟩, ⟨4, 8⟩, ⟨8, -8⟩, ⟨12, 0⟩]

theorem edge_curve_stepped_wave :
    let frame : Box ℚ := ⟨0, -8, 12, 16⟩
    let options : SamplingOptions ℚ := { SamplingOptions.standard with curveStep := 2 / 5 }
    let drawn := ((edge options .curve wave).map (anchor frame "curve")).map fun a => a.fraction * frame.size
    (3 ≤ wave.length ∧ frame.isDegenerate = false ∧ 0 < options.curveStep) ∧ drawn.length = 6 ∧
      ∃ pieces : List (Quadratic ℚ), pieces.length = 2 ∧
        (Path.ofCurve (wave.map frame.toLocal)).segments = pieces.map Quadratic.segment ∧
        Quadratic.SteppedBelow (1 - 1 / 10 ^ 9 * options.curveStep) options.curveStep pieces drawn ∧
        ∀ p ∈ drawn, ∃ q ∈ pieces, ∃ t, 0 ≤ t ∧ t < 1 ∧ q.point t = p := by
  intro frame options drawn
  have hvalid : 3 ≤ wave.length ∧ frame.isDegenerate = false ∧ 0 < options.curveStep := by decide +kernel
  obtain ⟨hps, hframe, hstep⟩ := hvalid
  have hdrawn : drawn.length = 6 := by decide +kernel
  exact ⟨⟨hps, hframe, hstep⟩, hdrawn, edge_curve_stepped hps hframe hstep "curve"⟩

/-- Three points, which are one piece of a curve. -/
def arch : List (Point ℚ) := [⟨0, 0⟩, ⟨4, 8⟩, ⟨8, 0⟩]

/-- With a step that falls just short of one, two multiples are below one, and only the first is sampled. -/
theorem not_steppedBelow_one :
    let frame : Box ℚ := ⟨0, 0, 8, 8⟩
    let options : SamplingOptions ℚ := { SamplingOptions.standard with curveStep := 9999999999 / 10 ^ 10 }
    (3 ≤ arch.length ∧ frame.isDegenerate = false ∧ 0 < options.curveStep) ∧
      ∀ pieces : List (Quadratic ℚ),
        (Path.ofCurve (arch.map frame.toLocal)).segments = pieces.map Quadratic.segment →
        ¬ Quadratic.SteppedBelow 1 options.curveStep pieces
          (((edge options .curve arch).map (anchor frame "curve")).map fun a => a.fraction * frame.size) := by
  intro frame options
  refine ⟨by decide +kernel, ?_⟩
  rintro pieces hpath ⟨n, hn, hpoints⟩
  have hpieces : pieces.length = 1 := by
    rw [← List.length_map Quadratic.segment, ← hpath]
    decide +kernel
  obtain ⟨q, rfl⟩ := List.length_eq_one_iff.1 hpieces
  have hone : 1 < n := (hn 1).2 (by decide +kernel)
  have hlength := congrArg List.length hpoints
  have hsamples : (edge options .curve arch).length = 1 := by decide +kernel
  simp [hsamples] at hlength
  omega

end Sampling

end StencilKit
