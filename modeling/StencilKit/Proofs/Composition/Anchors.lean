/-
Where the anchors of a composed stencil lie.

An anchor is given in fractions of the stencil. In exact coordinates those of anything that lies in the box
around the selection lie between zero and one, with one exception: a grid that a region is scanned with may
get past the far end of the region, where the width or the height of the region falls short of a whole number
of steps by no more than the slack (`anchors_of_compose`). Regions that end with the selection then have anchors
outside of it.
-/
import StencilKit.Proofs.Coordinates.Samples
import StencilKit.Proofs.Composition.Blocks

namespace StencilKit

section

variable {α : Type}

/-- The points that an anchorage is spanned by: the points of an edge, and two corners of a box. -/
def Anchorage.extremes [Scalar α] : Anchorage α → List (Point α)
  | spot b | region _ _ b => [b.origin, b.far]
  | along e => e.points

/-- The box of an anchorage that is scanned with a grid: a region, unless it is the outline of a plain box or
an ellipse. -/
def Anchorage.scanned? : Anchorage α → Option (Box α)
  | region .outline .rectangle _ | region .outline .ellipse _ => none
  | region _ _ b => some b
  | spot _ | along _ => none

end

variable {K : Type} [Field K] [LinearOrder K] [IsStrictOrderedRing K] [FloorRing K] [Transcendental K]

/-- What is known of a point sampled from what lies in a box: it lies in the box, too, unless a grid of the
given step got past an end of what was scanned. -/
structure Box.Reaches (frame : Box K) (step : K) (scanned? : Option (Box K)) (p : Point K) : Prop where
  left : frame.x ≤ p.x
  upper : frame.y ≤ p.y
  right : frame.far.x < p.x → ∃ b ∈ scanned?, Progression.FallsShort b.w step ∧
    p.x ≤ frame.far.x + Progression.slack * step
  lower : frame.far.y < p.y → ∃ b ∈ scanned?, Progression.FallsShort b.h step ∧
    p.y ≤ frame.far.y + Progression.slack * step

omit [IsStrictOrderedRing K] in
theorem Box.Covers.reaches {frame : Box K} {p : Point K} (h : frame.Covers p) (step : K) (scanned? : Option (Box K)) :
    frame.Reaches step scanned? p where
  left := h.left
  upper := h.upper
  right hpast := absurd h.right (not_le.2 hpast)
  lower hpast := absurd h.lower (not_le.2 hpast)

theorem Sampling.reaches_grid {frame b : Box K} {step : K} (horigin : frame.Covers b.origin)
    (hfar : frame.Covers b.far) : ∀ p ∈ grid step b.w b.h, frame.Reaches step (some b) (b.origin + p) := by
  intro p hp
  obtain ⟨x, hx, hp⟩ := List.mem_flatMap.1 hp
  obtain ⟨y, hy, rfl⟩ := List.mem_map.1 hp
  have hright : b.x + b.w ≤ frame.far.x := hfar.right
  have hlower : b.y + b.h ≤ frame.far.y := hfar.lower
  obtain ⟨hx0, hxpast⟩ := Progression.mem_through hx
  obtain ⟨hy0, hypast⟩ := Progression.mem_through hy
  refine ⟨horigin.left.trans (le_add_of_nonneg_right hx0), horigin.upper.trans (le_add_of_nonneg_right hy0),
    fun hpast => ?_, fun hpast => ?_⟩
  · have hpast : frame.far.x < b.x + x := hpast
    obtain ⟨hshort, hend⟩ := hxpast (by linarith)
    refine ⟨b, rfl, hshort, ?_⟩
    show b.x + x ≤ _
    linarith
  · have hpast : frame.far.y < b.y + y := hpast
    obtain ⟨hshort, hend⟩ := hypast (by linarith)
    refine ⟨b, rfl, hshort, ?_⟩
    show b.y + y ≤ _
    linarith

/-- What a point comes to in fractions of the box. -/
theorem Box.Reaches.anchor {frame : Box K} {step : K} {scanned? : Option (Box K)} {p : Point K}
    (hp : frame.Reaches step scanned? p) (hw : 0 < frame.w) (hh : 0 < frame.h) (name : String) :
    let a := Sampling.anchor frame name p
    (0 ≤ a.x ∧ 0 ≤ a.y) ∧
      (1 < a.x → ∃ b ∈ scanned?, Progression.FallsShort b.w step ∧ a.x ≤ 1 + Progression.slack * step / frame.w) ∧
      (1 < a.y → ∃ b ∈ scanned?, Progression.FallsShort b.h step ∧ a.y ≤ 1 + Progression.slack * step / frame.h) := by
  intro a
  have hpast : ∀ {lo size u : K}, 0 < size → 1 < (u - lo) / size → lo + size < u := by
    intro lo size u hsize hu
    rw [lt_div_iff₀ hsize, one_mul] at hu
    linarith
  have hend : ∀ {lo size u e : K}, 0 < size → u ≤ lo + size + e → (u - lo) / size ≤ 1 + e / size := by
    intro lo size u e hsize hu
    rw [← div_self hsize.ne', ← add_div]
    exact div_le_div_of_nonneg_right (by linarith) hsize.le
  refine ⟨⟨div_nonneg (sub_nonneg.2 hp.left) hw.le, div_nonneg (sub_nonneg.2 hp.upper) hh.le⟩, fun hx => ?_,
    fun hy => ?_⟩
  · obtain ⟨b, hb, hshort, hlast⟩ := hp.right (hpast hw hx)
    exact ⟨b, hb, hshort, hend hw hlast⟩
  · obtain ⟨b, hb, hshort, hlast⟩ := hp.lower (hpast hh hy)
    exact ⟨b, hb, hshort, hend hh hlast⟩

namespace Workshop

variable {shop : Workshop K}

theorem reaches_scan {frame b : Box K} {options : SamplingOptions K} {kind : RegionKind} {shape : ShapeRef}
    (horigin : frame.Covers b.origin) (hfar : frame.Covers b.far) {ps : List (Point K)}
    (h : shop.scan options kind shape b = .ok ps) : ∀ p ∈ ps, frame.Reaches options.gridStep (some b) p := by
  simp only [Sampling.Scanner.scan, Xml.bind_eq_ok, pure, Except.pure, Except.ok.injEq] at h
  obtain ⟨outlines, -, rfl⟩ := h
  intro p hp
  obtain ⟨q, hq, rfl⟩ := List.mem_map.1 hp
  exact Sampling.reaches_grid horigin hfar q (List.mem_filter.1 hq).1

/-- **Samples of what lies in a box** lie in the box, but for those of a grid that gets past an end. -/
theorem reaches_samples (hcos : ∀ θ : K, |Scalar.cos θ| ≤ 1) (hsin : ∀ θ : K, |Scalar.sin θ| ≤ 1) {frame : Box K}
    {anchorage : Anchorage K} (hin : ∀ q ∈ anchorage.extremes, frame.Covers q) {ps : List (Point K)}
    (h : shop.samples anchorage = .ok ps) :
    ∀ p ∈ ps, frame.Reaches shop.options.sampling.gridStep anchorage.scanned? p := by
  have hcorners : ∀ {b : Box K}, (∀ q ∈ [b.origin, b.far], frame.Covers q) →
      frame.Covers b.origin ∧ frame.Covers b.far := by
    intro b hb
    obtain ⟨horigin, hfar⟩ := List.forall_mem_cons.1 hb
    exact ⟨horigin, List.forall_mem_singleton.1 hfar⟩
  cases anchorage with
  | spot b =>
    cases h
    obtain ⟨horigin, hfar⟩ := hcorners hin
    exact List.forall_mem_singleton.2 ((Sampling.covers_center horigin hfar).reaches _ _)
  | along e =>
    cases h
    exact fun p hp => (Sampling.covers_edge hin p hp).reaches _ _
  | region kind shape b =>
    obtain ⟨horigin, hfar⟩ := hcorners hin
    match kind, shape with
    | .outline, .rectangle =>
      cases h
      exact fun p hp => (Sampling.covers_rectOutline horigin hfar p hp).reaches _ _
    | .outline, .ellipse =>
      cases h
      intro p hp
      obtain ⟨θ, -, rfl⟩ := List.mem_map.1 hp
      exact (Sampling.covers_ellipsePoint hcos hsin horigin hfar θ).reaches _ _
    | .outline, .named _ | .outline, .embedded _ => exact reaches_scan horigin hfar h
    | .area, _ => exact reaches_scan horigin hfar h

/-- **The anchors of a composed stencil.** Each thing that can be attached to has its block, in order, which bears
its number and comes of it alone. If the thing lies in the box around the selection, none of the anchors in its
block is less than zero, and one exceeds one only if the thing is a region that is scanned and falls short of a
whole number of steps, and then by no more than the slack. -/
theorem anchors_of_compose {selection : List (Primitive K)} {background : Background} {arrangement : Arrangement}
    {c : Composition K} (h : shop.compose selection background arrangement = .ok c)
    (hcos : ∀ θ : K, |Scalar.cos θ| ≤ 1) (hsin : ∀ θ : K, |Scalar.sin θ| ≤ 1) :
    let step := shop.options.sampling.gridStep
    let sources := (selection.filter (!·.isText)).flatMap (·.sources)
    ∃ blocks : List (List (Connection K)), c.stencil.connections = blocks.flatten ∧
      List.Forall₂ (fun (source, k) block =>
          shop.block c.bounds source k = .ok block ∧
          IsBlock (Tag.text ⟨source.outlet.kind, .ofNat k, source.outlet.label⟩) source.outlet block ∧
          ((∀ q ∈ source.anchorage.extremes, c.bounds.Covers q) →
            ∀ a, .anchor a ∈ block → (0 ≤ a.x ∧ 0 ≤ a.y) ∧
              (1 < a.x → ∃ b ∈ source.anchorage.scanned?, Progression.FallsShort b.w step ∧
                a.x ≤ 1 + Progression.slack * step / c.bounds.w) ∧
              (1 < a.y → ∃ b ∈ source.anchorage.scanned?, Progression.FallsShort b.h step ∧
                a.y ≤ 1 + Progression.slack * step / c.bounds.h)))
        sources.zipIdx blocks := by
  intro step sources
  obtain ⟨frame, nodes, connections, -, -, harea, -, hconnections, rfl⟩ := compose_eq_ok.1 h
  obtain ⟨blocks, rfl, hblocks⟩ := blocks_of_connections hconnections
  refine ⟨blocks, rfl, hblocks.imp ?_⟩
  simp only [Box.isDegenerate, Bool.not_eq_false', Bool.and_eq_true, decide_eq_true_eq] at harea
  obtain ⟨hw, hh⟩ := harea
  rintro ⟨source, k⟩ block hblock
  refine ⟨hblock, isBlock_block hblock, ?_⟩
  intro hin a ha
  obtain ⟨ps, hps, p, hp, name, rfl⟩ := exists_sample_of_mem_block hblock ha
  exact (reaches_samples hcos hsin hin hps p hp).anchor hw hh name

end Workshop

section

/-- Cosines near those of the first quarter of a turn, continued over all angles. -/
def nearCos (θ : ℚ) : ℚ :=
  let half : ℚ := 355 / 113
  let u := |θ - 2 * half * ⌊θ / (2 * half) + 1 / 2⌋|
  let quarter (v : ℚ) := max 0 (min 1 ((half ^ 2 - 4 * v ^ 2) / (half ^ 2 + v ^ 2)))
  if u ≤ half / 2 then quarter u else -quarter (half - u)

theorem abs_nearCos_le (θ : ℚ) : |nearCos θ| ≤ 1 := by
  have hquarter : ∀ q : ℚ, |max 0 (min 1 q)| ≤ 1 := fun q =>
    abs_le.2 ⟨le_trans (by norm_num) (le_max_left 0 _), max_le zero_le_one (min_le_left 1 q)⟩
  unfold nearCos
  dsimp only
  split
  · exact hquarter _
  · rw [abs_neg]
    exact hquarter _

/-- Rational numbers with cosines and sines that do not exceed one. -/
local instance boundedTranscendental : Transcendental ℚ where
  pi := 355 / 113
  sqrt q := (q.num.toNat * q.den).sqrt / q.den
  cos := nearCos
  sin t := nearCos (t - 355 / 226)

/-- A line and an ellipse that can be attached to, an image with a spot, and one with an area that ends with
the selection. -/
def anchored : List (Primitive ℚ) :=
  [.edge ⟨.line, ⟨⟨0, 0⟩, [⟨3, 7⟩], ⟨9, 1⟩⟩⟩ {} true [],
    .stencil .ellipse ⟨1, 2, 6, 5⟩ {} true [],
    .image "data:image/png,0" ⟨6, 5, 3, 5⟩ {}
      [⟨"pin", .spot ⟨0, 0, 1, 1⟩⟩, ⟨"", .region .area .rectangle ⟨0, 0, 3, 5⟩⟩]]

theorem Stencil.mem_anchors_iff {α : Type} {s : Stencil α} {a : Anchor α} :
    a ∈ s.anchors ↔ .anchor a ∈ s.connections := by
  rw [anchors, List.mem_filterMap]
  constructor
  · rintro ⟨e, he, ha⟩
    cases e with
    | anchor b => exact Option.some.inj ha ▸ he
    | _ => cases ha
  · intro ha
    exact ⟨.anchor a, ha, rfl⟩

/-- Neither three nor five is just short of a number of steps of five. -/
theorem not_fallsShort_anchored :
    ¬ Progression.FallsShort (3 : ℚ) 5 ∧ ¬ Progression.FallsShort (5 : ℚ) 5 := by
  constructor
  · rintro ⟨n, hpast, hend⟩
    rw [Progression.slack_eq] at hend
    have hone : 1 ≤ n := Nat.one_le_iff_ne_zero.2 (by rintro rfl; norm_num at hpast)
    have hone : (1 : ℚ) ≤ n := by exact_mod_cast hone
    linarith
  · rintro ⟨n, hpast, hend⟩
    rw [Progression.slack_eq] at hend
    have htwo : 1 < n := by
      have : (1 : ℚ) < n := by linarith
      exact_mod_cast this
    have htwo : (2 : ℚ) ≤ n := by exact_mod_cast htwo
    linarith

theorem Workshop.anchors_of_compose_anchored :
    ∃ c : Composition ℚ, Workshop.bare.compose anchored .filled .shapes = .ok c ∧
      (∀ θ : ℚ, |Scalar.cos θ| ≤ 1) ∧ (∀ θ : ℚ, |Scalar.sin θ| ≤ 1) ∧
      c.stencil.anchors.length = 262 ∧
      ∀ a ∈ c.stencil.anchors, (0 ≤ a.x ∧ a.x ≤ 1) ∧ 0 ≤ a.y ∧ a.y ≤ 1 := by
  let sources := (anchored.filter (!·.isText)).flatMap (·.sources)
  have hok : (Workshop.bare.compose anchored .filled .shapes).toOption.any (fun c => decide <|
      (∀ source ∈ sources, ∀ q ∈ source.anchorage.extremes, c.bounds.Covers q) ∧
        c.stencil.anchors.length = 262) = true := by
    decide +kernel
  have hscanned : sources.filterMap (·.anchorage.scanned?) = [⟨6, 5, 3, 5⟩] := by decide +kernel
  have hcos : ∀ θ : ℚ, |Scalar.cos θ| ≤ 1 := abs_nearCos_le
  have hsin : ∀ θ : ℚ, |Scalar.sin θ| ≤ 1 := fun θ => abs_nearCos_le (θ - 355 / 226)
  obtain ⟨c, hc, hchecked⟩ := exists_ok_of_any hok
  obtain ⟨hin, hlength⟩ := of_decide_eq_true hchecked
  obtain ⟨blocks, hconnections, hblocks⟩ := Workshop.anchors_of_compose hc hcos hsin
  refine ⟨c, hc, hcos, hsin, hlength, ?_⟩
  intro a ha
  rw [Stencil.mem_anchors_iff, hconnections] at ha
  obtain ⟨block, hblock, ha⟩ := List.mem_flatten.1 ha
  obtain ⟨k, hk, rfl⟩ := List.mem_iff_getElem.1 hblock
  obtain ⟨hcount, hget⟩ := List.forall₂_iff_get.1 hblocks
  have hk' : k < sources.zipIdx.length := hcount ▸ hk
  obtain ⟨-, -, hbounds⟩ := hget k hk' hk
  have hsource : sources.zipIdx[k].1 ∈ sources := List.fst_mem_of_mem_zipIdx (List.getElem_mem hk')
  obtain ⟨⟨hx0, hy0⟩, hx1, hy1⟩ := hbounds (hin _ hsource) a ha
  -- The image's area is all that is scanned.
  have harea : ∀ b ∈ sources.zipIdx[k].1.anchorage.scanned?, b = ⟨6, 5, 3, 5⟩ := by
    intro b hb
    rw [← List.mem_singleton, ← hscanned]
    exact List.mem_filterMap.2 ⟨_, hsource, hb⟩
  refine ⟨⟨hx0, not_lt.1 fun hpast => ?_⟩, hy0, not_lt.1 fun hpast => ?_⟩
  · obtain ⟨b, hb, hshort, -⟩ := hx1 hpast
    rw [harea b hb] at hshort
    exact not_fallsShort_anchored.1 hshort
  · obtain ⟨b, hb, hshort, -⟩ := hy1 hpast
    rw [harea b hb] at hshort
    exact not_fallsShort_anchored.2 hshort

/-- A rectangle whose width is just short of a step of the grid, with all of it to attach to. -/
def overrun : List (Primitive ℚ) :=
  [.stencil .rectangle ⟨0, 0, 5 - 1 / 10 ^ 9, 4⟩ {} false [⟨"", .region .area .rectangle ⟨0, 0, 5 - 1 / 10 ^ 9, 4⟩⟩]]

/-- **An anchor outside of the stencil**, of a region that lies within the selection. -/
theorem Workshop.exists_anchor_past_overrun :
    ∃ c : Composition ℚ, Workshop.bare.compose overrun .filled .shapes = .ok c ∧
      (∀ source ∈ overrun.flatMap (·.sources), ∀ q ∈ source.anchorage.extremes, c.bounds.Covers q) ∧
      ∃ a ∈ c.stencil.anchors, 1 < a.x := by
  have hok : (Workshop.bare.compose overrun .filled .shapes).toOption.any (fun c => decide <|
      (∀ source ∈ overrun.flatMap (·.sources), ∀ q ∈ source.anchorage.extremes, c.bounds.Covers q) ∧
        ∃ a ∈ c.stencil.anchors, 1 < a.x) = true := by
    decide +kernel
  obtain ⟨c, hc, hpast⟩ := exists_ok_of_any hok
  exact ⟨c, hc, of_decide_eq_true hpast⟩

end

end StencilKit
