/-
Where the box of a composed selection lies.

In exact coordinates it is the least box around all points of edges and all corners of boxes, with one exception. A
group without edges counts as a point at the origin of the drawing plane, so the box reaches out to there, wherever
the others may be (`isHull_of_compose`). Such a group can only be composed where all is drawn as one path. A selection
that holds all of another one has a box that holds the other's.
-/
import StencilKit.Proofs.Coordinates.Hull
import StencilKit.Proofs.Composition.Composable

namespace StencilKit

variable {K : Type} [Field K] [LinearOrder K] [FloorRing K] [Transcendental K]

/-- A box whose corners span only the origin has no width. -/
theorem Box.IsHull.w_eq_zero {b : Box K} {ps : List (Point K)} (h : b.IsHull ps) (hps : ∀ p ∈ ps, p = 0) :
    b.w = 0 := by
  have hx : ∀ x ∈ ps.map Point.x, x = 0 := List.forall_mem_map.2 fun p hp => congrArg Point.x (hps p hp)
  have hleft : b.x = 0 := hx _ h.left
  have hright : b.x + b.w = 0 := hx _ h.right
  rwa [hleft, zero_add] at hright

namespace Workshop

variable {selection : List (Primitive K)} {frame : Box K}

/-- **When the box around a selection is the hull** of the points that its primitives are made of: if there is a
group without edges, no box around those points may leave out the origin. -/
theorem isHull_extremes_iff (h : frameOf selection = .ok frame) (hw : 0 < frame.w) :
    frame.IsHull (selection.flatMap (·.extremes)) ↔
      ((∃ style, .group [] style ∈ selection) →
        ∀ b : Box K, (∀ q ∈ selection.flatMap (·.extremes), b.Covers q) → b.Covers 0) := by
  have hframe := isHull_of_frameOf h
  have hspanning : ∀ q ∈ selection.flatMap (·.spanning), q ∈ selection.flatMap (·.extremes) ∨
      (∃ style, .group [] style ∈ selection) ∧ q = 0 := by
    intro q hq
    obtain ⟨p, hp, hq⟩ := List.mem_flatMap.1 hq
    rcases Primitive.mem_spanning.1 hq with hq | ⟨⟨style, rfl⟩, rfl⟩
    · exact .inl (List.mem_flatMap.2 ⟨p, hp, hq⟩)
    · exact .inr ⟨⟨style, hp⟩, rfl⟩
  constructor
  · rintro hhull ⟨style, hmem⟩ b hb
    have hcontains : b.Contains frame := hhull.contained hb
    have hzero : (0 : Point K) ∈ selection.flatMap (·.spanning) :=
      List.mem_flatMap.2 ⟨_, hmem, List.mem_singleton_self 0⟩
    exact hcontains.1.trans hcontains.2 (hframe.covers 0 hzero)
  · intro horigin
    have hne : selection.flatMap (·.extremes) ≠ [] := by
      intro hnil
      refine hw.ne' (hframe.w_eq_zero fun q hq => ?_)
      rcases hspanning q hq with hq | ⟨-, rfl⟩
      · rw [hnil] at hq
        cases hq
      · rfl
    -- The hull of the points holds the origin too, if that counts, and so it holds the frame; the frame holds it.
    have hhull := Extent.isHull_getD hne
    have hcontained : frame.Contains _ := hhull.contained fun q hq => by
      obtain ⟨p, hp, hq⟩ := List.mem_flatMap.1 hq
      exact covers_of_frameOf h hp q hq
    have hcontains : Box.Contains _ frame := hframe.contained fun q hq => by
      rcases hspanning q hq with hq | ⟨hgroup, rfl⟩
      · exact hhull.covers q hq
      · exact horigin hgroup _ hhull.covers
    rw [hcontained.antisymm hcontains]
    exact hhull

/-- **Where the box of a composed selection lies.** It is the least box around all points of edges, all corners of
boxes, and the origin if there is a group without edges; and without the origin it is that only if the others
cannot be held by a box that leaves the origin out. Primitives that are drawn on their own have no such group among
them. Composed in whatever way, a part of the selection has its box in this one. -/
theorem isHull_of_compose {shop : Workshop K} {background : Background} {arrangement : Arrangement}
    {c : Composition K} (h : shop.compose selection background arrangement = .ok c) :
    (c.bounds.IsHull (selection.flatMap (·.spanning)) ∧
      ∀ b : Box K, (∀ q ∈ selection.flatMap (·.spanning), b.Covers q) → b.Contains c.bounds) ∧
    (c.bounds.IsHull (selection.flatMap (·.extremes)) ↔
      ((∃ style, .group [] style ∈ selection) →
        ∀ b : Box K, (∀ q ∈ selection.flatMap (·.extremes), b.Covers q) → b.Covers 0)) ∧
    (arrangement = .shapes → ∀ style, .group [] style ∉ selection) ∧
    ∀ {other : Workshop K} {part : List (Primitive K)} {background' : Background} {arrangement' : Arrangement}
      {c' : Composition K}, part ⊆ selection → other.compose part background' arrangement' = .ok c' →
        c.bounds.Contains c'.bounds := by
  obtain ⟨frame, nodes, connections, -, hframe, harea, hnodes, -, rfl⟩ := compose_eq_ok.1 h
  have hhull := isHull_of_frameOf hframe
  refine ⟨⟨hhull, fun b hb => hhull.contained hb⟩, isHull_extremes_iff hframe (Box.isDegenerate_eq_false.1 harea).1,
    ?_, ?_⟩
  · rintro rfl style hmem
    have hdraw : shop.CanDraw selection .shapes := drawBody_iff.1 ⟨nodes, hnodes⟩
    exact (hdraw [] style hmem).1 rfl
  · intro other part background' arrangement' c' hpart h'
    obtain ⟨frame', nodes', connections', -, hframe', -, -, -, rfl⟩ := compose_eq_ok.1 h'
    refine (isHull_of_frameOf hframe').contained fun q hq => ?_
    obtain ⟨p, hp, hq⟩ := List.mem_flatMap.1 hq
    exact hhull.covers q (List.mem_flatMap.2 ⟨p, hpart hp, hq⟩)

/-- A curve that bends far out, an image whose far corner lies before its origin, a caption, and a group. -/
def spread : List (Primitive ℚ) :=
  [.edge ⟨.curve, ⟨⟨0, 0⟩, [⟨3, -7⟩], ⟨4, 0⟩⟩⟩ {} false [], .image "data:image/png,0" ⟨5, 5, -9, 2⟩ {} [],
    .text "caption" ⟨6, 8, 5, 1⟩ {}, .group [⟨.line, ⟨⟨1, 1⟩, [], ⟨2, 3⟩⟩⟩, ⟨.line, ⟨⟨2, 3⟩, [], ⟨2, 12⟩⟩⟩] {}]

theorem isHull_of_compose_spread :
    ∃ c c' : Composition ℚ, bare.compose spread .filled .shapes = .ok c ∧
      bare.compose (spread.take 1) .filled .singlePath = .ok c' ∧
      c.bounds.IsHull (spread.flatMap (·.spanning)) ∧ c.bounds.IsHull (spread.flatMap (·.extremes)) ∧
      c.bounds.Contains c'.bounds := by
  have hok : (bare.compose spread .filled .shapes).toBool = true := by decide +kernel
  have hok' : (bare.compose (spread.take 1) .filled .singlePath).toBool = true := by decide +kernel
  obtain ⟨c, hc⟩ := exists_ok_of_toBool hok
  obtain ⟨c', hc'⟩ := exists_ok_of_toBool hok'
  obtain ⟨⟨hhull, -⟩, hiff, hgroups, hpart⟩ := isHull_of_compose hc
  have hextremes := hiff.2 fun ⟨style, hmem⟩ => absurd hmem (hgroups rfl style)
  exact ⟨c, c', hc, hc', hhull, hextremes, hpart (List.take_subset 1 spread) hc'⟩

/-- A line away from the origin, and a group without edges. -/
def hollow : List (Primitive ℚ) := [.edge ⟨.line, ⟨⟨10, 10⟩, [], ⟨20, 20⟩⟩⟩ {} false [], .group [] {}]

/-- **A group without edges** makes the box larger than the least one around all points. -/
theorem not_isHull_hollow :
    ∃ c : Composition ℚ, bare.compose hollow .filled .singlePath = .ok c ∧
      ¬ c.bounds.IsHull (hollow.flatMap (·.extremes)) ∧
      ∃ b : Box ℚ, (∀ q ∈ hollow.flatMap (·.extremes), b.Covers q) ∧ ¬ b.Contains c.bounds := by
  have hok : (bare.compose hollow .filled .singlePath).toOption.any (·.bounds.x == 0) = true := by decide +kernel
  obtain ⟨c, hc, hx⟩ := exists_ok_of_any hok
  have hx : c.bounds.x = 0 := by simpa using hx
  refine ⟨c, hc, fun hhull => ?_, ⟨10, 10, 10, 10⟩, by decide +kernel, fun hcontains => ?_⟩
  · have hleft := hhull.left
    rw [hx] at hleft
    exact absurd hleft (by decide +kernel)
  · have hleft : (10 : ℚ) ≤ c.bounds.x := hcontains.1.left
    rw [hx] at hleft
    exact absurd hleft (by decide +kernel)

end Workshop

end StencilKit
