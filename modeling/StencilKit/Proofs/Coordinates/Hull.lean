/-
The least box around points.

A box is the hull of some points if it holds them all and each of its four sides runs through one of them; it
then lies in every box that holds them. In exact coordinates the box around points is their hull
(`Extent.isHull_ofPoints`), and the box around some boxes is the hull of all that these are spanned by
(`Box.IsHull.flatMap`). So the box around a selection is the hull of the points and corners of its primitives
(`isHull_of_frameOf`); a group without edges has none, and counts as a point at the origin of the plane.
-/
import StencilKit.Proofs.Coordinates.Enclosure

namespace StencilKit

/-- Whether a box is the least one around some points. -/
structure Box.IsHull {α : Type} [Scalar α] (b : Box α) (ps : List (Point α)) : Prop where
  covers : ∀ p ∈ ps, b.Covers p
  left : b.x ∈ ps.map Point.x
  right : b.far.x ∈ ps.map Point.x
  upper : b.y ∈ ps.map Point.y
  lower : b.far.y ∈ ps.map Point.y

/-- Whether a box holds another one, corner by corner. -/
def Box.Contains {α : Type} [Scalar α] (b c : Box α) : Prop := b.Covers c.origin ∧ b.Covers c.far

/-- Whether a range ends in numbers of a list. -/
def Range.EndsIn {α : Type} (r : Range α) (as : List α) : Prop := ∀ ends ∈ r, ends.1 ∈ as ∧ ends.2 ∈ as

/-- Whether the ranges of both axes end in coordinates of points of a list. -/
def Extent.EndsIn {α : Type} (e : Extent α) (ps : List (Point α)) : Prop :=
  e.xs.EndsIn (ps.map Point.x) ∧ e.ys.EndsIn (ps.map Point.y)

namespace Primitive

variable {α : Type} [Scalar α]

/-- The points that a primitive is made of: all points of edges, and two corners of a box. -/
def extremes : Primitive α → List (Point α)
  | edge e _ _ _ => e.points
  | stencil _ b _ _ _ | image _ b _ _ | text _ b _ => [b.origin, b.far]
  | group edges _ => edges.flatMap Edge.points

/-- The points that the box around a primitive is spanned by: those that it is made of, and the origin of the plane
if there are none. -/
def spanning : Primitive α → List (Point α)
  | group [] _ => [0]
  | p => p.extremes

theorem mem_spanning {p : Primitive α} {q : Point α} :
    q ∈ p.spanning ↔ q ∈ p.extremes ∨ (∃ style, p = .group [] style) ∧ q = 0 := by
  cases p with
  | group edges style =>
    cases edges with
    | nil => simp [spanning, extremes]
    | cons e es => simp [spanning]
  | _ => simp [spanning]

end Primitive

variable {K : Type} [Field K] [LinearOrder K] [FloorRing K] [Transcendental K]

/-! ## Around points -/

theorem Range.EndsIn.insert {r : Range K} {as : List K} (h : r.EndsIn as) {a : K} (ha : a ∈ as) :
    (r.insert a).EndsIn as := by
  cases r with
  | none =>
    rw [insert_none]
    rintro _ ⟨⟩
    exact ⟨ha, ha⟩
  | some ends =>
    obtain ⟨hlo, hhi⟩ := h ends rfl
    rw [insert_some]
    rintro _ ⟨⟩
    exact ⟨min_rec' (· ∈ as) hlo ha, max_rec' (· ∈ as) hhi ha⟩

namespace Extent

theorem EndsIn.insert {e : Extent K} {ps : List (Point K)} (h : e.EndsIn ps) {p : Point K} (hp : p ∈ ps) :
    (e.insert p).EndsIn ps :=
  ⟨h.1.insert (List.mem_map_of_mem hp), h.2.insert (List.mem_map_of_mem hp)⟩

theorem endsIn_ofPoints (ps : List (Point K)) : (ofPoints ps).EndsIn ps := by
  -- The points still to come are among all points, in which the ranges so far end.
  suffices h : ∀ (qs : List (Point K)) (e : Extent K), e.EndsIn ps → qs ⊆ ps → (qs.foldl Extent.insert e).EndsIn ps
    from h ps empty ⟨fun _ h => (nomatch h), fun _ h => (nomatch h)⟩ (List.Subset.refl ps)
  intro qs
  induction qs with
  | nil => exact fun e h _ => h
  | cons q qs ih =>
    intro e h hqs
    obtain ⟨hq, hqs⟩ := List.cons_subset.1 hqs
    exact ih (e.insert q) (h.insert hq) hqs

/-- **The box around points is their hull.** -/
theorem isHull_ofPoints {ps : List (Point K)} {b : Box K} (h : (ofPoints ps).box? = some b) : b.IsHull ps := by
  have hcovers : ∀ p ∈ ps, b.Covers p := fun p hp => covers_of_mem h hp
  obtain ⟨hxs, hys⟩ := endsIn_ofPoints ps
  unfold box? at h
  split at h
  · rename_i x₁ x₂ y₁ y₂ hx hy
    cases h
    obtain ⟨hx₁, hx₂⟩ := hxs _ hx
    obtain ⟨hy₁, hy₂⟩ := hys _ hy
    refine ⟨hcovers, ?_, ?_, ?_, ?_⟩
    · rw [Box.ofCorners_x]
      exact min_rec' (· ∈ ps.map Point.x) hx₁ hx₂
    · rw [Box.far_ofCorners, Point.greater_x]
      exact max_rec' (· ∈ ps.map Point.x) hx₁ hx₂
    · rw [Box.ofCorners_y]
      exact min_rec' (· ∈ ps.map Point.y) hy₁ hy₂
    · rw [Box.far_ofCorners, Point.greater_y]
      exact max_rec' (· ∈ ps.map Point.y) hy₁ hy₂
  · cases h

/-- There is a box around points if there are any. -/
theorem isHull_getD {ps : List (Point K)} (h : ps ≠ []) : ((ofPoints ps).box?.getD .null).IsHull ps := by
  obtain ⟨p, hp⟩ := List.exists_mem_of_ne_nil ps h
  obtain ⟨b, hb, -⟩ := (holds_ofPoints hp).exists_box
  rw [hb]
  exact isHull_ofPoints hb

end Extent

namespace Box

variable {b c : Box K} {ps : List (Point K)}

/-- **A hull lies in every box that holds its points.** -/
theorem IsHull.contained (h : b.IsHull ps) (hc : ∀ p ∈ ps, c.Covers p) : c.Contains b := by
  have hx : ∀ x ∈ ps.map Point.x, c.x ≤ x ∧ x ≤ c.far.x :=
    List.forall_mem_map.2 fun p hp => ⟨(hc p hp).left, (hc p hp).right⟩
  have hy : ∀ y ∈ ps.map Point.y, c.y ≤ y ∧ y ≤ c.far.y :=
    List.forall_mem_map.2 fun p hp => ⟨(hc p hp).upper, (hc p hp).lower⟩
  obtain ⟨hleft, hleft'⟩ := hx _ h.left
  obtain ⟨hright, hright'⟩ := hx _ h.right
  obtain ⟨hupper, hupper'⟩ := hy _ h.upper
  obtain ⟨hlower, hlower'⟩ := hy _ h.lower
  exact ⟨⟨hleft, hleft', hupper, hupper'⟩, ⟨hright, hright', hlower, hlower'⟩⟩

/-- Boxes that hold each other are the same. -/
theorem Contains.antisymm (h : b.Contains c) (h' : c.Contains b) : b = c := by
  have hx : b.x = c.x := le_antisymm h.1.left h'.1.left
  have hy : b.y = c.y := le_antisymm h.1.upper h'.1.upper
  have hw : b.x + b.w = c.x + c.w := le_antisymm h'.2.right h.2.right
  have hh : b.y + b.h = c.y + c.h := le_antisymm h'.2.lower h.2.lower
  obtain ⟨x, y, w, height⟩ := b
  obtain ⟨x', y', w', height'⟩ := c
  obtain rfl : x = x' := hx
  obtain rfl : y = y' := hy
  obtain rfl : w = w' := add_left_cancel hw
  obtain rfl : height = height' := add_left_cancel hh
  rfl

/-! ## Around boxes -/

/-- Whether two corners of a box stand for some points: what holds the corners holds the points, and the corners have
no coordinates but theirs. -/
structure Spans (b : Box K) (ps : List (Point K)) : Prop where
  covers : ∀ {c : Box K}, c.Contains b → ∀ p ∈ ps, c.Covers p
  xs : ∀ q ∈ [b.origin, b.far], q.x ∈ ps.map Point.x
  ys : ∀ q ∈ [b.origin, b.far], q.y ∈ ps.map Point.y

/-- The corners of a box stand for themselves, in whatever order they lie. -/
theorem spans_corners (b : Box K) : b.Spans [b.origin, b.far] where
  covers h := List.forall_mem_cons.2 ⟨h.1, List.forall_mem_singleton.2 h.2⟩
  xs _ hq := List.mem_map_of_mem hq
  ys _ hq := List.mem_map_of_mem hq

/-- The box that stands in for none at all has the origin for its corners. -/
theorem spans_null : (null : Box K).Spans [0] where
  covers h := List.forall_mem_singleton.2 h.1
  xs := List.forall_mem_cons.2
    ⟨List.mem_singleton_self _, List.forall_mem_singleton.2 (List.mem_singleton.2 (add_zero 0))⟩
  ys := List.forall_mem_cons.2
    ⟨List.mem_singleton_self _, List.forall_mem_singleton.2 (List.mem_singleton.2 (add_zero 0))⟩

theorem IsHull.spans (h : b.IsHull ps) : b.Spans ps where
  covers hc p hp := hc.1.trans hc.2 (h.covers p hp)
  xs := List.forall_mem_cons.2 ⟨h.left, List.forall_mem_singleton.2 h.right⟩
  ys := List.forall_mem_cons.2 ⟨h.upper, List.forall_mem_singleton.2 h.lower⟩

/-- **The hull of boxes that stand for points is the hull of all the points.** -/
theorem IsHull.flatMap {T : Type} {ts : List T} {box : T → Box K} {points : T → List (Point K)}
    (h : b.IsHull (ts.flatMap fun t => [(box t).origin, (box t).far])) (hspans : ∀ t ∈ ts, (box t).Spans (points t)) :
    b.IsHull (ts.flatMap points) := by
  have hcoordinate : ∀ f : Point K → K, (∀ t ∈ ts, ∀ q ∈ [(box t).origin, (box t).far], f q ∈ (points t).map f) →
      ∀ a ∈ (ts.flatMap fun t => [(box t).origin, (box t).far]).map f, a ∈ (ts.flatMap points).map f := by
    intro f hf a ha
    obtain ⟨q, hq, rfl⟩ := List.mem_map.1 ha
    obtain ⟨t, ht, hq⟩ := List.mem_flatMap.1 hq
    obtain ⟨p, hp, heq⟩ := List.mem_map.1 (hf t ht q hq)
    exact List.mem_map.2 ⟨p, List.mem_flatMap.2 ⟨t, ht, hp⟩, heq⟩
  have hx := hcoordinate Point.x fun t ht => (hspans t ht).xs
  have hy := hcoordinate Point.y fun t ht => (hspans t ht).ys
  refine ⟨fun p hp => ?_, hx _ h.left, hx _ h.right, hy _ h.upper, hy _ h.lower⟩
  obtain ⟨t, ht, hp⟩ := List.mem_flatMap.1 hp
  have hcorner : ∀ q ∈ [(box t).origin, (box t).far], b.Covers q := fun q hq =>
    h.covers q (List.mem_flatMap.2 ⟨t, ht, hq⟩)
  obtain ⟨horigin, hfar⟩ := List.forall_mem_cons.1 hcorner
  exact (hspans t ht).covers ⟨horigin, List.forall_mem_singleton.1 hfar⟩ p hp

end Box

/-! ## Around primitives -/

theorem Edge.isHull_bounds (e : Edge K) : e.bounds.IsHull e.points := Extent.isHull_getD (List.cons_ne_nil _ _)

/-- **The corners of the box around a primitive** stand for the points that the box is spanned by. -/
theorem Primitive.spans_bounds (p : Primitive K) : p.bounds.Spans p.spanning := by
  cases p with
  | edge e style outline markers => exact e.isHull_bounds.spans
  | stencil shape b style outline markers => exact b.spans_corners
  | image src b style markers => exact b.spans_corners
  | text value b style => exact b.spans_corners
  | group edges style =>
    cases edges with
    | nil => exact Box.spans_null
    | cons e es =>
      have hcorners : (group (e :: es) style).bounds.IsHull
          ((e :: es).flatMap fun e => [e.bounds.origin, e.bounds.far]) := by
        rw [bounds, Extent.ofBoxes_eq, List.flatMap_map]
        exact Extent.isHull_getD (List.cons_ne_nil _ _)
      exact (hcorners.flatMap fun e _ => e.isHull_bounds.spans).spans

/-- **The box around a selection is the hull** of the points that its primitives span. -/
theorem Workshop.isHull_of_frameOf {selection : List (Primitive K)} {frame : Box K}
    (h : frameOf selection = .ok frame) : frame.IsHull (selection.flatMap (·.spanning)) := by
  have haround := frameOf_eq_ok.1 h
  rw [Box.around?, Extent.ofBoxes_eq, List.flatMap_map] at haround
  exact (Extent.isHull_ofPoints haround).flatMap fun p _ => p.spans_bounds

/-- **The box around a selection holds all that its primitives are made of.** -/
theorem Workshop.covers_of_frameOf {selection : List (Primitive K)} {frame : Box K}
    (h : frameOf selection = .ok frame) {p : Primitive K} (hp : p ∈ selection) :
    ∀ q ∈ p.extremes, frame.Covers q := fun _ hq =>
  (isHull_of_frameOf h).covers _ (List.mem_flatMap.2 ⟨p, hp, Primitive.mem_spanning.2 (.inl hq)⟩)

end StencilKit
