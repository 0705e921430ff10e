/-
A box as a polygon.

What a box encloses is told by comparing coordinates, and what a polygon encloses by counting the sides that a ray
crosses. For the polygon through the corners of a box the two say the same of every point that is not on one of
its sides (`geometric_corners`). A ray crosses no level side, and the polygon has two upright ones: so it encloses
the points between these, with those of the left and the upper side but without those of the right and the lower
one (`encloses_corners_iff`), while a box encloses the points of all its sides. The sides are the same, and so is the
stroke.
-/
import StencilKit.Proofs.Attachment.Lines
import StencilKit.Proofs.Region.Rearrangement

namespace StencilKit

/-- Whether a point lies on a side of the closed line through some points. -/
def OnRing {α : Type} [Scalar α] (ps : List (Point α)) (p : Point α) : Prop :=
  ∃ side ∈ ringSides ps, side.1.Between side.2 p

/-- A parity tells where the counting began. -/
theorem foldl_bne_inj {β : Type} {f : β → Bool} {xs : List β} {odd odd' : Bool} :
    xs.foldl (fun odd x => odd != f x) odd = xs.foldl (fun odd x => odd != f x) odd' ↔ odd = odd' := by
  induction xs generalizing odd odd' with
  | nil => exact Iff.rfl
  | cons x xs ih => rw [List.foldl_cons, List.foldl_cons, ih, Bool.bne_left_inj]

section

variable {α : Type} [Scalar α] {tolerance : α} {p : Point α}

/-- In the place of another, an outline leaves the fill as it is just if it encloses the point as the other does. -/
theorem Hit.onFill_geometric_eq_iff {o o' : Outline α} (before after : Silhouette α) :
    (geometric tolerance (before ++ o :: after) p).onFill = (geometric tolerance (before ++ o' :: after) p).onFill ↔
      o.encloses p = o'.encloses p := by
  simp only [geometric, List.foldl_append, List.foldl_cons, foldl_bne_inj, Bool.bne_right_inj]

/-- In the place of a box, the polygon through its corners leaves the stroke as it is. -/
theorem Hit.onStroke_geometric_corners (b : Box α) (before after : Silhouette α) :
    (geometric tolerance (before ++ .polygon b.corners :: after) p).onStroke =
      (geometric tolerance (before ++ .rect b :: after) p).onStroke := by
  simp only [geometric, List.any_append, List.any_cons]
  rfl

end

variable {K : Type} [Field K] [LinearOrder K] [FloorRing K] [Transcendental K]

section

variable [IsStrictOrderedRing K] {b : Box K}

theorem Box.x_lt_far (hw : 0 < b.w) : b.x < b.far.x := lt_add_of_pos_right _ hw

theorem Box.y_lt_far (hh : 0 < b.h) : b.y < b.far.y := lt_add_of_pos_right _ hh

end

namespace Outline

variable {p : Point K}

/-- A ray crosses no level side. -/
theorem crosses_level (u v y : K) : crosses p ⟨u, y⟩ ⟨v, y⟩ = false := by
  rw [crosses, bne_self_eq_false, Bool.false_and]

/-- A ray crosses an upright side to the right of its beginning. -/
theorem crosses_upright (x u v : K) :
    crosses p ⟨x, u⟩ ⟨x, v⟩ = ((decide (p.y < u) != decide (p.y < v)) && decide (p.x < x)) := by
  rw [crosses, sub_self, mul_zero, add_zero]

theorem encloses_rect_iff {b : Box K} : (rect b).encloses p = true ↔ b.Covers p := by
  simp only [encloses, Bool.and_eq_true, decide_eq_true_eq, and_assoc]
  exact ⟨fun ⟨hleft, hright, hupper, hlower⟩ => ⟨hleft, hright, hupper, hlower⟩,
    fun h => ⟨h.left, h.right, h.upper, h.lower⟩⟩

/-- Just one of two numbers is greater than what lies between them. -/
theorem lt_bne_lt_iff {c u v : K} (h : u < v) : (decide (c < u) != decide (c < v)) = true ↔ u ≤ c ∧ c < v := by
  rw [bne_iff_ne, ne_eq, decide_eq_decide, ← not_lt]
  constructor
  · intro hne
    have hu : ¬ c < u := fun hu => hne (iff_of_true hu (hu.trans h))
    exact ⟨hu, by_contra fun hv => hne (iff_of_false hu hv)⟩
  · rintro ⟨hu, hv⟩ hiff
    exact hu (hiff.2 hv)

variable [IsStrictOrderedRing K]

/-- **What the polygon through the corners of a box encloses**: what the box does, without the sides at its far end. -/
theorem encloses_corners_iff {b : Box K} (hw : 0 < b.w) (hh : 0 < b.h) :
    (polygon b.corners).encloses p = true ↔ b.Covers p ∧ p.x ≠ b.far.x ∧ p.y ≠ b.far.y := by
  have hsides : (polygon b.corners).encloses p =
      (crosses p ⟨b.far.x, b.y⟩ ⟨b.far.x, b.far.y⟩ != crosses p ⟨b.x, b.far.y⟩ ⟨b.x, b.y⟩) := by
    show ((((false != crosses p ⟨b.x, b.y⟩ ⟨b.far.x, b.y⟩) != crosses p ⟨b.far.x, b.y⟩ ⟨b.far.x, b.far.y⟩) !=
      crosses p ⟨b.far.x, b.far.y⟩ ⟨b.x, b.far.y⟩) != crosses p ⟨b.x, b.far.y⟩ ⟨b.x, b.y⟩) = _
    rw [crosses_level, crosses_level, Bool.bne_false, Bool.bne_false, Bool.false_bne]
  -- The ray is level with both upright sides or with neither, and comes from between them if it crosses just one.
  have hlevel : ∀ level right left : Bool, ((level && right) != (level && left)) = (level && (left != right)) := by
    decide
  rw [hsides, crosses_upright, crosses_upright, bne_comm (a := decide (p.y < b.far.y)), hlevel, Bool.and_eq_true]
  refine (and_congr (lt_bne_lt_iff (Box.y_lt_far hh)) (lt_bne_lt_iff (Box.x_lt_far hw))).trans ?_
  constructor
  · rintro ⟨⟨hupper, hlower⟩, hleft, hright⟩
    exact ⟨⟨hleft, hright.le, hupper, hlower.le⟩, hright.ne, hlower.ne⟩
  · rintro ⟨hcovers, hright, hlower⟩
    exact ⟨⟨hcovers.upper, hcovers.lower.lt_of_ne hlower⟩, hcovers.left, hcovers.right.lt_of_ne hright⟩

end Outline

/-! ## The sides of a box -/

namespace Point

variable [IsStrictOrderedRing K] {p : Point K} {u v : K}

theorem between_comm {a b : Point K} : a.Between b p ↔ b.Between a p :=
  ⟨fun h => h.symm, fun h => h.symm⟩

theorem exists_between_iff {c : K} (h : u < v) : (∃ t, 0 ≤ t ∧ t ≤ 1 ∧ u * (1 - t) + v * t = c) ↔ u ≤ c ∧ c ≤ v := by
  constructor
  · rintro ⟨t, h0, h1, rfl⟩
    exact between_lerp ⟨le_rfl, h.le⟩ ⟨h.le, le_rfl⟩ h0 h1
  · rintro ⟨hu, hv⟩
    have hlength : 0 < v - u := sub_pos.2 h
    refine ⟨(c - u) / (v - u), div_nonneg (sub_nonneg.2 hu) hlength.le, ?_, ?_⟩
    · rw [div_le_one hlength]
      exact sub_le_sub_right hv u
    · field_simp
      ring

theorem between_level_iff (h : u < v) (y : K) : Point.Between ⟨u, y⟩ ⟨v, y⟩ p ↔ p.y = y ∧ u ≤ p.x ∧ p.x ≤ v := by
  have hlevel : ∀ t : K, y * (1 - t) + y * t = y := fun t => by ring
  rw [← exists_between_iff h, Between]
  constructor
  · rintro ⟨t, h0, h1, rfl⟩
    exact ⟨hlevel t, t, h0, h1, rfl⟩
  · rintro ⟨hy, t, h0, h1, hx⟩
    exact ⟨t, h0, h1, Point.ext hx ((hlevel t).trans hy.symm)⟩

theorem between_upright_iff (h : u < v) (x : K) : Point.Between ⟨x, u⟩ ⟨x, v⟩ p ↔ p.x = x ∧ u ≤ p.y ∧ p.y ≤ v := by
  have hupright : ∀ t : K, x * (1 - t) + x * t = x := fun t => by ring
  rw [← exists_between_iff h, Between]
  constructor
  · rintro ⟨t, h0, h1, rfl⟩
    exact ⟨hupright t, t, h0, h1, rfl⟩
  · rintro ⟨hx, t, h0, h1, hy⟩
    exact ⟨t, h0, h1, Point.ext ((hupright t).trans hx.symm) hy⟩

end Point

section

variable [IsStrictOrderedRing K] {b : Box K} {p : Point K}

namespace Box

/-- The points of a level line across a box. -/
theorem between_level_iff (hw : 0 < b.w) {y : K} (hupper : b.y ≤ y) (hlower : y ≤ b.far.y) :
    Point.Between ⟨b.x, y⟩ ⟨b.far.x, y⟩ p ↔ b.Covers p ∧ p.y = y := by
  rw [Point.between_level_iff (x_lt_far hw), and_comm]
  constructor
  · rintro ⟨⟨hl, hr⟩, rfl⟩
    exact ⟨⟨hl, hr, hupper, hlower⟩, rfl⟩
  · rintro ⟨h, rfl⟩
    exact ⟨⟨h.left, h.right⟩, rfl⟩

/-- The points of an upright line across a box. -/
theorem between_upright_iff (hh : 0 < b.h) {x : K} (hleft : b.x ≤ x) (hright : x ≤ b.far.x) :
    Point.Between ⟨x, b.y⟩ ⟨x, b.far.y⟩ p ↔ b.Covers p ∧ p.x = x := by
  rw [Point.between_upright_iff (y_lt_far hh), and_comm]
  constructor
  · rintro ⟨⟨hu, hd⟩, rfl⟩
    exact ⟨⟨hleft, hright, hu, hd⟩, rfl⟩
  · rintro ⟨h, rfl⟩
    exact ⟨⟨h.upper, h.lower⟩, rfl⟩

theorem between_right_iff (hw : 0 < b.w) (hh : 0 < b.h) :
    Point.Between ⟨b.far.x, b.y⟩ b.far p ↔ b.Covers p ∧ p.x = b.far.x :=
  between_upright_iff hh (x_lt_far hw).le le_rfl

theorem between_lower_iff (hw : 0 < b.w) (hh : 0 < b.h) :
    b.far.Between ⟨b.x, b.far.y⟩ p ↔ b.Covers p ∧ p.y = b.far.y :=
  Point.between_comm.trans (between_level_iff hw (y_lt_far hh).le le_rfl)

omit [IsStrictOrderedRing K] in
theorem onRing_corners : OnRing b.corners p ↔ b.origin.Between ⟨b.far.x, b.y⟩ p ∨
    Point.Between ⟨b.far.x, b.y⟩ b.far p ∨ b.far.Between ⟨b.x, b.far.y⟩ p ∨ Point.Between ⟨b.x, b.far.y⟩ b.origin p := by
  show (∃ side ∈ [(b.origin, ⟨b.far.x, b.y⟩), (⟨b.far.x, b.y⟩, b.far), (b.far, ⟨b.x, b.far.y⟩),
    (⟨b.x, b.far.y⟩, b.origin)], _) ↔ _
  simp

/-- **Which points are on the sides of a box.** -/
theorem onRing_corners_iff (hw : 0 < b.w) (hh : 0 < b.h) :
    OnRing b.corners p ↔ b.Covers p ∧ (p.y = b.y ∨ p.x = b.far.x ∨ p.y = b.far.y ∨ p.x = b.x) := by
  have hupper : b.origin.Between ⟨b.far.x, b.y⟩ p ↔ b.Covers p ∧ p.y = b.y :=
    between_level_iff hw le_rfl (y_lt_far hh).le
  have hleft : Point.Between ⟨b.x, b.far.y⟩ b.origin p ↔ b.Covers p ∧ p.x = b.x :=
    Point.between_comm.trans (between_upright_iff hh le_rfl (x_lt_far hw).le)
  rw [onRing_corners, hupper, between_right_iff hw hh, between_lower_iff hw hh, hleft, and_or_left, and_or_left,
    and_or_left]

end Box

/-- **A box and the polygon through its corners** are hit alike, in whatever silhouette they stand: on the stroke by
the same points, and in the fill by the same points but for those on a side. Of the sides it is the right and the
lower one that make the difference: there the box is hit and the polygon is not. -/
theorem Hit.geometric_corners (hw : 0 < b.w) (hh : 0 < b.h) (before after : Silhouette K) (tolerance : K)
    (p : Point K) :
    let rect := geometric tolerance (before ++ .rect b :: after) p
    let polygon := geometric tolerance (before ++ .polygon b.corners :: after) p
    polygon.onStroke = rect.onStroke ∧
      (¬ OnRing b.corners p → polygon.onFill = rect.onFill) ∧
      (polygon.onFill = rect.onFill ↔
        ¬ (Point.Between ⟨b.far.x, b.y⟩ b.far p ∨ b.far.Between ⟨b.x, b.far.y⟩ p)) := by
  intro rect polygon
  have hfill : polygon.onFill = rect.onFill ↔
      ¬ (Point.Between ⟨b.far.x, b.y⟩ b.far p ∨ b.far.Between ⟨b.x, b.far.y⟩ p) := by
    rw [onFill_geometric_eq_iff, Bool.eq_iff_iff, Outline.encloses_corners_iff hw hh, Outline.encloses_rect_iff,
      Box.between_right_iff hw hh, Box.between_lower_iff hw hh, ← and_or_left, and_iff_left_iff_imp, not_and, not_or]
  refine ⟨onStroke_geometric_corners b before after, fun hoff => hfill.2 fun hside => hoff ?_, hfill⟩
  exact Box.onRing_corners.2 (.inr (hside.imp_right .inl))

/-- A box in another, and a point level with its upper side that is in the other box only. -/
theorem Hit.geometric_corners_beside :
    let b : Box ℚ := ⟨2, 1, 4, 3⟩
    let p : Point ℚ := ⟨1, 1⟩
    (0 < b.w ∧ 0 < b.h ∧ ¬ OnRing b.corners p) ∧
      geometric (1 / 2) [.rect ⟨0, 0, 9, 9⟩, .rect b] p = ⟨true, false⟩ ∧
      (geometric (1 / 2) [.rect ⟨0, 0, 9, 9⟩, .polygon b.corners] p).onFill = true := by
  intro b p
  have hw : 0 < b.w := by decide +kernel
  have hh : 0 < b.h := by decide +kernel
  have hoff : ¬ OnRing b.corners p := by
    rw [Box.onRing_corners_iff hw hh]
    decide +kernel
  have hhit : geometric (1 / 2) [.rect ⟨0, 0, 9, 9⟩, .rect b] p = ⟨true, false⟩ := by decide +kernel
  obtain ⟨-, hfill, -⟩ := geometric_corners hw hh [.rect ⟨0, 0, 9, 9⟩] [] (1 / 2) p
  exact ⟨⟨hw, hh, hoff⟩, hhit, (hfill hoff).trans (congrArg Hit.onFill hhit)⟩

end

end StencilKit
