/-
What lies in a box.

In exact coordinates the box around a number of points holds each of them. And a box holds what lies between any
two points that it holds, hence every point of a curve whose control points it holds.
-/
import Mathlib.Algebra.Order.Ring.Defs
import Mathlib.Tactic.Linarith
import StencilKit.Composition
import StencilKit.Proofs.Coordinates.Arithmetic

namespace StencilKit

section

variable {α : Type} [Scalar α]

/-- Whether a point lies in a box; it may lie on an edge. -/
structure Box.Covers (b : Box α) (p : Point α) : Prop where
  left : b.x ≤ p.x
  right : p.x ≤ b.far.x
  upper : b.y ≤ p.y
  lower : p.y ≤ b.far.y

instance (b : Box α) (p : Point α) : Decidable (b.Covers p) :=
  decidable_of_iff (b.x ≤ p.x ∧ p.x ≤ b.far.x ∧ b.y ≤ p.y ∧ p.y ≤ b.far.y)
    ⟨fun ⟨hleft, hright, hupper, hlower⟩ => ⟨hleft, hright, hupper, hlower⟩,
      fun h => ⟨h.left, h.right, h.upper, h.lower⟩⟩

/-- Whether a number lies in a range. -/
def Range.Holds (r : Range α) (a : α) : Prop := ∃ lo hi, r = some (lo, hi) ∧ lo ≤ a ∧ a ≤ hi

/-- Whether a point lies in the ranges of both axes. -/
def Extent.Holds (e : Extent α) (p : Point α) : Prop := e.xs.Holds p.x ∧ e.ys.Holds p.y

end

/-! ## Around points -/

section

variable {K : Type} [Field K] [LinearOrder K] [FloorRing K] [Transcendental K]

namespace Range

theorem insert_none (a : K) : Range.insert none a = some (a, a) := by
  simp [Range.insert, single, Scalar.largest?]

theorem insert_some (ends : K × K) (a : K) : Range.insert (some ends) a = some (min ends.1 a, max ends.2 a) := by
  simp [Range.insert]

theorem Holds.insert {r : Range K} {a : K} (h : r.Holds a) (b : K) : (r.insert b).Holds a := by
  obtain ⟨lo, hi, rfl, hlo, hhi⟩ := h
  exact ⟨min lo b, max hi b, insert_some (lo, hi) b, (min_le_left lo b).trans hlo, hhi.trans (le_max_left hi b)⟩

theorem holds_insert (r : Range K) (a : K) : (r.insert a).Holds a := by
  cases r with
  | none => exact ⟨a, a, insert_none a, le_rfl, le_rfl⟩
  | some ends => exact ⟨min ends.1 a, max ends.2 a, insert_some ends a, min_le_right _ _, le_max_right _ _⟩

end Range

namespace Box

theorem covers_ofCorners {p q r : Point K} (hx : p.x ≤ r.x ∧ r.x ≤ q.x) (hy : p.y ≤ r.y ∧ r.y ≤ q.y) :
    (ofCorners p q).Covers r where
  left := (ofCorners_x p q).trans_le ((min_le_left _ _).trans hx.1)
  right := by
    rw [far_ofCorners, Point.greater_x]
    exact hx.2.trans (le_max_right _ _)
  upper := (ofCorners_y p q).trans_le ((min_le_left _ _).trans hy.1)
  lower := by
    rw [far_ofCorners, Point.greater_y]
    exact hy.2.trans (le_max_right _ _)

/-- A box that holds two opposite corners of another holds what the other holds. -/
theorem Covers.trans {b c : Box K} (horigin : b.Covers c.origin) (hfar : b.Covers c.far) {p : Point K}
    (hp : c.Covers p) : b.Covers p where
  left := le_trans horigin.left hp.left
  right := le_trans hp.right hfar.right
  upper := le_trans horigin.upper hp.upper
  lower := le_trans hp.lower hfar.lower

end Box

namespace Extent

variable {e : Extent K} {p : Point K}

theorem Holds.insert (h : e.Holds p) (q : Point K) : (e.insert q).Holds p := ⟨h.1.insert q.x, h.2.insert q.y⟩

theorem holds_insert (e : Extent K) (p : Point K) : (e.insert p).Holds p :=
  ⟨Range.holds_insert e.xs p.x, Range.holds_insert e.ys p.y⟩

theorem holds_ofPoints {ps : List (Point K)} (hp : p ∈ ps) : (ofPoints ps).Holds p := by
  -- What has been met stays met, so the induction carries both what was met and what is still to come.
  suffices h : ∀ e : Extent K, e.Holds p ∨ p ∈ ps → (ps.foldl Extent.insert e).Holds p from h empty (.inr hp)
  clear hp
  induction ps with
  | nil => exact fun e h => h.resolve_right List.not_mem_nil
  | cons q ps ih =>
    intro e h
    refine ih (e.insert q) ?_
    rcases h with h | h
    · exact .inl (h.insert q)
    · rcases List.mem_cons.1 h with rfl | h
      · exact .inl (e.holds_insert p)
      · exact .inr h

/-- Boxes are met by their corners. -/
theorem ofBoxes_eq {α : Type} [Scalar α] (bs : List (Box α)) :
    ofBoxes bs = ofPoints (bs.flatMap fun b => [b.origin, b.far]) := by
  rw [ofBoxes, ofPoints, List.foldl_flatMap]
  rfl

/-- **The box around some points holds each of them.** -/
theorem Holds.exists_box (h : e.Holds p) : ∃ b, e.box? = some b ∧ b.Covers p := by
  obtain ⟨xs, ys⟩ := e
  obtain ⟨⟨x₁, x₂, rfl, hx⟩, y₁, y₂, rfl, hy⟩ := h
  exact ⟨_, rfl, Box.covers_ofCorners hx hy⟩

theorem covers_of_mem {ps : List (Point K)} {b : Box K} (hb : (ofPoints ps).box? = some b) (hp : p ∈ ps) :
    b.Covers p := by
  obtain ⟨c, hc, hcovers⟩ := (holds_ofPoints hp).exists_box
  obtain rfl := Option.some.inj (hb.symm.trans hc)
  exact hcovers

end Extent

/-- A point of a quadratic piece lies between two points of the lines that join its control points. -/
theorem Quadratic.point_eq (c : Quadratic K) (t : K) :
    c.point t = (c.start.lerp c.control t).lerp (c.control.lerp c.stop t) t := by
  have hcoordinate : ∀ a b c : K, a * ((1 - t) * (1 - t)) + b * (Scalar.two * (1 - t) * t) + c * (t * t) =
      (a * (1 - t) + b * t) * (1 - t) + (b * (1 - t) + c * t) * t := by
    intro a b c
    rw [Scalar.two_eq]
    ring
  exact Point.ext (hcoordinate _ _ _) (hcoordinate _ _ _)

end

/-! ## Between points -/

variable {K : Type} [Field K] [LinearOrder K] [IsStrictOrderedRing K] [FloorRing K] [Transcendental K]

theorem between_lerp {lo hi a b t : K} (ha : lo ≤ a ∧ a ≤ hi) (hb : lo ≤ b ∧ b ≤ hi) (h0 : 0 ≤ t) (h1 : t ≤ 1) :
    lo ≤ a * (1 - t) + b * t ∧ a * (1 - t) + b * t ≤ hi := by
  have hrest : 0 ≤ 1 - t := sub_nonneg.2 h1
  constructor
  · calc lo = lo * (1 - t) + lo * t := by ring
      _ ≤ a * (1 - t) + b * t :=
        add_le_add (mul_le_mul_of_nonneg_right ha.1 hrest) (mul_le_mul_of_nonneg_right hb.1 h0)
  · calc a * (1 - t) + b * t ≤ hi * (1 - t) + hi * t :=
        add_le_add (mul_le_mul_of_nonneg_right ha.2 hrest) (mul_le_mul_of_nonneg_right hb.2 h0)
      _ = hi := by ring

namespace Box

variable {b : Box K} {p q : Point K}

/-- **A box holds what lies between two points that it holds.** -/
theorem Covers.lerp (hp : b.Covers p) (hq : b.Covers q) {t : K} (h0 : 0 ≤ t) (h1 : t ≤ 1) :
    b.Covers (p.lerp q t) := by
  obtain ⟨hleft, hright⟩ := between_lerp ⟨hp.left, hp.right⟩ ⟨hq.left, hq.right⟩ h0 h1
  obtain ⟨hupper, hlower⟩ := between_lerp ⟨hp.upper, hp.lower⟩ ⟨hq.upper, hq.lower⟩ h0 h1
  exact ⟨hleft, hright, hupper, hlower⟩

theorem Covers.midway (hp : b.Covers p) (hq : b.Covers q) : b.Covers (p.midway q) := by
  refine hp.lerp hq ?_ ?_ <;> rw [Scalar.half_eq]
  · exact one_half_pos.le
  · exact one_half_lt_one.le

theorem Covers.point {c : Quadratic K} (hstart : b.Covers c.start) (hcontrol : b.Covers c.control)
    (hstop : b.Covers c.stop) {t : K} (h0 : 0 ≤ t) (h1 : t ≤ 1) : b.Covers (c.point t) := by
  rw [c.point_eq]
  exact (hstart.lerp hcontrol h0 h1).lerp (hcontrol.lerp hstop h0 h1) h0 h1

/-- What lies in a box lies in the box of its size at the origin, once it is relative to the box. -/
theorem Covers.toLocal (hp : b.Covers p) : (ofSize b.w b.h).Covers (p - b.origin) where
  left := sub_nonneg.2 hp.left
  right := by
    have hright : p.x ≤ b.x + b.w := hp.right
    show p.x - b.x ≤ 0 + b.w
    linarith
  upper := sub_nonneg.2 hp.upper
  lower := by
    have hlower : p.y ≤ b.y + b.h := hp.lower
    show p.y - b.y ≤ 0 + b.h
    linarith

end Box

/-- **A box holds the pieces of a smooth curve** if it holds the points that the curve is drawn from. -/
theorem Quadratic.covers_smoothFrom {b : Box K} : ∀ {start : Point K} {ps : List (Point K)}, b.Covers start →
    (∀ p ∈ ps, b.Covers p) → ∀ c ∈ smoothFrom start ps, b.Covers c.start ∧ b.Covers c.control ∧ b.Covers c.stop
  | _, [], _, _ | _, [_], _, _ => List.forall_mem_nil _
  | _, [control, stop], hstart, hps =>
    List.forall_mem_singleton.2 ⟨hstart, hps control (by simp), hps stop (by simp)⟩
  | _, control :: next :: p :: rest, hstart, hps => by
    obtain ⟨hcontrol, hrest⟩ := List.forall_mem_cons.1 hps
    have hmid := hcontrol.midway (hrest next List.mem_cons_self)
    exact List.forall_mem_cons.2 ⟨⟨hstart, hcontrol, hmid⟩, covers_smoothFrom hmid hrest⟩

theorem Quadratic.covers_smooth {b : Box K} {ps : List (Point K)} (hps : ∀ p ∈ ps, b.Covers p) :
    ∀ c ∈ smooth ps, b.Covers c.start ∧ b.Covers c.control ∧ b.Covers c.stop := by
  cases ps with
  | nil => exact List.forall_mem_nil _
  | cons start rest =>
    obtain ⟨hstart, hrest⟩ := List.forall_mem_cons.1 hps
    exact covers_smoothFrom hstart hrest

end StencilKit
