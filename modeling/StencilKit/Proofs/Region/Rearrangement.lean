/-
What the hit test does not depend on.

A silhouette says more than where its outlines run: it lists them in some order, and every polygon from some
corner in some direction. In exact coordinates none of this matters to the hit test. The fill goes by a parity
and the stroke by any side that is near, so that the order is no matter; and a side is crossed by the same rays,
and is as far from a point, whichever end it is given from (`geometric_of_rearranged`).

A crossing is computed only for a side with its ends on either side of the ray, and such a side is not level. So
nothing is divided by zero for it, nor is it anywhere else in the hit test.
-/
import Mathlib.Data.List.Rotate
import StencilKit.Proofs.Coordinates.Division
import StencilKit.Region.Hit

namespace StencilKit

section

variable {β γ : Type}

/-! ## The sides of a closed line -/

theorem ringSides_eq (ps : List β) : ringSides ps = ps.zipWith Prod.mk (ps.rotate 1) := by
  have hleft : ps.rotateLeft 1 = ps.rotate 1 := by
    match ps with
    | [] | [_] | _ :: _ :: _ => simp [List.rotateLeft]
  rw [ringSides, hleft, List.zip_eq_zipWith]

theorem ringSides_map (f : β → γ) (ps : List β) : ringSides (ps.map f) = (ringSides ps).map (Prod.map f f) := by
  rw [ringSides_eq, ringSides_eq, ← List.map_rotate, List.zipWith_map, List.map_zipWith]
  rfl

theorem ringSides_rotate (ps : List β) (n : Nat) : ringSides (ps.rotate n) = (ringSides ps).rotate n := by
  rw [ringSides_eq, ringSides_eq, List.zipWith_rotate_distrib _ _ _ _ (List.length_rotate ps 1).symm,
    List.rotate_rotate, List.rotate_rotate, Nat.add_comm]

/-- The other way round there are the same sides, from their other ends. -/
theorem ringSides_reverse_perm (ps : List β) : (ringSides ps.reverse).Perm ((ringSides ps).map Prod.swap) := by
  have hround : (ps.rotate 1).reverse.rotate 1 = ps.reverse := by
    cases ps with
    | nil => rfl
    | cons p ps => simp
  have hswap : (ringSides ps).map Prod.swap = (ps.rotate 1).zipWith Prod.mk ps := by
    rw [ringSides_eq, List.map_zipWith]
    exact List.zipWith_comm
  have hsides : ringSides ps.reverse = ((ringSides ps).map Prod.swap).reverse.rotate 1 := by
    rw [hswap, List.reverse_zipWith (List.length_rotate ps 1), List.zipWith_rotate_distrib _ _ _ _ (by simp), hround,
      ringSides_eq]
  rw [hsides]
  exact (List.rotate_perm _ 1).trans (List.reverse_perm _)

/-- A parity does not depend on the order of what is counted. -/
theorem foldl_bne_perm {xs ys : List β} (h : xs.Perm ys) (f : β → Bool) (odd : Bool) :
    xs.foldl (fun odd x => odd != f x) odd = ys.foldl (fun odd x => odd != f x) odd :=
  h.foldl_eq' (fun x _ y _ odd => by cases odd <;> cases f x <;> cases f y <;> rfl) odd

end

/-! ## Rearrangements -/

/-- What can be done to a silhouette without changing where its outlines run: putting the outlines in another
order, and giving a polygon from another corner or in the other direction, over and over. -/
inductive Silhouette.Rearranged {α : Type} : Silhouette α → Silhouette α → Prop
  | reorder {outlines outlines' : Silhouette α} : outlines.Perm outlines' → Rearranged outlines outlines'
  | rotate (before after : Silhouette α) (ps : List (Point α)) (n : Nat) :
    Rearranged (before ++ .polygon ps :: after) (before ++ .polygon (ps.rotate n) :: after)
  | reverse (before after : Silhouette α) (ps : List (Point α)) :
    Rearranged (before ++ .polygon ps :: after) (before ++ .polygon ps.reverse :: after)
  | trans {outlines mid outlines' : Silhouette α} :
    Rearranged outlines mid → Rearranged mid outlines' → Rearranged outlines outlines'

section

variable {α : Type} [Scalar α] {tolerance : α} {p : Point α}

namespace Outline

theorem encloses_of_perm {ps qs : List (Point α)} (h : (ringSides ps).Perm (ringSides qs)) :
    encloses p (polygon ps) = encloses p (polygon qs) :=
  foldl_bne_perm h (fun side => crosses p side.1 side.2) false

theorem passes_of_perm {ps qs : List (Point α)} (h : (ringSides ps).Perm (ringSides qs)) :
    passes tolerance p (polygon ps) = passes tolerance p (polygon qs) :=
  congrArg (· || _) h.any_eq

end Outline

namespace Hit

theorem geometric_of_perm {outlines outlines' : Silhouette α} (h : outlines.Perm outlines') :
    geometric tolerance outlines p = geometric tolerance outlines' p := by
  simp only [geometric, foldl_bne_perm h (·.encloses p), h.any_eq]

/-- An outline counts by what it encloses and where it passes. -/
theorem geometric_congr {o o' : Outline α} (hencloses : o.encloses p = o'.encloses p)
    (hpasses : o.passes tolerance p = o'.passes tolerance p) (before after : Silhouette α) :
    geometric tolerance (before ++ o :: after) p = geometric tolerance (before ++ o' :: after) p := by
  simp only [geometric, List.foldl_append, List.foldl_cons, List.any_append, List.any_cons, hencloses, hpasses]

end Hit

end

variable {K : Type} [Field K] [LinearOrder K] [FloorRing K] [Transcendental K]

/-! ## Sides from either end -/

theorem Scalar.clamp_one_sub [IsStrictOrderedRing K] (t : K) : clamp (1 - t) 0 1 = 1 - clamp t 0 1 := by
  unfold clamp
  split_ifs <;> linarith

/-- **A segment is as far from a point** when it is given from its other end. -/
theorem Point.distanceToSegment_comm [IsStrictOrderedRing K] (p a b : Point K) :
    p.distanceToSegment b a = p.distanceToSegment a b := by
  have hlength : (a - b).lengthSq = (b - a).lengthSq := by
    show (a.x - b.x) * (a.x - b.x) + (a.y - b.y) * (a.y - b.y) = (b.x - a.x) * (b.x - a.x) + (b.y - a.y) * (b.y - a.y)
    ring
  simp only [distanceToSegment, hlength]
  split
  · rename_i h
    have h : (b.x - a.x) * (b.x - a.x) + (b.y - a.y) * (b.y - a.y) = 0 := eq_of_beq h
    obtain ⟨hx, hy⟩ := mul_self_add_mul_self_eq_zero.1 h
    rw [Point.ext (sub_eq_zero.1 hx) (sub_eq_zero.1 hy)]
  · rename_i h
    have hne : (b - a).lengthSq ≠ 0 := by simpa using h
    -- The foot of the perpendicular is as far from the one end as it falls short of the other.
    have hfoot : (p - b).dot (a - b) / (b - a).lengthSq = 1 - (p - a).dot (b - a) / (b - a).lengthSq := by
      rw [eq_sub_iff_add_eq, ← add_div, div_eq_one_iff_eq hne]
      show (p.x - b.x) * (a.x - b.x) + (p.y - b.y) * (a.y - b.y) +
        ((p.x - a.x) * (b.x - a.x) + (p.y - a.y) * (b.y - a.y)) =
          (b.x - a.x) * (b.x - a.x) + (b.y - a.y) * (b.y - a.y)
      ring
    have hcoordinate : ∀ u v t : K, v + (u - v) * (1 - t) = u + (v - u) * t := by
      intro u v t
      ring
    rw [hfoot, Scalar.clamp_one_sub]
    exact congrArg p.distance (Point.ext (hcoordinate _ _ _) (hcoordinate _ _ _))

namespace Outline

/-- A side with its ends on either side of a ray is not level. -/
theorem sub_ne_zero_of_bne {p a b : Point K} (h : (decide (p.y < a.y) != decide (p.y < b.y)) = true) :
    b.y - a.y ≠ 0 := by
  intro hlevel
  rw [sub_eq_zero.1 hlevel, bne_self_eq_false] at h
  cases h

/-- **A ray crosses a side** also when it is given from its other end. -/
theorem crosses_comm (p a b : Point K) : crosses p b a = crosses p a b := by
  have hsides : (decide (p.y < b.y) != decide (p.y < a.y)) = (decide (p.y < a.y) != decide (p.y < b.y)) := bne_comm
  rw [crosses, crosses, hsides]
  cases h : (decide (p.y < a.y) != decide (p.y < b.y)) with
  | false => rfl
  | true =>
    have hdy : b.y - a.y ≠ 0 := sub_ne_zero_of_bne h
    have hdy' : a.y - b.y ≠ 0 := sub_ne_zero_of_bne (hsides.trans h)
    have hmeet : b.x + (p.y - b.y) / (a.y - b.y) * (a.x - b.x) = a.x + (p.y - a.y) / (b.y - a.y) * (b.x - a.x) := by
      field_simp
      ring
    rw [hmeet]

variable {tolerance : K} {p : Point K}

theorem encloses_reverse (ps : List (Point K)) : encloses p (polygon ps.reverse) = encloses p (polygon ps) := by
  have hperm := foldl_bne_perm (ringSides_reverse_perm ps) (fun side => crosses p side.1 side.2) false
  refine hperm.trans ?_
  rw [List.foldl_map]
  simp only [Prod.fst_swap, Prod.snd_swap, crosses_comm]
  rfl

theorem passes_reverse [IsStrictOrderedRing K] (ps : List (Point K)) :
    passes tolerance p (polygon ps.reverse) = passes tolerance p (polygon ps) := by
  refine congrArg (· || _) ((ringSides_reverse_perm ps).any_eq.trans ?_)
  rw [List.any_map]
  simp only [Function.comp_def, Prod.fst_swap, Prod.snd_swap, Point.distanceToSegment_comm]
  rfl

end Outline

/-! ## Division by zero -/

/-- An outline in other numbers. -/
def Outline.map {α β : Type} (f : α → β) : Outline α → Outline β
  | .rect b => .rect (b.map f)
  | .ellipse b => .ellipse (b.map f)
  | .polygon ps => .polygon (ps.map (Point.map f))

section

open Patched (of of_div)

variable (byZero : K → Option K) (tolerance : K) (p : Point K)

/-- Only a segment with some length is divided by its length. -/
theorem Point.distanceToSegment_of (a b : Point K) :
    (p.map (of byZero)).distanceToSegment (a.map (of byZero)) (b.map (of byZero)) =
      of byZero (p.distanceToSegment a b) := by
  have hlength : (b.map (of byZero) - a.map (of byZero)).lengthSq = of byZero (b - a).lengthSq := rfl
  have hempty : (of byZero (b - a).lengthSq == 0) = ((b - a).lengthSq == 0) := rfl
  have hdot : (p.map (of byZero) - a.map (of byZero)).dot (b.map (of byZero) - a.map (of byZero)) =
    of byZero ((p - a).dot (b - a)) := rfl
  have hclamp : ∀ t : K, Scalar.clamp (of byZero t) 0 1 = of byZero (Scalar.clamp t 0 1) := by
    intro t
    rw [Scalar.clamp, Scalar.clamp, Patched.of_ite, Patched.of_ite]
    rfl
  rw [distanceToSegment, distanceToSegment, Patched.of_ite, hlength, hdot, hempty]
  split
  · rfl
  · rename_i h
    rw [← of_div (by simpa using h), hclamp]
    rfl

namespace Outline

theorem crosses_of (a b : Point K) :
    crosses (p.map (of byZero)) (a.map (of byZero)) (b.map (of byZero)) = crosses p a b := by
  show ((decide (p.y < a.y) != decide (p.y < b.y)) && decide (of byZero p.x <
    of byZero a.x + of byZero (p.y - a.y) / of byZero (b.y - a.y) * of byZero (b.x - a.x))) = _
  cases h : (decide (p.y < a.y) != decide (p.y < b.y)) with
  | false => rw [crosses, h, Bool.false_and, Bool.false_and]
  | true =>
    rw [crosses, h, ← of_div (sub_ne_zero_of_bne h)]
    rfl

theorem encloses_of (o : Outline K) : (o.map (of byZero)).encloses (p.map (of byZero)) = o.encloses p := by
  cases o with
  | rect b => rfl
  | ellipse b =>
    have hquotient : ¬(b.w * Scalar.half ≤ 0 ∨ b.h * Scalar.half ≤ 0) →
        (p.map (of byZero) - (b.map (of byZero)).center) / (b.map (of byZero)).size.scaled Scalar.half =
          ((p - b.center) / b.size.scaled Scalar.half).map (of byZero) := by
      intro h
      rw [not_or] at h
      exact (Point.ext (of_div (fun hw => h.1 hw.le) _) (of_div (fun hh => h.2 hh.le) _)).symm
    show (if b.w * Scalar.half ≤ 0 ∨ b.h * Scalar.half ≤ 0 then false else
      decide (Point.lengthSq (_ / (b.map (of byZero)).size.scaled Scalar.half) ≤ 1 + ellipseSlack)) = _
    by_cases h : b.w * Scalar.half ≤ 0 ∨ b.h * Scalar.half ≤ 0
    · rw [if_pos h]
      exact (if_pos h).symm
    · rw [if_neg h, hquotient h]
      exact (if_neg h).symm
  | polygon ps =>
    show (ringSides (ps.map (Point.map (of byZero)))).foldl _ false = _
    rw [ringSides_map, List.foldl_map]
    simp only [Prod.map, crosses_of]
    rfl

theorem ring_of (o : Outline K) : (o.map (of byZero)).ring = o.ring.map (Point.map (of byZero)) := by
  cases o with
  | rect b => rfl
  | ellipse b =>
    have hsides : (Scalar.count ellipseSides : K) ≠ 0 := Nat.cast_ne_zero.2 (by decide)
    have hangle : Scalar.turn / Scalar.count ellipseSides =
        of byZero (Scalar.turn / Scalar.count ellipseSides : K) := (of_div hsides _).symm
    show ellipseRing (b.map (of byZero)) = (ellipseRing b).map _
    rw [ellipseRing, ellipseRing, List.map_map, hangle]
    rfl
  | polygon ps => rfl

theorem passes_of (o : Outline K) :
    (o.map (of byZero)).passes (of byZero tolerance) (p.map (of byZero)) = o.passes tolerance p := by
  rw [passes, passes, ring_of, ringSides_map, List.any_map]
  simp only [Function.comp_def, Prod.map, Point.distanceToSegment_of]
  rfl

end Outline

theorem Hit.geometric_of (outlines : Silhouette K) :
    geometric (of byZero tolerance) (outlines.map (Outline.map (of byZero))) (p.map (of byZero)) =
      geometric tolerance outlines p := by
  simp only [geometric, List.foldl_map, List.any_map, Function.comp_def, Outline.encloses_of, Outline.passes_of]

/-! ## The hit test -/

theorem Hit.geometric_rearranged [IsStrictOrderedRing K] {outlines outlines' : Silhouette K}
    (h : outlines.Rearranged outlines') (tolerance : K) (p : Point K) :
    geometric tolerance outlines p = geometric tolerance outlines' p := by
  induction h with
  | reorder h => exact geometric_of_perm h
  | rotate before after ps n =>
    have hsides : (ringSides ps).Perm (ringSides (ps.rotate n)) := by
      rw [ringSides_rotate]
      exact (List.rotate_perm _ n).symm
    exact geometric_congr (Outline.encloses_of_perm hsides) (Outline.passes_of_perm hsides) before after
  | reverse before after ps =>
    exact geometric_congr (Outline.encloses_reverse ps).symm (Outline.passes_reverse ps).symm before after
  | trans _ _ ih ih' => exact ih.trans ih'

/-- **Whether a point lies in the fill or on the stroke** depends on where the outlines run, and not on how the
silhouette says it. Nothing is divided by zero to tell: where a ray meets a side is computed only if the side is
not level, and with other quotients by zero, and without any, the whole answer is the same. -/
theorem Hit.geometric_of_rearranged [IsStrictOrderedRing K] {outlines outlines' : Silhouette K}
    (h : outlines.Rearranged outlines') (tolerance : K) (p : Point K) :
    geometric tolerance outlines' p = geometric tolerance outlines p ∧
      (∀ a b : Point K, (decide (p.y < a.y) != decide (p.y < b.y)) = true → b.y - a.y ≠ 0) ∧
      ∀ byZero : K → Option K,
        geometric (of byZero tolerance) (outlines.map (Outline.map (of byZero))) (p.map (of byZero)) =
          geometric tolerance outlines p :=
  ⟨(geometric_rearranged h tolerance p).symm, fun _ _ => Outline.sub_ne_zero_of_bne,
    fun byZero => geometric_of byZero tolerance p outlines⟩

/-- A closed line that crosses itself, with level sides and a side without length. -/
def Outline.bow : List (Point ℚ) := [⟨0, 0⟩, ⟨6, 6⟩, ⟨0, 6⟩, ⟨6, 0⟩, ⟨6, 0⟩]

/-- A triangle that overlaps it. -/
def Outline.pennant : List (Point ℚ) := [⟨2, 1⟩, ⟨5, 3⟩, ⟨2, 5⟩]

theorem Hit.geometric_of_rearranged_bow :
    let outlines : Silhouette ℚ := [.polygon Outline.bow, .rect ⟨1, 1, 4, 4⟩, .polygon Outline.pennant]
    let outlines' : Silhouette ℚ :=
      [.polygon Outline.pennant.reverse, .polygon (Outline.bow.rotate 2), .rect ⟨1, 1, 4, 4⟩]
    outlines.Rearranged outlines' ∧
      geometric (1 / 2) outlines ⟨3, 2⟩ = ⟨true, true⟩ ∧ geometric (1 / 2) outlines' ⟨3, 2⟩ = ⟨true, true⟩ := by
  intro outlines outlines'
  have hrearranged : outlines.Rearranged outlines' :=
    .trans (.rotate [] _ Outline.bow 2) (.trans (.reverse [_, _] [] Outline.pennant) (.reorder (by decide +kernel)))
  have hhit : geometric (1 / 2) outlines ⟨3, 2⟩ = ⟨true, true⟩ := by decide +kernel
  exact ⟨hrearranged, hhit, (geometric_of_rearranged hrearranged (1 / 2) ⟨3, 2⟩).1.trans hhit⟩

end

end StencilKit
