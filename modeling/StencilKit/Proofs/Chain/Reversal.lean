/-
The other way round.

A chain walks an edge backwards where only its last point touches, and then a curve is laid out from what was
its last point. In exact coordinates this is no other curve: a point halfway between two control points is so from
either side, and so the reversed points have the same pieces, each from its other end (`smooth_reverse`). What a
pen draws along an edge it draws along the edge backwards as well, in the opposite order and direction; and so with
links that are joined end to end (`drawn_backwards`).
-/
import StencilKit.Proofs.Attachment.Curves
import StencilKit.Proofs.Chain.Simple
import StencilKit.Proofs.Decomposition.Joints

namespace StencilKit

section

variable {α : Type}

/-- A piece of a curve from its other end. -/
def Quadratic.turned (q : Quadratic α) : Quadratic α := ⟨q.stop, q.control, q.start⟩

/-- What is drawn, drawn from its other end. -/
def Segment.turned : Segment α → Segment α
  | line start stop => line stop start
  | quad start control stop => quad stop control start

theorem Link.bends_flip (l : Link α) : l.flip.bends = l.bends.reverse := by
  obtain ⟨e, _ | _⟩ := l
  · rfl
  · exact (List.reverse_reverse _).symm

end

/-! ## What a pen draws along links -/

section

variable {α : Type} [Scalar α]

/-- After the pieces of a curve the pen is at the last point. -/
theorem Quadratic.foldl_after_smoothFrom (start control stop : Point α) (ps : List (Point α)) (c : Cursor α) :
    ((smoothFrom start (control :: ps ++ [stop])).map fun q => .quad q.control q.stop).foldl Cursor.after c =
      ⟨stop, c.start⟩ := by
  induction ps generalizing start control c with
  | nil => rfl
  | cons next ps ih =>
    rw [List.cons_append, List.cons_append, smoothFrom_cons _ _ _ (by simp)]
    exact ih (control.midway next) next _

/-- After the steps along an edge the pen is at the target. -/
theorem Path.foldl_after_along (kind : EdgeKind) (a z : Point α) (bends : List (Point α)) (c : Cursor α) :
    (along kind (a :: bends ++ [z])).foldl Cursor.after c = ⟨z, c.start⟩ := by
  have hstraight : ∀ (bends : List (Point α)) (c : Cursor α),
      ((bends ++ [z]).map PathStep.line).foldl Cursor.after c = ⟨z, c.start⟩ := by
    intro bends
    induction bends with
    | nil => exact fun _ => rfl
    | cons b bends ih => exact fun c => ih _
  cases kind with
  | line => exact hstraight bends c
  | curve =>
    cases bends with
    | nil => rfl
    | cons b bends =>
      rw [List.cons_append, along_curve a (by simp)]
      exact Quadratic.foldl_after_smoothFrom a b z bends c

theorem Path.segments_along_curve (a start : Point α) {ps : List (Point α)} (h : 2 ≤ ps.length) :
    Cursor.segments ⟨a, start⟩ (along .curve (a :: ps)) = (Quadratic.smoothFrom a ps).map Quadratic.segment := by
  rw [along_curve a h]
  exact Quadratic.segments_smoothFrom a start ps

namespace Chain

/-- What a pen draws along a link, relative to an origin, from where the link begins. -/
def drawn (origin : Point α) (l : Link α) : List (Segment α) :=
  Cursor.segments ⟨l.start - origin, l.start - origin⟩ (linkSteps origin l)

theorem segments_linkSteps (origin : Point α) (l : Link α) (start : Point α) :
    Cursor.segments ⟨l.start - origin, start⟩ (linkSteps origin l) = drawn origin l :=
  Cursor.segments_of_strokes (Path.strokes_along l.edge.kind _) _ _ _

/-- **Along links that are joined end to end** a pen draws what it draws along each of them. -/
theorem segments_pathOf (origin : Point α) {links : List (Link α)}
    (h : links.IsChain fun l m => l.stop = m.start) : (pathOf origin links).segments = links.flatMap (drawn origin) := by
  have hlinks : ∀ (l : Link α) (links : List (Link α)) (start : Point α),
      (l :: links).IsChain (fun l m => l.stop = m.start) →
        Cursor.segments ⟨l.start - origin, start⟩ ((l :: links).flatMap (linkSteps origin)) =
          (l :: links).flatMap (drawn origin) := by
    intro l links start hjoined
    induction links generalizing l start with
    | nil => rw [List.flatMap_singleton, List.flatMap_singleton, segments_linkSteps]
    | cons m links ih =>
      obtain ⟨hlm, hrest⟩ := List.isChain_cons_cons.1 hjoined
      have hpen : (linkSteps origin l).foldl Cursor.after ⟨l.start - origin, start⟩ = ⟨m.start - origin, start⟩ := by
        rw [linkSteps_eq, Path.foldl_after_along, hlm]
      rw [List.flatMap_cons, Cursor.segments_append, segments_linkSteps, hpen, ih m start hrest]
      rfl
  cases links with
  | nil => rfl
  | cons l links => exact hlinks l links _ h

end Chain

end

variable {K : Type} [Field K] [LinearOrder K] [FloorRing K] [Transcendental K]

/-! ## Curves from their other end -/

theorem Quadratic.point_turned (q : Quadratic K) (t : K) : q.turned.point t = q.point (1 - t) := by
  have hcoordinate : ∀ a b c : K, c * ((1 - t) * (1 - t)) + b * (Scalar.two * (1 - t) * t) + a * (t * t) =
      a * ((1 - (1 - t)) * (1 - (1 - t))) + b * (Scalar.two * (1 - (1 - t)) * (1 - t)) + c * ((1 - t) * (1 - t)) := by
    intro a b c
    ring
  exact Point.ext (hcoordinate _ _ _) (hcoordinate _ _ _)

variable [IsStrictOrderedRing K]

theorem Point.midway_comm (p q : Point K) : p.midway q = q.midway p := by
  have hcoordinate : ∀ a b : K, a * (1 - Scalar.half) + b * Scalar.half = b * (1 - Scalar.half) + a * Scalar.half := by
    intro a b
    rw [Scalar.half_eq]
    ring
  exact Point.ext (hcoordinate _ _) (hcoordinate _ _)

namespace Quadratic

omit [IsStrictOrderedRing K] in
/-- The last piece begins halfway between the last two control points, where the pieces before it end. -/
theorem smoothFrom_concat (start control next stop : Point K) (ps : List (Point K)) :
    smoothFrom start (ps ++ [control, next, stop]) =
      smoothFrom start (ps ++ [control, control.midway next]) ++ [⟨control.midway next, next, stop⟩] := by
  induction ps generalizing start with
  | nil => rfl
  | cons p ps ih =>
    cases ps with
    | nil => rfl
    | cons q ps =>
      rw [List.cons_append, List.cons_append, List.cons_append, List.cons_append, smoothFrom_cons _ _ _ (by simp),
        smoothFrom_cons _ _ _ (by simp), List.cons_append]
      exact congrArg _ (ih (p.midway q))

/-- The induction is on the control points. The first piece, which is the last one the other way round, ends where
the others begin, and these are laid out from there. -/
theorem smoothFrom_reverse (start control stop : Point K) (ps : List (Point K)) :
    smoothFrom stop ((control :: ps).reverse ++ [start]) =
      ((smoothFrom start (control :: ps ++ [stop])).map turned).reverse := by
  induction ps generalizing start control with
  | nil => rfl
  | cons next ps ih =>
    have hends : (control :: next :: ps).reverse ++ [start] = ps.reverse ++ [next, control, start] := by simp
    have hrest : (next :: ps).reverse ++ [control.midway next] = ps.reverse ++ [next, control.midway next] := by simp
    have hfirst : smoothFrom start (control :: next :: ps ++ [stop]) =
        ⟨start, control, control.midway next⟩ :: smoothFrom (control.midway next) (next :: ps ++ [stop]) :=
      smoothFrom_cons start control next (by simp)
    rw [hends, smoothFrom_concat, Point.midway_comm next control, ← hrest, ih, hfirst, List.map_cons,
      List.reverse_cons]
    rfl

/-- **The pieces of the reversed points.** -/
theorem smooth_reverse (ps : List (Point K)) : smooth ps.reverse = ((smooth ps).map turned).reverse := by
  match ps with
  | [] | [_] | [_, _] => rfl
  | start :: control :: p :: rest =>
    obtain ⟨init, stop, hrest⟩ := (List.eq_nil_or_concat (p :: rest)).resolve_left (List.cons_ne_nil _ _)
    have hreverse : (start :: control :: (init ++ [stop])).reverse = stop :: ((control :: init).reverse ++ [start]) := by
      simp
    rw [hrest, List.concat_eq_append, hreverse]
    exact smoothFrom_reverse start control stop init

end Quadratic

/-! ## Edges and chains from their other end -/

/-- **What a pen draws along points**, it draws along the reversed points the other way round. -/
theorem Path.segments_along_reverse (kind : EdgeKind) (a z start start' : Point K) (bends : List (Point K)) :
    Cursor.segments ⟨z, start⟩ (along kind (z :: bends.reverse ++ [a])) =
      ((Cursor.segments ⟨a, start'⟩ (along kind (a :: bends ++ [z]))).map Segment.turned).reverse := by
  have hstraight : ∀ (a : Point K) (bends : List (Point K)),
      Cursor.segments ⟨z, start⟩ ((bends.reverse ++ [a]).map PathStep.line) =
        ((Cursor.segments ⟨a, start'⟩ ((bends ++ [z]).map PathStep.line)).map Segment.turned).reverse := by
    intro a bends
    induction bends generalizing a with
    | nil => rfl
    | cons b bends ih =>
      have hpen : ((bends.reverse ++ [b]).map PathStep.line).foldl Cursor.after ⟨z, start⟩ = ⟨b, start⟩ :=
        foldl_after_along .line z b bends.reverse ⟨z, start⟩
      have hfirst : Cursor.segments ⟨a, start'⟩ ((b :: bends ++ [z]).map PathStep.line) =
          .line a b :: Cursor.segments ⟨b, start'⟩ ((bends ++ [z]).map PathStep.line) := rfl
      rw [List.reverse_cons, List.map_append, Cursor.segments_append, hpen, ih, hfirst]
      exact List.reverse_cons.symm
  cases kind with
  | line => exact hstraight a bends
  | curve =>
    cases bends with
    | nil => rfl
    | cons control bends =>
      rw [List.cons_append, List.cons_append, segments_along_curve z start (by simp),
        segments_along_curve a start' (by simp), Quadratic.smoothFrom_reverse, List.map_reverse, List.map_map,
        List.map_map]
      rfl

namespace Chain

theorem drawn_flip (origin : Point K) (l : Link K) :
    drawn origin l.flip = ((drawn origin l).map Segment.turned).reverse := by
  rw [drawn, drawn, linkSteps_eq, linkSteps_eq, Link.start_flip, Link.stop_flip, Link.bends_flip, List.map_reverse]
  exact Path.segments_along_reverse _ _ _ _ _ _

theorem segments_backwards (origin : Point K) {links : List (Link K)}
    (h : links.IsChain fun l m => l.stop = m.start) :
    (pathOf origin (backwards links)).segments = ((pathOf origin links).segments.map Segment.turned).reverse := by
  have hback : (backwards links).IsChain fun l m => l.stop = m.start := by
    rw [backwards, List.isChain_reverse, List.isChain_map]
    simpa only [Link.stop_flip, Link.start_flip, eq_comm] using h
  rw [segments_pathOf origin hback, segments_pathOf origin h, List.map_flatMap, List.reverse_flatMap, backwards,
    ← List.map_reverse, List.flatMap_map]
  exact List.flatMap_congr fun l _ => drawn_flip origin l

/-- **An edge that is walked backwards** is drawn as it is when it is walked forwards, in the opposite order and
direction. The reversed points of a curve have the same pieces, each from its other end, where what was left of the
way has been gone. Links that are joined end to end can all be walked backwards, the last one first. -/
theorem drawn_backwards (origin : Point K) :
    (∀ ps : List (Point K), Quadratic.smooth ps.reverse = ((Quadratic.smooth ps).map Quadratic.turned).reverse) ∧
      (∀ (q : Quadratic K) (t : K), q.turned.point t = q.point (1 - t)) ∧
      (∀ (e : Edge K) (start start' : Point K),
        Cursor.segments ⟨e.route.target - origin, start⟩ (linkSteps origin ⟨e, true⟩) =
          ((Cursor.segments ⟨e.route.source - origin, start'⟩ (linkSteps origin ⟨e, false⟩)).map
            Segment.turned).reverse) ∧
      ∀ links : List (Link K), (links.IsChain fun l m => l.stop = m.start) →
        (pathOf origin (backwards links)).segments =
          ((pathOf origin links).segments.map Segment.turned).reverse := by
  refine ⟨Quadratic.smooth_reverse, Quadratic.point_turned, fun e start start' => ?_,
    fun links => segments_backwards origin⟩
  have hback := segments_linkSteps origin ⟨e, true⟩ start
  have hforth := segments_linkSteps origin ⟨e, false⟩ start'
  exact hback.trans ((drawn_flip origin ⟨e, false⟩).trans (by rw [← hforth]; rfl))

/-- A curve with three control points, and a polyline that ends where the curve does. -/
def hook : List (Link ℚ) :=
  [⟨⟨.curve, ⟨0, 0⟩, [⟨2, 4⟩, ⟨4, 8⟩, ⟨7, 4⟩], ⟨10, 0⟩⟩, false⟩, ⟨⟨.line, ⟨12, 6⟩, [⟨12, 2⟩], ⟨10, 0⟩⟩, true⟩]

theorem drawn_backwards_hook :
    (hook.IsChain fun l m => l.stop = m.start) ∧
      (pathOf ⟨0, 0⟩ hook).segments =
        [.quad ⟨0, 0⟩ ⟨2, 4⟩ ⟨3, 6⟩, .quad ⟨3, 6⟩ ⟨4, 8⟩ ⟨11 / 2, 6⟩, .quad ⟨11 / 2, 6⟩ ⟨7, 4⟩ ⟨10, 0⟩,
          .line ⟨10, 0⟩ ⟨12, 2⟩, .line ⟨12, 2⟩ ⟨12, 6⟩] ∧
      (pathOf ⟨0, 0⟩ (backwards hook)).segments =
        [.line ⟨12, 6⟩ ⟨12, 2⟩, .line ⟨12, 2⟩ ⟨10, 0⟩, .quad ⟨10, 0⟩ ⟨7, 4⟩ ⟨11 / 2, 6⟩,
          .quad ⟨11 / 2, 6⟩ ⟨4, 8⟩ ⟨3, 6⟩, .quad ⟨3, 6⟩ ⟨2, 4⟩ ⟨0, 0⟩] := by
  have hjoined : hook.IsChain fun l m => l.stop = m.start := by decide +kernel
  have hdrawn : (pathOf ⟨0, 0⟩ hook).segments = [.quad ⟨0, 0⟩ ⟨2, 4⟩ ⟨3, 6⟩, .quad ⟨3, 6⟩ ⟨4, 8⟩ ⟨11 / 2, 6⟩,
      .quad ⟨11 / 2, 6⟩ ⟨7, 4⟩ ⟨10, 0⟩, .line ⟨10, 0⟩ ⟨12, 2⟩, .line ⟨12, 2⟩ ⟨12, 6⟩] := by decide +kernel
  obtain ⟨-, -, -, hlinks⟩ := drawn_backwards (⟨0, 0⟩ : Point ℚ)
  have hback := hlinks hook hjoined
  rw [hdrawn] at hback
  exact ⟨hjoined, hdrawn, hback⟩

end Chain

end StencilKit
