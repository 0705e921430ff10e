/-
What a path draws, and what the edges draw that it is read back as.

A pen follows a path and leaves straight and quadratic segments: a move lifts it, lines and quadratic
pieces are drawn from where it is, and closing a subpath draws a line back to where the subpath began,
unless the pen is there. Each edge that the path is read back as is drawn by a pen of its own, from the
edge's own first point; and so what is drawn depends on the path's pen having been where the edge begins
(`segments_draw`). Where points that compare as equal are equal, the edges draw what the path draws, as long
as quadratic pieces that follow each other go on smoothly (`segments_edges`).

For doubles this is shown with one zero, where drawing at the origin and to the same scale moves nothing.
-/
import StencilKit.Proofs.Binary64.Unit
import StencilKit.Proofs.Decomposition.Edges
import StencilKit.Proofs.Decomposition.Smooth

namespace StencilKit

variable {α : Type}

/-! ## Segments -/

/-- A piece of what a pen draws. -/
inductive Segment (α : Type) where
  | line (start stop : Point α)
  | quad (start control stop : Point α)
  deriving BEq, DecidableEq

/-- Where the pen is, and where the current subpath began. -/
structure Cursor (α : Type) where
  here : Point α
  start : Point α

namespace Cursor

/-- Where the pen goes. -/
def after (c : Cursor α) : PathStep α → Cursor α
  | .move p => ⟨p, p⟩
  | .line p | .quad _ p => ⟨p, c.start⟩
  | .close => ⟨c.start, c.start⟩

/-- The pen of a reader of paths that is down. -/
def pen (c : Cursor α) : Pen α := ⟨some c.here, some c.start⟩

variable [Scalar α]

/-- What the pen draws on its way. -/
def segment? (c : Cursor α) : PathStep α → Option (Segment α)
  | .move _ => none
  | .line p => some (.line c.here p)
  | .quad control p => some (.quad c.here control p)
  | .close => if c.here == c.start then none else some (.line c.here c.start)

def segments (c : Cursor α) : Path α → List (Segment α)
  | [] => []
  | s :: path => (c.segment? s).toList ++ (c.after s).segments path

end Cursor

/-- What a path draws that begins with a move. -/
def Path.segments [Scalar α] : Path α → List (Segment α)
  | .move p :: path => Cursor.segments ⟨p, p⟩ path
  | _ => []

/-- What an edge draws from its own source. -/
def Edge.segments [Scalar α] (e : Edge α) : List (Segment α) :=
  Cursor.segments ⟨e.route.source, e.route.source⟩ (Path.along e.kind e.points)

/-- Whether a path begins with a move. -/
def Path.beginsWithMove : Path α → Bool
  | .move _ :: _ => true
  | _ => false

theorem Path.beginsWithMove_map {β : Type} (path : Path α) (f : α → β) :
    beginsWithMove (List.map (PathStep.map f) path) = path.beginsWithMove := by
  match path with
  | [] => rfl
  | s :: _ => cases s <;> rfl

variable [Scalar α]

namespace Cursor

theorem segments_append (c : Cursor α) (path more : Path α) :
    c.segments (path ++ more) = c.segments path ++ (path.foldl after c).segments more := by
  induction path generalizing c with
  | nil => rfl
  | cons s path ih => rw [List.cons_append, segments, segments, ih, List.append_assoc, List.foldl_cons]

/-- Where a subpath began matters only for closing it. -/
theorem segments_of_strokes {path : Path α} (h : ∀ s ∈ path, Path.Strokes s) (p start start' : Point α) :
    segments ⟨p, start⟩ path = segments ⟨p, start'⟩ path := by
  induction path generalizing p with
  | nil => rfl
  | cons s path ih =>
    obtain ⟨hs, hpath⟩ := List.forall_mem_cons.1 h
    cases hs with
    | line q => exact congrArg (Segment.line p q :: ·) (ih hpath q)
    | quad control q => exact congrArg (Segment.quad p control q :: ·) (ih hpath q)

omit [Scalar α] in
/-- After steps that each end at a point of their own the pen is at the last of these. -/
theorem foldl_after {T : Type} {f : T → PathStep α} {g : T → Point α} (hf : ∀ c x, after c (f x) = ⟨g x, c.start⟩)
    (c : Cursor α) (x : T) (xs : List T) :
    ((x :: xs).map f).foldl after c = ⟨g ((x :: xs).getLast (List.cons_ne_nil _ _)), c.start⟩ := by
  induction xs generalizing c x with
  | nil => exact hf c x
  | cons y xs ih =>
    rw [List.map_cons, List.foldl_cons, ih, hf, List.getLast_cons_cons]

end Cursor

/-! ## Edges draw what the path draws -/

/-- What an edge draws, given by its kind and points. -/
def drawnSegments (e : EdgeKind × List (Point α)) : List (Segment α) :=
  match e.2 with
  | [] => []
  | p :: _ => Cursor.segments ⟨p, p⟩ (Path.along e.1 e.2)

namespace Run

variable (heq : ∀ p q : Point α, (p == q) = true → p = q)
include heq

/-- **A run is drawn by the edge that it is read back as**, and the reader's pen goes where the pen goes. -/
theorem segments_draw (c : Cursor α) {r : Run α} (h : Path.IsSmooth r.steps) :
    (r.draw c.pen).1.toList.flatMap drawnSegments = c.segments r.steps ∧
      (r.draw c.pen).2 = (r.steps.foldl Cursor.after c).pen := by
  obtain ⟨here, start⟩ := c
  cases r with
  | move p => exact ⟨rfl, rfl⟩
  | lines p more =>
    have hstrokes : ∀ s ∈ (p :: more).map PathStep.line, Path.Strokes s :=
      List.forall_mem_map.2 fun q _ => .line q
    have hafter : ((p :: more).map PathStep.line).foldl Cursor.after ⟨here, start⟩ = ⟨_, start⟩ :=
      Cursor.foldl_after (fun _ _ => rfl) ⟨here, start⟩ p more
    refine ⟨?_, ?_⟩
    · show drawnSegments (.line, here :: p :: more) ++ [] = _
      rw [List.append_nil]
      exact Cursor.segments_of_strokes hstrokes here here start
    · show Pen.mk (p :: more).getLast? (some start) = (((p :: more).map PathStep.line).foldl Cursor.after _).pen
      rw [hafter, List.getLast?_eq_some_getLast (List.cons_ne_nil _ _)]
      rfl
  | quads first more =>
    have hstrokes : ∀ s ∈ (quads first more).steps, Path.Strokes s :=
      List.forall_mem_cons.2 ⟨.quad _ _, List.forall_mem_map.2 fun q _ => .quad q.1 q.2⟩
    have hafter : ((first :: more).map fun q => PathStep.quad q.1 q.2).foldl Cursor.after ⟨here, start⟩ = ⟨_, start⟩ :=
      Cursor.foldl_after (fun _ _ => rfl) ⟨here, start⟩ first more
    refine ⟨?_, ?_⟩
    · show Cursor.segments ⟨here, here⟩ (Path.along .curve (curvePoints here first more)) ++ [] = _
      rw [List.append_nil, Path.along_curvePoints heq here h]
      exact Cursor.segments_of_strokes hstrokes here here start
    · show Pen.mk (curvePoints here first more).getLast? (some start) =
        (((first :: more).map fun q => PathStep.quad q.1 q.2).foldl Cursor.after _).pen
      rw [hafter, curvePoints, List.getLast?_concat]
      rfl
  | close =>
    cases hclosed : here == start with
    | true => simp [draw, Cursor.pen, steps, Cursor.segments, Cursor.segment?, Cursor.after, hclosed]
    | false =>
      simp [draw, Cursor.pen, steps, Cursor.segments, Cursor.segment?, Cursor.after, hclosed, drawnSegments,
        Path.along, Path.straight]

/-- **Runs in a row.** -/
theorem segments_drawAll (c : Cursor α) {rs : List (Run α)} (h : ∀ r ∈ rs, Path.IsSmooth r.steps) :
    (drawAll c.pen rs).flatMap drawnSegments = c.segments (rs.flatMap steps) := by
  induction rs generalizing c with
  | nil => rfl
  | cons r rs ih =>
    obtain ⟨hr, hrs⟩ := List.forall_mem_cons.1 h
    obtain ⟨hdrawn, hpen⟩ := segments_draw heq c hr
    rw [drawAll, List.flatMap_append, List.flatMap_cons, Cursor.segments_append, hdrawn, hpen, ih _ hrs]

end Run

/-- **The edges that a smooth path is read back as draw what the path draws.** -/
theorem Path.segments_edges (heq : ∀ p q : Point α, (p == q) = true → p = q) {path : Path α}
    (hmove : path.beginsWithMove = true) (hsmooth : path.IsSmooth) :
    path.edges.flatMap drawnSegments = path.segments := by
  match path, hmove with
  | .move p :: path, _ =>
    have hruns := (isSmooth_iff_runs path).1 (isSmooth_cons.1 hsmooth).2
    have hedges := Run.segments_drawAll heq ⟨p, p⟩ hruns
    rw [flatMap_steps_runs] at hedges
    exact hedges

/-- **The edges of a stencil draw what its paths draw**, where nothing is moved. -/
theorem Stencil.segments_decompose (heq : ∀ p q : Point α, (p == q) = true → p = q) {s : Stencil α} {b : Box α}
    (hplace : ∀ p, (Placement.of s b).point p = p) (hmove : ∀ path ∈ s.paths, path.beginsWithMove = true)
    (hsmooth : ∀ path ∈ s.paths, path.IsSmooth) (options : DecomposeOptions α) :
    (s.decompose options b).edges.flatMap Edge.segments = s.paths.flatMap Path.segments := by
  have hedges := Stencil.edges_decompose_of_identity hplace options
  calc (s.decompose options b).edges.flatMap Edge.segments
      = ((s.decompose options b).edges.map Edge.drawn).flatMap drawnSegments :=
        (List.flatMap_map Edge.drawn drawnSegments _).symm
    _ = s.paths.flatMap fun path => path.edges.flatMap drawnSegments := by rw [hedges, List.flatMap_assoc]
    _ = s.paths.flatMap Path.segments :=
      List.flatMap_congr fun path hp => Path.segments_edges heq (hmove path hp) (hsmooth path hp)

/-! ## Changing numbers -/

def Segment.map {β : Type} (f : α → β) : Segment α → Segment β
  | line start stop => line (start.map f) (stop.map f)
  | quad start control stop => quad (start.map f) (control.map f) (stop.map f)

def Quadratic.map {β : Type} (f : α → β) (q : Quadratic α) : Quadratic β :=
  ⟨q.start.map f, q.control.map f, q.stop.map f⟩

def Cursor.map {β : Type} (f : α → β) (c : Cursor α) : Cursor β := ⟨c.here.map f, c.start.map f⟩

section

variable {β : Type} [Scalar β] {φ : α → β} (h : Scalar.Hom φ)
include h

theorem Point.map_midway (control next : Point α) : (control.midway next).map φ = (control.map φ).midway (next.map φ) := by
  have hcoordinate : ∀ a b : α, φ (a * (1 - Scalar.half) + b * Scalar.half) =
      φ a * (1 - Scalar.half) + φ b * Scalar.half := by
    intro a b
    rw [h.add, h.mul, h.mul, h.sub, h.one, h.half]
  exact congr (congrArg mk (hcoordinate control.x next.x)) (hcoordinate control.y next.y)

theorem Quadratic.map_smoothFrom (start : Point α) (ps : List (Point α)) :
    (smoothFrom start ps).map (map φ) = smoothFrom (start.map φ) (ps.map (Point.map φ)) := by
  fun_induction smoothFrom start ps with
  | case1 => rfl
  | case2 start control next p rest ih =>
    rw [Point.map_midway h] at ih
    rw [List.map_cons, ih, map, Point.map_midway h]
    rfl
  | case3 ps start hshort hlong =>
    rcases ps with _ | ⟨p, _ | ⟨q, _ | ⟨r, rest⟩⟩⟩
    · rfl
    · rfl
    · exact (hshort _ _ rfl).elim
    · exact (hlong _ _ _ _ rfl).elim

theorem Path.map_along (kind : EdgeKind) (ps : List (Point α)) :
    List.map (PathStep.map φ) (along kind ps) = along kind (ps.map (Point.map φ)) := by
  have hstraight : ∀ ps : List (Point α), List.map (PathStep.map φ) (straight ps) = straight (ps.map (Point.map φ)) := by
    intro ps
    rw [straight, straight, List.map_map, ← List.map_tail, List.map_map]
    rfl
  cases kind with
  | line => exact hstraight ps
  | curve =>
    show List.map _ (smooth ps) = smooth _
    rw [smooth, smooth, List.length_map]
    split
    · exact hstraight ps
    · cases ps with
      | nil => rfl
      | cons start ps =>
        rw [List.map_cons, Quadratic.smooth, Quadratic.smooth, ← Quadratic.map_smoothFrom h, List.map_map, List.map_map]
        rfl

theorem Cursor.map_segments (c : Cursor α) (path : Path α) :
    (c.map φ).segments (List.map (PathStep.map φ) path) = (c.segments path).map (Segment.map φ) := by
  induction path generalizing c with
  | nil => rfl
  | cons s path ih =>
    have hsegment : (c.map φ).segment? (s.map φ) = (c.segment? s).map (Segment.map φ) := by
      cases s with
      | close =>
        show (if (c.here.map φ == c.start.map φ) = true then _ else _) = _
        rw [Point.map_beq h, segment?]
        split <;> rfl
      | _ => rfl
    have hafter : (c.map φ).after (s.map φ) = (c.after s).map φ := by cases s <;> rfl
    rw [List.map_cons, segments, segments, hsegment, hafter, ih, List.map_append, Option.toList_map]

theorem Path.map_segments (path : Path α) :
    segments (List.map (PathStep.map φ) path) = (segments path).map (Segment.map φ) := by
  cases path with
  | nil => rfl
  | cons s path =>
    cases s with
    | move p => exact Cursor.map_segments h ⟨p, p⟩ path
    | _ => rfl

theorem Edge.map_segments (e : Edge α) : (e.map φ).segments = e.segments.map (Segment.map φ) := by
  have hpoints : (e.map φ).points = e.points.map (Point.map φ) := e.route.points_mapPoints (Point.map φ)
  rw [segments, hpoints]
  show Cursor.segments _ (Path.along e.kind _) = _
  rw [← Path.map_along h]
  exact Cursor.map_segments h ⟨e.route.source, e.route.source⟩ (Path.along e.kind e.points)

theorem Path.isSmooth_map (path : Path α) : IsSmooth (List.map (PathStep.map φ) path) ↔ path.IsSmooth := by
  have hmeets : ∀ s t : PathStep α, (s.map φ).Meets (t.map φ) ↔ s.Meets t := by
    intro s t
    cases s with
    | quad control stop =>
      cases t with
      | quad next stop' =>
        show (stop.map φ == (control.map φ).midway (next.map φ)) = true ∧
          ((control.map φ).beyond (stop.map φ) == next.map φ) = true ↔ _
        rw [← Point.map_midway h, ← Point.map_beyond h, Point.map_beq h, Point.map_beq h]
        rfl
      | _ => exact Iff.rfl
    | _ => exact Iff.rfl
  rw [IsSmooth, List.isChain_map]
  simp only [hmeets, IsSmooth]

end

/-! ## Doubles -/

open Binary64 (plain Plain)

namespace Binary64.Plain

theorem eq_of_beq {a b : Plain} (h : (a == b) = true) : a = b := by
  obtain ⟨x, hx⟩ := a
  obtain ⟨y, hy⟩ := b
  have hplain : plain x = plain y := plain_eq_of_beq h
  rw [hx, hy] at hplain
  subst hplain
  rfl

/-- **Drawing at the origin and to the same scale moves nothing.** -/
theorem point_identity (p : Point Plain) : (⟨0, 1⟩ : Placement Plain).point p = p := by
  have hcoordinate : ∀ a : Plain, 0 + a * 1 = a := by
    rintro ⟨x, hx⟩
    have hof : (⟨x, hx⟩ : Plain) = of x := by simp only [of, hx]
    have hsum : of (0.0 + x * 1.0) = of 0.0 + of x * of 1.0 := by rw [hom.add, hom.mul]
    have hvalue : of (0.0 + x * 1.0) = of x := by simp only [of, Binary64.mul_one, Binary64.zero_add]
    rw [hof]
    exact hsum.symm.trans hvalue
  exact congr (congrArg Point.mk (hcoordinate p.x)) (hcoordinate p.y)

end Binary64.Plain

/-- A stencil that is drawn at the origin in its own size stays as it is. -/
theorem Placement.of_ownSize {s : Stencil Float} (hw : Scalar.isFinite s.w = true) (hh : Scalar.isFinite s.h = true) :
    Placement.of s ⟨0, 0, s.w, s.h⟩ = ⟨0, 1⟩ := by
  rw [of, Stencil.scaleTo]
  split
  · rename_i hpos
    have hwidth := Binary64.div_self_eq_one (Binary64.isScale_of_pos hw hpos.1)
    have hheight := Binary64.div_self_eq_one (Binary64.isScale_of_pos hh hpos.2)
    show (⟨_, ⟨s.w / s.w, s.h / s.h⟩⟩ : Placement Float) = _
    rw [hwidth, hheight]
    rfl
  · rfl

/-- **What a stencil's paths draw, its edges draw again**, wherever it is drawn without moving or scaling
it. Each path is to begin with a move, and where quadratic pieces follow each other each but the last is to
end halfway to the next control point, from where this is found again. Then the edges that the stencil is
taken apart into, each drawn from its own source, draw the segments of the paths in order, number by number
the same but for the signs of zeros. -/
theorem segments_of_decompose {s : Stencil Float} {b : Box Float} (hplace : Placement.of s b = ⟨0, 1⟩)
    (hmove : ∀ path ∈ s.paths, path.beginsWithMove = true) (hsmooth : ∀ path ∈ s.paths, path.IsSmooth)
    (options : DecomposeOptions Float) :
    ((s.decompose options b).edges.flatMap Edge.segments).map (Segment.map plain) =
      (s.paths.flatMap Path.segments).map (Segment.map plain) := by
  have heq : ∀ p q : Point Plain, (p == q) = true → p = q := by
    intro p q h
    obtain ⟨hx, hy⟩ := Bool.and_eq_true_iff.1 h
    exact congr (congrArg Point.mk (Plain.eq_of_beq hx)) (Plain.eq_of_beq hy)
  have hplace' : ∀ p, (Placement.of (s.map Plain.of) (b.map Plain.of)).point p = p := by
    rw [← Placement.map_of Plain.hom, hplace]
    exact Plain.point_identity
  have hpaths : ∀ path ∈ (s.map Plain.of).paths, path.beginsWithMove = true ∧ path.IsSmooth := by
    rw [Stencil.paths_map]
    refine List.forall_mem_map.2 fun path hpath => ?_
    exact ⟨(Path.beginsWithMove_map path _).trans (hmove path hpath),
      (Path.isSmooth_map Plain.hom path).2 (hsmooth path hpath)⟩
  have hdraws := Stencil.segments_decompose heq hplace' (fun path hp => (hpaths path hp).1)
    (fun path hp => (hpaths path hp).2) (options.map Plain.of)
  rw [Stencil.map_decompose Plain.hom, Parts.edges_map, Stencil.paths_map, List.flatMap_map, List.flatMap_map] at hdraws
  simp only [Edge.map_segments Plain.hom, Path.map_segments Plain.hom, ← List.map_flatMap] at hdraws
  have hplain := congrArg (List.map (Segment.map Plain.val)) hdraws
  have hcomp : Segment.map Plain.val ∘ Segment.map Plain.of = Segment.map plain := funext fun t => by cases t <;> rfl
  rw [List.map_map, List.map_map, hcomp] at hplain
  exact hplain

/-- Subpaths, one of them begun by closing the last, moves that lead nowhere, lines, and a curve. -/
def winding : Stencil Float where
  w := 8
  h := 4
  foreground :=
    [.path [.move ⟨0, 0⟩, .line ⟨4, 0⟩, .line ⟨4, 2⟩, .close, .close, .line ⟨1, 1⟩, .move ⟨2, 2⟩, .move ⟨4, 0⟩,
      .quad ⟨5, 2⟩ ⟨6, 2⟩, .quad ⟨7, 2⟩ ⟨8, 4⟩, .line ⟨8, 0⟩, .close],
      .path [.move ⟨1, 3⟩, .quad ⟨2, -0.0⟩ ⟨3, 3⟩]]

theorem segments_of_decompose_winding :
    Placement.of winding ⟨0, 0, 8, 4⟩ = ⟨0, 1⟩ ∧ (∀ path ∈ winding.paths, path.beginsWithMove = true) ∧
      (∀ path ∈ winding.paths, path.IsSmooth) ∧
      ((winding.decompose .standard ⟨0, 0, 8, 4⟩).edges.flatMap Edge.segments).map (Segment.map plain) =
        (winding.paths.flatMap Path.segments).map (Segment.map plain) := by
  have hplace : Placement.of winding ⟨0, 0, 8, 4⟩ = ⟨0, 1⟩ := Placement.of_ownSize (by decide) (by decide)
  have hmove : ∀ path ∈ winding.paths, path.beginsWithMove = true := by decide
  have hsmooth : ∀ path ∈ winding.paths, path.IsSmooth := by decide +kernel
  exact ⟨hplace, hmove, hsmooth, segments_of_decompose hplace hmove hsmooth .standard⟩

end StencilKit
