/-
The edges that a path is read back as.

A path is cut into its longest runs. So straight steps alone give one line and quadratic pieces alone
one curve; with rounded corners, where straight steps and quadratic pieces take turns, each of them is an
edge of its own.

* `edges_straight`, `measured_edges_rounded`, `edges_ofCurve`: what the path of an edge is read back as.
* `edges_ne_nil`: a path that goes anywhere is read back as something.
-/
import StencilKit.Decomposition

namespace StencilKit

/-! ## Runs -/

namespace Path

variable {α : Type}

/-- Straight steps in a row are one run. -/
theorem runs_lines (p : Point α) (ps : List (Point α)) : runs (.line p :: ps.map .line) = [.lines p ps] := by
  induction ps generalizing p with
  | nil => rfl
  | cons q ps ih => rw [List.map_cons, runs, ih]

/-- Quadratic pieces in a row are one run. -/
theorem runs_quads (q : Point α × Point α) (qs : List (Point α × Point α)) :
    runs (.quad q.1 q.2 :: qs.map fun q => .quad q.1 q.2) = [.quads q qs] := by
  induction qs generalizing q with
  | nil => rfl
  | cons r qs ih => rw [List.map_cons, runs, ih]

theorem exists_runs_line (p : Point α) (path : Path α) :
    ∃ more rs, runs (.line p :: path) = .lines p more :: rs := by
  rw [runs]
  split
  · exact ⟨_, _, rfl⟩
  · exact ⟨_, _, rfl⟩

theorem exists_runs_quad (control stop : Point α) (path : Path α) :
    ∃ more rs, runs (.quad control stop :: path) = .quads (control, stop) more :: rs := by
  rw [runs]
  split
  · exact ⟨_, _, rfl⟩
  · exact ⟨_, _, rfl⟩

/-- A quadratic piece between straight steps is a run of its own. -/
theorem runs_corner (p control stop q : Point α) (path : Path α) :
    runs (.line p :: .quad control stop :: .line q :: path) =
      .lines p [] :: .quads (control, stop) [] :: runs (.line q :: path) := by
  obtain ⟨more, rs, hrest⟩ := exists_runs_line q path
  have hquads : runs (.quad control stop :: .line q :: path) =
      .quads (control, stop) [] :: runs (.line q :: path) := by
    rw [hrest, runs, hrest]
  rw [runs, hquads]

end Path

/-! ## Curves -/

namespace Quadratic

variable {α : Type} [Scalar α]

theorem length_smoothFrom (start p : Point α) (ps : List (Point α)) :
    (smoothFrom start (p :: ps)).length = ps.length := by
  induction ps generalizing start p with
  | nil => rfl
  | cons q ps ih =>
    cases ps with
    | nil => rfl
    | cons r ps =>
      rw [smoothFrom, List.length_cons, ih]
      rfl

end Quadratic

namespace Run

variable {α : Type} [Scalar α]

theorem length_controls (first : Point α × Point α) (more : List (Point α × Point α)) :
    (controls first more).length = more.length := by
  fun_induction controls first more with
  | case1 => rfl
  | case2 => rfl
  | case3 control mid next q rest ih => rw [List.length_cons, ih, List.length_cons (a := next)]

/-- Where the point halfway tells the next control point, it is read back. -/
theorem controls_cons {control mid : Point α} {next : Point α × Point α} (h : control.beyond mid = next.1)
    (more : List (Point α × Point α)) :
    controls (control, mid) (next :: more) = next.1 :: controls next more := by
  cases more with
  | nil => rfl
  | cons q more => rw [controls, h]

theorem length_curvePoints (start : Point α) (first : Point α × Point α) (more : List (Point α × Point α)) :
    (curvePoints start first more).length = more.length + 3 := by
  simp [curvePoints, length_controls]

end Run

namespace Path

variable {α : Type} [Scalar α]

/-- The points that the smooth curve through three points or more is read back with. -/
def retraced (ps : List (Point α)) : List (Point α) :=
  match (Quadratic.smooth ps).map fun q => (q.control, q.stop), ps with
  | first :: more, start :: _ => Run.curvePoints start first more
  | _, _ => ps

/-- There are as many points as there were. -/
theorem length_retraced (ps : List (Point α)) : (retraced ps).length = ps.length := by
  unfold retraced
  split
  · rename_i first more start rest h
    have hlength := congrArg List.length h
    cases rest with
    | nil => cases h
    | cons p rest =>
      rw [List.length_map, Quadratic.smooth, Quadratic.length_smoothFrom] at hlength
      rw [Run.length_curvePoints, List.length_cons, List.length_cons, hlength, List.length_cons]
  · rfl

theorem edges_move (p : Point α) (path : Path α) :
    edges (.move p :: path) = Run.drawAll ⟨some p, some p⟩ path.runs := rfl

/-- **A line is read back as it is.** -/
theorem edges_straight (p q : Point α) (ps : List (Point α)) :
    edges (starting straight (p :: q :: ps)) = [(.line, p :: q :: ps)] := by
  show edges (.move p :: .line q :: ps.map .line) = _
  rw [edges_move, runs_lines]
  rfl

/-- **A curve is read back as one curve**, and as a line if it has only two points. -/
theorem edges_ofCurve (p q : Point α) (ps : List (Point α)) : edges (ofCurve (p :: q :: ps)) =
    if ps = [] then [(.line, [p, q])] else [(.curve, retraced (p :: q :: ps))] := by
  cases ps with
  | nil => rfl
  | cons r ps =>
    have hpieces : ∃ first more, Quadratic.smoothFrom p (q :: r :: ps) = first :: more := by
      apply List.exists_cons_of_length_pos
      rw [Quadratic.length_smoothFrom]
      exact Nat.succ_pos _
    obtain ⟨first, more, hpieces⟩ := hpieces
    have hpath : ofCurve (p :: q :: r :: ps) = .move p :: .quad first.control first.stop ::
        (more.map fun q => (q.control, q.stop)).map fun q => .quad q.1 q.2 := by
      rw [ofCurve, starting, smooth, if_neg (by simp), Quadratic.smooth, hpieces, List.map_cons, List.map_map]
      rfl
    have hretraced : retraced (p :: q :: r :: ps) = Run.curvePoints p (first.control, first.stop)
        (more.map fun q => (q.control, q.stop)) := by
      simp only [retraced, Quadratic.smooth, hpieces, List.map_cons]
    rw [hpath, edges_move, runs_quads (first.control, first.stop), if_neg (List.cons_ne_nil r ps), hretraced]
    rfl

/-! ## Rounded corners -/

/-- The kinds and numbers of points of what a line with rounded corners through `n` points is read back
as: a straight piece and a corner by turns, with a straight piece at either end. -/
def turns (n : Nat) : List (EdgeKind × Nat) :=
  (List.range (2 * n - 3)).map fun i => if i % 2 = 0 then (.line, 2) else (.curve, 3)

theorem turns_succ (n : Nat) : turns (n + 3) = (.line, 2) :: (.curve, 3) :: turns (n + 2) := by
  have hnumber : 2 * (n + 3) - 3 = 2 * (n + 2) - 3 + 1 + 1 := by omega
  rw [turns, hnumber, List.range_succ_eq_map, List.range_succ_eq_map, turns]
  simp [Function.comp_def, Nat.add_assoc]

/-- What is known of an edge wherever it lies. -/
def measured (e : EdgeKind × List (Point α)) : EdgeKind × Nat := (e.1, e.2.length)

/-- The rest of a line, from wherever the corner before it left the pen. -/
theorem measured_rounded (blend : α) (a : Point α) (start? : Option (Point α)) (p q : Point α)
    (ps : List (Point α)) :
    (Run.drawAll ⟨some a, start?⟩ (runs (rounded blend (p :: q :: ps)))).map measured = turns (ps.length + 2) := by
  induction ps generalizing a start? p q with
  | nil => rfl
  | cons r ps ih =>
    -- The rest begins with a straight step, so that the corner is a run of its own.
    have hrest : ∃ s path, rounded blend (q :: r :: ps) = .line s :: path := by
      cases ps with
      | nil => exact ⟨_, _, rfl⟩
      | cons s ps => exact ⟨_, _, rfl⟩
    obtain ⟨s, path, hrest⟩ := hrest
    rw [rounded, hrest, runs_corner, ← hrest]
    simp only [Run.drawAll, Run.draw, Option.toList_some, List.singleton_append, List.map_cons]
    show measured _ :: measured _ :: List.map measured (Run.drawAll ⟨some (q.lerp r (1 - blend)), _⟩ _) = _
    rw [ih, List.length_cons, turns_succ]
    rfl

/-- **A line with rounded corners is read back piece by piece.** -/
theorem measured_edges_rounded (blend : α) (p q : Point α) (ps : List (Point α)) :
    (edges (starting (rounded blend) (p :: q :: ps))).map measured = turns (ps.length + 2) :=
  measured_rounded blend p (some p) p q ps

example : turns 3 = [(.line, 2), (.curve, 3), (.line, 2)] := by decide

/-! ## Paths in general -/

theorem two_le_length_of_draw (pen : Pen α) (r : Run α) : ∀ e ∈ (r.draw pen).1, 2 ≤ e.2.length := by
  intro e he
  obtain ⟨at?, start?⟩ := pen
  cases r with
  | move p => cases he
  | lines p more =>
    cases at? with
    | some a =>
      cases he
      exact Nat.le_add_left 2 more.length
    | none =>
      cases more with
      | nil => cases he
      | cons q more =>
        cases he
        exact Nat.le_add_left 2 more.length
  | quads first more =>
    cases he
    exact (Run.length_curvePoints _ first more).symm ▸ Nat.le_add_left 2 (more.length + 1)
  | close =>
    cases at? with
    | none => cases he
    | some a =>
      cases start? with
      | none => cases he
      | some start =>
        simp only [Run.draw] at he
        split at he
        · cases he
        · cases he
          exact Nat.le_refl 2

/-- An edge that a path is read back as has two points at least. -/
theorem two_le_length_of_mem_edges {path : Path α} {e : EdgeKind × List (Point α)} (he : e ∈ edges path) :
    2 ≤ e.2.length := by
  have hall : ∀ (rs : List (Run α)) (pen : Pen α), ∀ e ∈ Run.drawAll pen rs, 2 ≤ e.2.length := by
    intro rs
    induction rs with
    | nil => exact fun _ => List.forall_mem_nil _
    | cons r rs ih =>
      intro pen
      exact List.forall_mem_append.2
        ⟨fun e he => two_le_length_of_draw pen r e (Option.mem_toList.1 he), ih _⟩
  exact hall path.runs ⟨none, none⟩ e he

/-- A step that draws, wherever the pen is. -/
inductive Strokes : PathStep α → Prop where
  | line (p : Point α) : Strokes (.line p)
  | quad (control stop : Point α) : Strokes (.quad control stop)

/-- **A path that goes anywhere is read back as something.** -/
theorem edges_ne_nil (p : Point α) {s : PathStep α} (hs : Strokes s) (path : Path α) :
    edges (.move p :: s :: path) ≠ [] := by
  rw [edges_move]
  cases hs with
  | line q =>
    obtain ⟨more, rs, h⟩ := exists_runs_line q path
    rw [h]
    exact List.cons_ne_nil _ _
  | quad control stop =>
    obtain ⟨more, rs, h⟩ := exists_runs_quad control stop path
    rw [h]
    exact List.cons_ne_nil _ _

/-- The steps along two points or more begin with one that draws. -/
theorem exists_along (kind : EdgeKind) (p q : Point α) (ps : List (Point α)) :
    ∃ s path, along kind (p :: q :: ps) = s :: path ∧ Strokes s := by
  cases kind with
  | line => exact ⟨_, _, rfl, .line q⟩
  | curve =>
    cases ps with
    | nil => exact ⟨_, _, rfl, .line q⟩
    | cons r ps =>
      cases ps with
      | nil => exact ⟨_, _, rfl, .quad q r⟩
      | cons t ps => exact ⟨_, _, rfl, .quad q (q.midway r)⟩

end Path

end StencilKit
