/-
Paths that are smooth where quadratic pieces follow each other.

Quadratic pieces in a row are read back as one curve, and a curve is drawn with pieces that meet halfway
between their control points. So pieces that meet there themselves, such that the point tells the control
point after it, are drawn again as they were (`along_curvePoints`); and whatever the pieces were, those
that are drawn instead meet there (`isSmooth_along`).

* `flatMap_steps_runs`: the runs of a path, step by step, are the path.
* `isSmooth_iff_runs`: it is within runs that a path is smooth or not.
-/
import Mathlib.Data.List.Chain
import StencilKit.Proofs.Decomposition.Strokes

namespace StencilKit

variable {α : Type}

/-! ## The steps of a run -/

/-- The steps that a run is made of. -/
def Run.steps : Run α → Path α
  | move p => [.move p]
  | lines p more => .line p :: more.map .line
  | quads q more => .quad q.1 q.2 :: more.map fun r => .quad r.1 r.2
  | close => [.close]

/-- **The runs of a path make it up.** -/
theorem Path.flatMap_steps_runs (path : Path α) : path.runs.flatMap Run.steps = path := by
  fun_induction runs path with
  | case1 => rfl
  | case2 p rest ih => rw [List.flatMap_cons, ih]; rfl
  | case3 rest ih => rw [List.flatMap_cons, ih]; rfl
  | case4 p rest q more rs hrest ih =>
    rw [hrest, List.flatMap_cons] at ih
    rw [List.flatMap_cons, ← ih]
    rfl
  | case5 p rest hrest ih => rw [List.flatMap_cons, ih]; rfl
  | case6 control stop rest q more rs hrest ih =>
    rw [hrest, List.flatMap_cons] at ih
    rw [List.flatMap_cons, ← ih]
    rfl
  | case7 control stop rest hrest ih => rw [List.flatMap_cons, ih]; rfl

variable [Scalar α]

/-! ## Smooth paths -/

/-- Whether two steps in a row go on smoothly if both are quadratic pieces: they meet halfway between their
control points, and this point tells the second of these. -/
def PathStep.Meets : PathStep α → PathStep α → Prop
  | quad control stop, quad next _ => (stop == control.midway next) = true ∧ (control.beyond stop == next) = true
  | _, _ => True

/-- Whether quadratic pieces in a row go on smoothly everywhere. -/
def Path.IsSmooth (path : Path α) : Prop := path.IsChain PathStep.Meets

instance (s t : PathStep α) : Decidable (s.Meets t) := by
  unfold PathStep.Meets
  split <;> infer_instance

instance (path : Path α) : Decidable path.IsSmooth := inferInstanceAs (Decidable (path.IsChain PathStep.Meets))

namespace Path

theorem isSmooth_cons {s : PathStep α} {path : Path α} :
    IsSmooth (s :: path) ↔ (∀ t ∈ path.head?, s.Meets t) ∧ IsSmooth path := List.isChain_cons

theorem isSmooth_singleton (s : PathStep α) : IsSmooth [s] := List.isChain_singleton s

theorem isSmooth_lines (ps : List (Point α)) : IsSmooth (ps.map PathStep.line) := by
  induction ps with
  | nil => exact .nil
  | cons p ps ih => exact isSmooth_cons.2 ⟨fun _ _ => trivial, ih⟩

/-- **A path is smooth if its runs are.** -/
theorem isSmooth_iff_runs (path : Path α) : path.IsSmooth ↔ ∀ r ∈ path.runs, IsSmooth r.steps := by
  fun_induction runs path with
  | case1 => exact ⟨fun _ => List.forall_mem_nil _, fun _ => .nil⟩
  | case2 p rest ih =>
    rw [isSmooth_cons, List.forall_mem_cons, ih]
    exact and_congr_left fun _ => ⟨fun _ => isSmooth_singleton _, fun _ _ _ => trivial⟩
  | case3 rest ih =>
    rw [isSmooth_cons, List.forall_mem_cons, ih]
    exact and_congr_left fun _ => ⟨fun _ => isSmooth_singleton _, fun _ _ _ => trivial⟩
  | case4 p rest q more rs hrest ih =>
    rw [hrest, List.forall_mem_cons] at ih
    rw [isSmooth_cons, List.forall_mem_cons, ih]
    exact ⟨fun h => ⟨isSmooth_lines (p :: q :: more), h.2.2⟩,
      fun h => ⟨fun _ _ => trivial, isSmooth_lines (q :: more), h.2⟩⟩
  | case5 p rest hrest ih =>
    rw [isSmooth_cons, List.forall_mem_cons, ih]
    exact and_congr_left fun _ => ⟨fun _ => isSmooth_singleton _, fun _ _ _ => trivial⟩
  | case6 control stop rest q more rs hrest ih =>
    have hhead : rest.head? = some (.quad q.1 q.2) := by
      rw [← flatMap_steps_runs rest, hrest]
      rfl
    rw [hrest, List.forall_mem_cons] at ih
    rw [isSmooth_cons, List.forall_mem_cons, ih, hhead]
    have hrun : IsSmooth (Run.quads (control, stop) (q :: more)).steps ↔
        (∀ t ∈ (Run.quads q more).steps.head?, (PathStep.quad control stop).Meets t) ∧
          IsSmooth (Run.quads q more).steps := isSmooth_cons
    rw [hrun, and_assoc]
    rfl
  | case7 control stop rest hrest ih =>
    rw [isSmooth_cons, List.forall_mem_cons, ih]
    refine and_congr_left fun _ => ⟨fun _ => isSmooth_singleton _, fun _ t ht => ?_⟩
    -- What follows is no quadratic piece, since this one is a run of its own.
    cases t with
    | quad next stop' =>
      obtain ⟨tail, rfl⟩ := List.head?_eq_some_iff.1 ht
      obtain ⟨more, rs, hruns⟩ := exists_runs_quad next stop' tail
      exact absurd hruns (hrest _ _ _)
    | _ => trivial

/-! ## Curves through smooth pieces -/

/-- Along three points or more a curve is drawn with quadratic pieces. -/
theorem along_curve (start : Point α) {ps : List (Point α)} (h : 2 ≤ ps.length) :
    along .curve (start :: ps) = (Quadratic.smoothFrom start ps).map fun q => .quad q.control q.stop := by
  show smooth _ = _
  rw [smooth, if_neg (by rw [List.length_cons]; omega)]
  rfl

/-- **What is drawn along points is smooth**, if a point halfway between control points always tells the second of
these. -/
theorem isSmooth_along
    (h : ∀ control next stop : Point α, (PathStep.quad control (control.midway next)).Meets (.quad next stop))
    (kind : EdgeKind) (ps : List (Point α)) : IsSmooth (along kind ps) := by
  have hpieces : ∀ start (ps : List (Point α)),
      IsSmooth ((Quadratic.smoothFrom start ps).map fun q => PathStep.quad q.control q.stop) := by
    intro start ps
    fun_induction Quadratic.smoothFrom start ps with
    | case1 => exact isSmooth_singleton _
    | case2 start control next p rest ih =>
      refine isSmooth_cons.2 ⟨fun t ht => ?_, ih⟩
      -- The piece that follows has the next control point.
      cases rest <;>
      · cases ht
        exact h control next _
    | case3 => exact .nil
  cases kind with
  | line => exact isSmooth_lines ps.tail
  | curve =>
    show IsSmooth (smooth ps)
    rw [smooth]
    split
    · exact isSmooth_lines ps.tail
    · cases ps with
      | nil => exact .nil
      | cons start ps => exact hpieces start ps

theorem along_curvePoints_eq (start : Point α) (first : Point α × Point α) (more : List (Point α × Point α)) :
    along .curve (Run.curvePoints start first more) =
      (Quadratic.smoothFrom start (first.1 :: (Run.controls first more ++
        [((first :: more).getLast (List.cons_ne_nil _ _)).2]))).map fun q => .quad q.control q.stop :=
  along_curve start (by simp)

/-- **A smooth run of quadratic pieces is drawn again as it was.** -/
theorem along_curvePoints (heq : ∀ p q : Point α, (p == q) = true → p = q) (start : Point α)
    {first : Point α × Point α} {more : List (Point α × Point α)} (h : IsSmooth (Run.quads first more).steps) :
    along .curve (Run.curvePoints start first more) = (Run.quads first more).steps := by
  rw [along_curvePoints_eq]
  induction more generalizing start first with
  | nil => rfl
  | cons next more ih =>
    obtain ⟨control, mid⟩ := first
    obtain ⟨hmeets, hmore⟩ := isSmooth_cons.1 h
    obtain ⟨hmid, hnext⟩ := hmeets (.quad next.1 next.2) rfl
    have hmid : mid = control.midway next.1 := heq _ _ hmid
    subst hmid
    rw [Run.controls_cons (heq _ _ hnext), List.getLast_cons_cons]
    -- There is a point after the next control point, so that the first piece ends before it.
    have hrest : ∃ p rest, Run.controls next more ++ [((next :: more).getLast (List.cons_ne_nil _ _)).2] = p :: rest :=
      List.exists_cons_of_ne_nil (by simp)
    have ih := ih (control.midway next.1) hmore
    obtain ⟨p, rest, hrest⟩ := hrest
    rw [hrest] at ih
    rw [List.cons_append, hrest, Quadratic.smoothFrom, List.map_cons, ih]
    rfl

end Path

end StencilKit
