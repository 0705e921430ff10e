/-
Edges that are drawn as one path, and what is drawn of the edges that it is taken apart into.

A path has nothing between the edges that it was joined from. Where two curves meet, their pieces are one
run, and the run is read back as one smooth curve, which goes through the point halfway between the last
control point of the one and the first of the other, wherever the two met. So in exact coordinates the path
is drawn again step by step just when the curves that follow each other meet in such points
(`redraw_stitched_iff`).

* `redraw_drawAll_iff`: steps that draw are drawn again as they were just when they are smooth.
* `isSmooth_pathOf_iff`: the path along links is smooth just when their joints are.
-/
import StencilKit.Proofs.Chain.Walk
import StencilKit.Proofs.Decomposition.Edges
import StencilKit.Proofs.Decomposition.Placing
import StencilKit.Proofs.Decomposition.Smooth

namespace StencilKit

variable {K : Type} [Field K] [LinearOrder K] [FloorRing K] [Transcendental K]

theorem Point.beq_iff {p q : Point K} : (p == q) = true ↔ p = q := by
  show (p.x == q.x && p.y == q.y) = true ↔ _
  rw [Bool.and_eq_true, beq_iff_eq, beq_iff_eq, Point.ext_iff]

/-- The steps that draw edges one after the other, each from where the pen is. -/
def redraw {α : Type} [Scalar α] (edges : List (EdgeKind × List (Point α))) : Path α :=
  edges.flatMap fun e => Path.along e.1 e.2

variable [IsStrictOrderedRing K]

/-- In exact coordinates a point halfway between control points always tells the second of these. -/
theorem PathStep.meets_quad_iff {control stop next stop' : Point K} :
    (quad control stop).Meets (quad next stop') ↔ stop = control.midway next := by
  show (stop == control.midway next) = true ∧ (control.beyond stop == next) = true ↔ _
  rw [Point.beq_iff, Point.beq_iff]
  refine ⟨And.left, fun h => ⟨h, ?_⟩⟩
  rw [h, Point.beyond_midway]

/-! ## Runs that are drawn again -/

namespace Run

/-- **A run of drawing steps is drawn again as it was just when it is smooth.** -/
theorem exists_draw {pen : Pen K} {a : Point K} (hpen : pen.at? = some a) {r : Run K}
    (hr : ∀ s ∈ r.steps, Path.Strokes s) :
    ∃ e, (r.draw pen).1 = some e ∧ (Path.along e.1 e.2).length = r.steps.length ∧
      (Path.along e.1 e.2 = r.steps ↔ Path.IsSmooth r.steps) ∧ ∃ b, (r.draw pen).2.at? = some b := by
  cases r with
  | move p => cases hr (.move p) List.mem_cons_self
  | close => cases hr .close List.mem_cons_self
  | lines p more =>
    refine ⟨(.line, a :: p :: more), by rw [draw, hpen], rfl, ?_, ?_⟩
    · exact iff_of_true rfl (Path.isSmooth_lines (p :: more))
    · rw [draw, hpen]
      exact ⟨_, List.getLast?_eq_some_getLast (List.cons_ne_nil _ _)⟩
  | quads first more =>
    have hstart : pen.at?.getD first.1 = a := by rw [hpen]; rfl
    refine ⟨(.curve, curvePoints a first more), by rw [draw, hstart], ?_, ?_, ?_⟩
    · rw [Path.along_curvePoints_eq, List.length_map, Quadratic.length_smoothFrom, List.length_append, length_controls]
      simp [steps]
    · refine ⟨fun h => ?_, Path.along_curvePoints (fun _ _ => Point.beq_iff.1) a⟩
      exact h ▸ Path.isSmooth_along (fun _ _ _ => PathStep.meets_quad_iff.2 rfl) .curve (curvePoints a first more)
    · rw [draw, hstart]
      exact ⟨_, by rw [curvePoints, List.getLast?_concat]⟩

/-- **Runs in a row.** -/
theorem redraw_drawAll_iff {pen : Pen K} {a : Point K} (hpen : pen.at? = some a) {rs : List (Run K)}
    (hrs : ∀ r ∈ rs, ∀ s ∈ r.steps, Path.Strokes s) :
    redraw (drawAll pen rs) = rs.flatMap steps ↔ ∀ r ∈ rs, Path.IsSmooth r.steps := by
  induction rs generalizing pen a with
  | nil => exact iff_of_true rfl (List.forall_mem_nil _)
  | cons r rs ih =>
    obtain ⟨hr, hrs⟩ := List.forall_mem_cons.1 hrs
    obtain ⟨e, he, hlength, hagain, b, hb⟩ := exists_draw hpen hr
    -- As many steps are drawn again as the run has, so that the steps of the runs stay apart.
    have hsplit : ∀ more more' : Path K,
        Path.along e.1 e.2 ++ more = r.steps ++ more' ↔ Path.along e.1 e.2 = r.steps ∧ more = more' :=
      fun _ _ => ⟨fun h => List.append_inj h hlength, fun h => by rw [h.1, h.2]⟩
    rw [drawAll, he, List.flatMap_cons, List.forall_mem_cons, ← ih hb hrs, ← hagain, ← hsplit]
    rfl

end Run

/-- **Steps that draw are drawn again as they were just when they are smooth.** -/
theorem Path.redraw_edges_iff (p : Point K) {path : Path K} (h : ∀ s ∈ path, Strokes s) :
    redraw (edges (.move p :: path)) = path ↔ path.IsSmooth := by
  have hruns : ∀ r ∈ path.runs, ∀ s ∈ r.steps, Strokes s := by
    intro r hr s hs
    rw [← flatMap_steps_runs path] at h
    exact h s (List.mem_flatMap.2 ⟨r, hr, hs⟩)
  have hagain : redraw (Run.drawAll ⟨some p, some p⟩ path.runs) = path.runs.flatMap Run.steps ↔ _ :=
    Run.redraw_drawAll_iff rfl hruns
  rw [edges_move, isSmooth_iff_runs, ← hagain, flatMap_steps_runs]

/-! ## The ends of what is drawn along points -/

section

variable {α : Type} [Scalar α]

theorem Quadratic.smoothFrom_cons (start control next : Point α) {ps : List (Point α)} (h : ps ≠ []) :
    smoothFrom start (control :: next :: ps) =
      ⟨start, control, control.midway next⟩ :: smoothFrom (control.midway next) (next :: ps) := by
  cases ps with
  | nil => exact absurd rfl h
  | cons p ps => rfl

/-- The last piece of a curve has the last control point, and ends where the curve does. -/
theorem Quadratic.getLast?_smoothFrom (start : Point α) (ps : List (Point α)) (control stop : Point α) :
    ∃ q, (smoothFrom start (ps ++ [control, stop])).getLast? = some q ∧ q.control = control ∧ q.stop = stop := by
  induction ps generalizing start with
  | nil => exact ⟨_, rfl, rfl, rfl⟩
  | cons p ps ih =>
    obtain ⟨next, rest, hrest, hne⟩ : ∃ next rest, ps ++ [control, stop] = next :: rest ∧ rest ≠ [] := by
      cases ps with
      | nil => exact ⟨control, [stop], rfl, by simp⟩
      | cons next ps => exact ⟨next, ps ++ [control, stop], rfl, by simp⟩
    obtain ⟨q, hq, hcontrol, hstop⟩ := ih (p.midway next)
    refine ⟨q, ?_, hcontrol, hstop⟩
    rw [List.cons_append, hrest, smoothFrom_cons start p next hne, ← hrest, List.getLast?_cons, hq]
    rfl

namespace Path

theorem strokes_along (kind : EdgeKind) (ps : List (Point α)) : ∀ s ∈ along kind ps, Strokes s := by
  have hstraight : ∀ s ∈ straight ps, Strokes s := List.forall_mem_map.2 fun p _ => .line p
  cases kind with
  | line => exact hstraight
  | curve =>
    show ∀ s ∈ smooth ps, Strokes s
    rw [smooth]
    split
    · exact hstraight
    · exact List.forall_mem_map.2 fun q _ => .quad q.control q.stop

/-- Which edges begin with a quadratic piece. -/
theorem quad_mem_head?_along {kind : EdgeKind} {a z control : Point α} {bends : List (Point α)} :
    (∃ stop, .quad control stop ∈ (along kind (a :: bends ++ [z])).head?) ↔
      kind = .curve ∧ control ∈ bends.head? := by
  cases kind with
  | line =>
    refine iff_of_false ?_ fun h => by cases h.1
    rintro ⟨stop, h⟩
    cases bends <;> cases h
  | curve =>
    cases bends with
    | nil =>
      refine iff_of_false ?_ fun h => by cases h.2
      rintro ⟨stop, h⟩
      cases h
    | cons first bends =>
      have hhead : ∃ stop, (along .curve (a :: first :: bends ++ [z])).head? = some (.quad first stop) := by
        rw [List.cons_append, along_curve a (by simp)]
        cases bends with
        | nil => exact ⟨_, rfl⟩
        | cons next bends =>
          rw [List.cons_append, List.cons_append, Quadratic.smoothFrom_cons _ _ _ (by simp)]
          exact ⟨_, rfl⟩
      obtain ⟨stop, hhead⟩ := hhead
      rw [hhead]
      constructor
      · rintro ⟨_, h⟩
        cases h
        exact ⟨rfl, rfl⟩
      · rintro ⟨-, h⟩
        cases h
        exact ⟨stop, rfl⟩

/-- Which edges end with a quadratic piece. -/
theorem quad_mem_getLast?_along {kind : EdgeKind} {a z control stop : Point α} {bends : List (Point α)} :
    .quad control stop ∈ (along kind (a :: bends ++ [z])).getLast? ↔
      kind = .curve ∧ control ∈ bends.getLast? ∧ stop = z := by
  cases kind with
  | line =>
    refine iff_of_false (fun h => ?_) fun h => by cases h.1
    have hline : (along .line (a :: bends ++ [z])).getLast? = some (.line z) := by
      show ((bends ++ [z]).map PathStep.line).getLast? = _
      rw [List.map_append, List.map_singleton, List.getLast?_concat]
    rw [hline] at h
    cases h
  | curve =>
    rcases List.eq_nil_or_concat bends with rfl | ⟨init, last, rfl⟩
    · refine iff_of_false (fun h => ?_) fun h => by cases h.2.1
      cases h
    · rw [List.concat_eq_append, List.getLast?_concat]
      have hlast : (along .curve (a :: (init ++ [last]) ++ [z])).getLast? = some (.quad last z) := by
        obtain ⟨q, hq, hcontrol, hstop⟩ := Quadratic.getLast?_smoothFrom a init last z
        rw [List.cons_append, List.append_assoc, along_curve a (by simp), List.getLast?_map]
        exact (congrArg _ hq).trans (by rw [Option.map_some, hcontrol, hstop])
      rw [hlast]
      constructor
      · intro h
        cases h
        exact ⟨rfl, rfl, rfl⟩
      · rintro ⟨-, h, rfl⟩
        cases h
        rfl

end Path

/-- The points of a link between its ends. -/
def Link.bends (l : Link α) : List (Point α) :=
  if l.reversed then l.edge.route.bends.reverse else l.edge.route.bends

omit [Scalar α] in
theorem Link.points_eq (l : Link α) : l.points = l.start :: l.bends ++ [l.stop] := by
  unfold points start stop bends
  split
  · simp [Edge.points, Route.points]
  · rfl

/-- Whether a link goes on smoothly from the one before it if both are curves that have control points: they meet
halfway between the last control point of the one and the first of the other. -/
def Link.MeetsSmoothly (l m : Link α) : Prop :=
  l.edge.kind = .curve → m.edge.kind = .curve →
    ∀ control ∈ l.bends.getLast?, ∀ next ∈ m.bends.head?, l.stop = control.midway next

instance [DecidableEq α] (l m : Link α) : Decidable (l.MeetsSmoothly m) :=
  inferInstanceAs (Decidable (_ → _ → ∀ control ∈ l.bends.getLast?, ∀ next ∈ m.bends.head?, _ = control.midway next))

end

/-! ## Paths along links -/

namespace Chain

theorem linkSteps_eq {α : Type} [Scalar α] (origin : Point α) (l : Link α) : linkSteps origin l =
    Path.along l.edge.kind ((l.start - origin) :: l.bends.map (· - origin) ++ [l.stop - origin]) := by
  rw [linkSteps, l.points_eq, List.map_append, List.map_cons, List.map_singleton]

theorem linkSteps_ne_nil {α : Type} [Scalar α] (origin : Point α) (l : Link α) : linkSteps origin l ≠ [] := by
  rw [linkSteps_eq]
  obtain ⟨q, ps, hrest⟩ := List.exists_cons_of_ne_nil
    (List.append_ne_nil_of_right_ne_nil (l.bends.map (· - origin)) (List.cons_ne_nil (l.stop - origin) []))
  rw [List.cons_append, hrest]
  obtain ⟨s, path, h, -⟩ := Path.exists_along l.edge.kind (l.start - origin) q ps
  rw [h]
  exact List.cons_ne_nil _ _

/-- **Where two links meet, the path is smooth just when the links go on smoothly.** -/
theorem meets_linkSteps_iff (origin : Point K) (l m : Link K) :
    (∀ s ∈ (linkSteps origin l).getLast?, ∀ t ∈ (linkSteps origin m).head?, s.Meets t) ↔ l.MeetsSmoothly m := by
  have hmoved : ∀ stop control next : Point K,
      stop - origin = (control - origin).midway (next - origin) ↔ stop = control.midway next := by
    have hcoordinate : ∀ s o a b : K, s - o = (a - o) * (1 - Scalar.half) + (b - o) * Scalar.half ↔
        s = a * (1 - Scalar.half) + b * Scalar.half := by
      intro s o a b
      have hmoved : (a - o) * (1 - Scalar.half) + (b - o) * Scalar.half =
          a * (1 - Scalar.half) + b * Scalar.half - o := by ring
      rw [hmoved]
      exact sub_left_inj
    intro stop control next
    rw [Point.ext_iff, Point.ext_iff]
    exact and_congr (hcoordinate stop.x origin.x control.x next.x) (hcoordinate stop.y origin.y control.y next.y)
  rw [linkSteps_eq, linkSteps_eq]
  constructor
  · intro h hl hm control hcontrol next hnext
    have hlast : control - origin ∈ (l.bends.map (· - origin)).getLast? :=
      List.getLast?_map ▸ Option.mem_map_of_mem _ hcontrol
    have hfirst : next - origin ∈ (m.bends.map (· - origin)).head? :=
      List.head?_map ▸ Option.mem_map_of_mem _ hnext
    obtain ⟨stop, ht⟩ := Path.quad_mem_head?_along.2 ⟨hm, hfirst⟩
    have hmeets := h _ (Path.quad_mem_getLast?_along.2 ⟨hl, hlast, rfl⟩) _ ht
    exact (hmoved l.stop control next).1 (PathStep.meets_quad_iff.1 hmeets)
  · intro h s hs t ht
    cases s with
    | quad control stop =>
      cases t with
      | quad next stop' =>
        obtain ⟨hl, hlast, rfl⟩ := Path.quad_mem_getLast?_along.1 hs
        obtain ⟨hm, hfirst⟩ := Path.quad_mem_head?_along.1 ⟨_, ht⟩
        rw [List.getLast?_map] at hlast
        rw [List.head?_map] at hfirst
        obtain ⟨control, hcontrol, rfl⟩ := Option.mem_map.1 hlast
        obtain ⟨next, hnext, rfl⟩ := Option.mem_map.1 hfirst
        exact PathStep.meets_quad_iff.2 ((hmoved l.stop control next).2 (h hl hm control hcontrol next hnext))
      | _ => trivial
    | _ => trivial

theorem isSmooth_pathOf_iff (origin : Point K) (links : List (Link K)) :
    Path.IsSmooth (links.flatMap (linkSteps origin)) ↔ links.IsChain Link.MeetsSmoothly := by
  induction links with
  | nil => exact iff_of_true .nil .nil
  | cons l links ih =>
    have hl : Path.IsSmooth (linkSteps origin l) :=
      Path.isSmooth_along (fun _ _ _ => PathStep.meets_quad_iff.2 rfl) _ _
    cases links with
    | nil => exact iff_of_true (by simpa using hl) (List.isChain_singleton l)
    | cons m links =>
      have hhead : ((m :: links).flatMap (linkSteps origin)).head? = (linkSteps origin m).head? := by
        rw [List.flatMap_cons, List.head?_append_of_ne_nil _ (linkSteps_ne_nil origin m)]
      rw [List.flatMap_cons, Path.IsSmooth, List.isChain_append, hhead, meets_linkSteps_iff, List.isChain_cons_cons,
        ← ih]
      exact ⟨fun h => ⟨h.2.2, h.2.1⟩, fun h => ⟨hl, h.2, h.1⟩⟩

end Chain

/-- **When a joined path is drawn again as it was**, in exact coordinates. However edges are joined, the path that
comes of it begins with a move and then goes along the links. The edges that it is taken apart into, where
nothing is moved or scaled, each drawn from its own source, give the steps after the move again just when the
curves that follow each other meet smoothly. -/
theorem redraw_stitched_iff {tolerance : K} {origin : Point K} {edges : List (Edge K)} {path : Path K}
    (h : Chain.path tolerance origin edges = .ok path) {s : Stencil K} (hpaths : s.paths = [path]) {b : Box K}
    (hplace : Placement.of s b = ⟨0, 1⟩) (options : DecomposeOptions K) :
    ∃ links, Chain.links tolerance edges = .ok links ∧ path = Chain.pathOf origin links ∧
      (((s.decompose options b).edges.flatMap fun e => Path.along e.kind e.points) = path.tail ↔
        links.IsChain Link.MeetsSmoothly) := by
  obtain ⟨links, hlinks, rfl⟩ := Xml.map_eq_ok h
  refine ⟨links, hlinks, rfl, ?_⟩
  have hpoint : ∀ p : Point K, (Placement.of s b).point p = p := by
    intro p
    have hcoordinate : ∀ a : K, 0 + a * 1 = a := fun a => by ring
    rw [hplace]
    exact Point.ext (hcoordinate p.x) (hcoordinate p.y)
  have hedges := s.edges_decompose_of_identity hpoint options
  rw [hpaths, List.flatMap_singleton] at hedges
  have hredraw : ((s.decompose options b).edges.flatMap fun e => Path.along e.kind e.points) =
      redraw (Chain.pathOf origin links).edges := by
    rw [← hedges, redraw, List.flatMap_map]
    rfl
  rw [hredraw]
  cases links with
  | nil => exact iff_of_true rfl .nil
  | cons l links =>
    have hstrokes : ∀ s ∈ (l :: links).flatMap (Chain.linkSteps origin), Path.Strokes s := by
      intro s hs
      obtain ⟨m, -, hs⟩ := List.mem_flatMap.1 hs
      exact Path.strokes_along _ _ s hs
    rw [← Chain.isSmooth_pathOf_iff origin, ← Path.redraw_edges_iff (l.start - origin) hstrokes]
    rfl

/-- A stencil of unit size in a box of unit size at the origin stays as it is. -/
theorem Placement.of_single (node : Node ℚ) : Placement.of (.single node) ⟨0, 0, 1, 1⟩ = ⟨0, 1⟩ := by
  have hone : (1 : ℚ) / 1 = 1 := div_one 1
  rw [of, Stencil.scaleTo, if_pos ⟨zero_lt_one, zero_lt_one⟩]
  exact congrArg (Placement.mk 0) (Point.ext hone hone)

/-- A wave of two curves that meet smoothly, the second given from its end, and a line. -/
def wave : List (Link ℚ) :=
  [⟨⟨.curve, ⟨⟨0, 0⟩, [⟨2, 4⟩], ⟨4, 4⟩⟩⟩, false⟩, ⟨⟨.curve, ⟨⟨8, 0⟩, [⟨7, 2⟩, ⟨6, 4⟩], ⟨4, 4⟩⟩⟩, true⟩,
    ⟨⟨.line, ⟨⟨8, 0⟩, [], ⟨10, 1⟩⟩⟩, false⟩]

theorem redraw_stitched_iff_wave :
    ∃ path, Chain.path (1 / 1000) 0 (wave.map (·.edge)) = .ok path ∧
      (((Stencil.single (.path path)).decompose .standard ⟨0, 0, 1, 1⟩).edges.flatMap fun e =>
        Path.along e.kind e.points) = path.tail := by
  have hpath : Chain.path (1 / 1000) 0 (wave.map (·.edge)) = .ok (Chain.pathOf 0 wave) := by decide +kernel
  have hlinks : Chain.links (1 / 1000) (wave.map (·.edge)) = .ok wave := by decide +kernel
  have hpaths : (Stencil.single (.path (Chain.pathOf 0 wave))).paths = [Chain.pathOf 0 wave] := rfl
  obtain ⟨links, hlinks', -, hagain⟩ := redraw_stitched_iff hpath hpaths (Placement.of_single _) .standard
  obtain rfl := Except.ok.inj (hlinks.symm.trans hlinks')
  exact ⟨_, hpath, hagain.2 (by decide +kernel)⟩

/-- Two arches that meet on the ground. -/
def arches : List (Edge ℚ) :=
  [⟨.curve, ⟨⟨0, 0⟩, [⟨2, 4⟩], ⟨4, 0⟩⟩⟩, ⟨.curve, ⟨⟨4, 0⟩, [⟨6, 4⟩], ⟨8, 0⟩⟩⟩]

/-- The arches are read back as one curve, which does not come down between them. -/
theorem not_redrawn_arches :
    ∃ path again, Chain.path (1 / 1000) 0 arches = .ok path ∧
      Placement.of (.single (.path path)) ⟨0, 0, 1, 1⟩ = ⟨0, 1⟩ ∧
      (((Stencil.single (.path path)).decompose .standard ⟨0, 0, 1, 1⟩).edges.flatMap fun e =>
        Path.along e.kind e.points) = again ∧ again ≠ path.tail := by
  refine ⟨[.move ⟨0, 0⟩, .quad ⟨2, 4⟩ ⟨4, 0⟩, .quad ⟨6, 4⟩ ⟨8, 0⟩], [.quad ⟨2, 4⟩ ⟨4, 4⟩, .quad ⟨6, 4⟩ ⟨8, 0⟩], ?_,
    Placement.of_single _, ?_, ?_⟩
  all_goals decide +kernel

end StencilKit
