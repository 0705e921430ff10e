/-
Subpaths, as the edges of a stencil and as its silhouette tell them.

A path falls into subpaths: each begins with a move, or where the pen is left when the one before it is
closed. The edges that a path without quadratic pieces is read back as go through all points of its subpaths,
as far as these draw anything (`Path.mem_drawnPoints_iff`); the polygons of its silhouette go through the points
that each subpath names itself (`Silhouette.polygonsFrom_eq`). So they go through the same points but for what a
subpath misses that goes on after closing without a move (`points_eq_vertices_iff`).
-/
import StencilKit.Proofs.Binary64.Unit
import StencilKit.Proofs.Decomposition.Segments
import StencilKit.Region.Silhouette

namespace StencilKit

variable {α : Type}

/-! ## Subpaths -/

/-- Whether a step is a quadratic piece. -/
def PathStep.isQuad : PathStep α → Bool
  | .quad _ _ => true
  | _ => false

/-- What the pen passes between two moves or closings. -/
structure Subpath (α : Type) where
  /-- Where the pen is left by the subpath before, if this one does not begin with a move. -/
  from? : Option (Point α)
  /-- The points that its own steps name. -/
  points : List (Point α)
  closes : Bool

namespace Subpath

/-- All points that the pen passes. -/
def trail (s : Subpath α) : List (Point α) := s.from?.toList ++ s.points

/-- Whether anything is drawn. A single point is closed by a line only if it differs from itself. -/
def draws [BEq α] (s : Subpath α) : Bool :=
  decide (2 ≤ s.trail.length) || s.closes && s.trail.any fun p => !(p == p)

/-- The points of a subpath that draws which its polygon does not have: where it goes on from, and a point that
is alone. -/
def missed [BEq α] (s : Subpath α) : List (Point α) :=
  if s.draws then s.from?.toList ++ (if s.points.length < 2 then s.points else []) else []

/-- What a subpath draws goes through its polygon's points, and through those that are missed. -/
theorem draws_and_mem_trail_iff [BEq α] (s : Subpath α) (p : Point α) :
    s.draws = true ∧ p ∈ s.trail ↔ 2 ≤ s.points.length ∧ p ∈ s.points ∨ p ∈ s.missed := by
  by_cases hdraws : s.draws = true
  · rw [and_iff_right hdraws, missed, if_pos hdraws, trail, List.mem_append, List.mem_append]
    by_cases hshort : s.points.length < 2
    · have hnone : ¬ (2 ≤ s.points.length ∧ p ∈ s.points) := fun h => Nat.not_le.2 hshort h.1
      rw [if_pos hshort, or_iff_right hnone]
    · rw [if_neg hshort, and_iff_right (Nat.not_lt.1 hshort), or_comm]
      simp
  · have hshort : ¬ 2 ≤ s.points.length := by
      intro hlong
      refine hdraws ?_
      have htrail : 2 ≤ s.trail.length := by
        rw [trail, List.length_append]
        exact Nat.le_add_left_of_le hlong
      rw [draws, decide_eq_true htrail, Bool.true_or]
    simp [hdraws, hshort, missed]

/-- A subpath that begins with a move misses nothing. -/
theorem missed_eq_nil [BEq α] {s : Subpath α} (hfrom : s.from? = none) (hpoints : ∀ p ∈ s.points, (p == p) = true) :
    s.missed = [] := by
  unfold missed
  split
  · rename_i hdraws
    have hlong : ¬ s.points.length < 2 := by
      simp only [draws, trail, hfrom, Option.toList_none, List.nil_append, Bool.or_eq_true, decide_eq_true_eq,
        Bool.and_eq_true, List.any_eq_true] at hdraws
      rcases hdraws with hlong | ⟨-, p, hp, hne⟩
      · exact Nat.not_lt.2 hlong
      · rw [hpoints p hp] at hne
        cases hne
    rw [hfrom, if_neg hlong]
    rfl
  · rfl

end Subpath

/-- The subpaths of the rest of a path, after the given points of the current one. -/
def Path.subpathsFrom (from? : Option (Point α)) (points : List (Point α)) : Path α → List (Subpath α)
  | [] => [⟨from?, points, false⟩]
  | .move p :: rest => ⟨from?, points, false⟩ :: subpathsFrom none [p] rest
  | .line p :: rest | .quad _ p :: rest => subpathsFrom from? (points ++ [p]) rest
  | .close :: rest => ⟨from?, points, true⟩ :: subpathsFrom (from?.toList ++ points).head? [] rest

/-- The subpaths of a path. -/
def Path.subpaths (path : Path α) : List (Subpath α) := path.subpathsFrom none []

/-- The subpaths of the paths of a stencil. -/
def Stencil.subpaths (s : Stencil α) : List (Subpath α) := s.paths.flatMap Path.subpaths

/-- Whether a stencil has no quadratic pieces. -/
def Stencil.isStraight (s : Stencil α) : Bool := s.paths.all fun path => path.all fun step => !step.isQuad

theorem Stencil.isQuad_of_isStraight {s : Stencil α} (h : s.isStraight = true) :
    ∀ path ∈ s.paths, ∀ step ∈ path, step.isQuad = false := by
  simpa [isStraight] using h

/-! ## The edges of a path -/

namespace Run

variable [Scalar α]

/-- The points of the edges that are drawn of the rest of a path. -/
def drawnPoints (pen : Pen α) (path : Path α) : List (Point α) := (drawAll pen path.runs).flatMap Prod.snd

theorem drawnPoints_move (pen : Pen α) (p : Point α) (path : Path α) :
    drawnPoints pen (.move p :: path) = drawnPoints ⟨some p, some p⟩ path := rfl

/-- A line that the pen is put down by. -/
theorem drawnPoints_line_up (start? : Option (Point α)) (p : Point α) (path : Path α) :
    drawnPoints ⟨none, start?⟩ (.line p :: path) = drawnPoints ⟨some p, some p⟩ path := by
  unfold drawnPoints
  rw [Path.runs]
  split
  · rename_i q more rs hruns
    rw [hruns]
    rfl
  · rfl

/-- A line from where the pen is. Lines in a row are one edge, which has the points of each. -/
theorem mem_drawnPoints_line {a p x : Point α} {start? : Option (Point α)} {path : Path α} :
    x ∈ drawnPoints ⟨some a, start?⟩ (.line p :: path) ↔
      x = a ∨ x = p ∨ x ∈ drawnPoints ⟨some p, start?⟩ path := by
  unfold drawnPoints
  rw [Path.runs]
  split
  · rename_i q more rs hruns
    rw [hruns]
    have hpen : (p :: q :: more).getLast? = (q :: more).getLast? := List.getLast?_cons_cons
    simp only [drawAll, draw, hpen, Option.toList_some, List.singleton_append, List.flatMap_cons, List.mem_append,
      List.mem_cons]
    tauto
  · simp only [drawAll, draw, Option.toList_some, List.singleton_append, List.flatMap_cons, List.mem_append,
      List.mem_cons, List.not_mem_nil, or_false, or_assoc, List.getLast?_singleton]

theorem drawnPoints_close (pen : Pen α) (path : Path α) :
    drawnPoints pen (.close :: path) =
      (draw pen .close).1.toList.flatMap Prod.snd ++ drawnPoints ⟨pen.start?, pen.start?⟩ path := by
  have hafter : (draw pen .close).2 = ⟨pen.start?, pen.start?⟩ := by
    obtain ⟨at?, start?⟩ := pen
    cases at? <;> cases start? <;> rfl
  unfold drawnPoints
  rw [Path.runs, drawAll, List.flatMap_append, hafter]

end Run

namespace Subpath

/-- The pen on its way along a subpath. -/
def pen (trail : List (Point α)) : Pen α := ⟨trail.getLast?, trail.head?⟩

/-- After closing the pen is where the subpath began. -/
theorem pen_head (trail : List (Point α)) : pen (trail.head?.toList ++ []) = ⟨trail.head?, trail.head?⟩ := by
  cases trail <;> rfl

theorem not_two_le_head {trail : List (Point α)} {P : Prop} : ¬ (2 ≤ (trail.head?.toList ++ []).length ∧ P) := by
  cases trail <;> simp

variable [Scalar α]

/-- A line adds its end to the points that have been drawn, and the point before it. -/
theorem mem_line_iff {trail : List (Point α)} {p x : Point α} {path : Path α} :
    x ∈ Run.drawnPoints (pen trail) (.line p :: path) ∨ 2 ≤ trail.length ∧ x ∈ trail ↔
      x ∈ Run.drawnPoints (pen (trail ++ [p])) path ∨ 2 ≤ (trail ++ [p]).length ∧ x ∈ trail ++ [p] := by
  rcases List.eq_nil_or_concat trail with rfl | ⟨before, a, rfl⟩
  · simp [pen, Run.drawnPoints_line_up]
  · rw [List.concat_eq_append]
    have hpen : pen (before ++ [a]) = ⟨some a, (before ++ [a]).head?⟩ := by simp [pen]
    have hpen' : pen (before ++ [a] ++ [p]) = ⟨some p, (before ++ [a]).head?⟩ := by
      rw [pen, List.getLast?_append, List.getLast?_singleton, List.head?_append_of_ne_nil _ (by simp)]
      rfl
    rw [hpen, hpen', Run.mem_drawnPoints_line]
    cases before with
    | nil => simp; tauto
    | cons b before => simp; tauto

/-- A line that closes a subpath joins points of it. -/
theorem mem_of_mem_close {trail : List (Point α)} {x : Point α}
    (hx : x ∈ (Run.close.draw (pen trail)).1.toList.flatMap Prod.snd) : x ∈ trail := by
  cases hstart : trail.head? with
  | none =>
    rw [List.head?_eq_none_iff.1 hstart] at hx
    cases hx
  | some start =>
    have hne : trail ≠ [] := List.ne_nil_of_mem (List.mem_of_mem_head? hstart)
    obtain ⟨last, hlast⟩ := Option.isSome_iff_exists.1 (List.getLast?_isSome.2 hne)
    simp only [pen, hstart, hlast, Run.draw] at hx
    split at hx
    · cases hx
    · have hends : x = last ∨ x = start := by simpa using hx
      rcases hends with rfl | rfl
      · exact List.mem_of_getLast? hlast
      · exact List.mem_of_mem_head? hstart

/-- A closed subpath that draws has drawn its points before, or is drawn by closing it. -/
theorem mem_close_iff {from? : Option (Point α)} {points : List (Point α)} {x : Point α} :
    (x ∈ (Run.close.draw (pen (from?.toList ++ points))).1.toList.flatMap Prod.snd ∨
        2 ≤ (from?.toList ++ points).length ∧ x ∈ from?.toList ++ points) ↔
      draws ⟨from?, points, true⟩ = true ∧ x ∈ from?.toList ++ points := by
  have hdraws : draws ⟨from?, points, true⟩ =
      (decide (2 ≤ (from?.toList ++ points).length) || (from?.toList ++ points).any fun p => !(p == p)) := rfl
  rw [hdraws]
  generalize from?.toList ++ points = trail
  by_cases hlong : 2 ≤ trail.length
  · simp only [hlong, decide_true, Bool.true_or, true_and]
    exact ⟨fun h => h.elim mem_of_mem_close id, .inr⟩
  · match trail with
    | [] => simp [pen, Run.draw]
    | [p] => cases hp : p == p <;> simp [pen, Run.draw, hp]
    | _ :: _ :: _ => simp at hlong

end Subpath

namespace Path

variable [Scalar α]

/-- **The edges of a path go through the points of its subpaths**, of those that draw anything. The pen is
followed from within a subpath, some points of which have been drawn already. -/
theorem mem_drawnPoints_iff {path : Path α} (hpath : ∀ step ∈ path, step.isQuad = false) (from? : Option (Point α))
    (points : List (Point α)) (x : Point α) :
    (x ∈ Run.drawnPoints (Subpath.pen (from?.toList ++ points)) path ∨
        2 ≤ (from?.toList ++ points).length ∧ x ∈ from?.toList ++ points) ↔
      ∃ s ∈ path.subpathsFrom from? points, s.draws = true ∧ x ∈ s.trail := by
  induction path generalizing from? points with
  | nil => simp [Run.drawnPoints, runs, Run.drawAll, subpathsFrom, Subpath.draws, Subpath.trail]
  | cons step path ih =>
    obtain ⟨hstep, hleft⟩ := List.forall_mem_cons.1 hpath
    cases step with
    | quad control stop => cases hstep
    | move p =>
      have hrest := ih hleft none [p]
      have hshort : ¬ (2 ≤ (Option.toList none ++ [p]).length ∧ x ∈ Option.toList none ++ [p]) :=
        fun h => by simp at h
      rw [or_iff_left hshort] at hrest
      rw [Run.drawnPoints_move, subpathsFrom, List.exists_mem_cons_iff, ← hrest, or_comm]
      simp [Subpath.pen, Subpath.draws, Subpath.trail]
    | line p =>
      rw [subpathsFrom, ← ih hleft, ← List.append_assoc]
      exact Subpath.mem_line_iff
    | close =>
      have hrest := ih hleft (from?.toList ++ points).head? []
      rw [Subpath.pen_head, or_iff_left Subpath.not_two_le_head] at hrest
      rw [Run.drawnPoints_close, subpathsFrom, List.mem_append, List.exists_mem_cons_iff, ← hrest, or_right_comm,
        Subpath.mem_close_iff]
      rfl

end Path

/-! ## The polygons of a path -/

namespace Silhouette

variable [Scalar α]

/-- **The polygons of a path have the points that its subpaths name**, of those that name two. -/
theorem polygonsFrom_eq (scale : Point α) (n : Nat) {path : Path α} (hpath : ∀ step ∈ path, step.isQuad = false)
    (from? : Option (Point α)) (points : List (Point α)) :
    polygonsFrom scale n (points.map (· * scale)) path =
      (path.subpathsFrom from? points).flatMap fun s => finish (s.points.map (· * scale)) := by
  induction path generalizing from? points with
  | nil => simp [polygonsFrom, Path.subpathsFrom]
  | cons step path ih =>
    obtain ⟨hstep, hleft⟩ := List.forall_mem_cons.1 hpath
    cases step with
    | quad control stop => cases hstep
    | move p => rw [polygonsFrom, Path.subpathsFrom, List.flatMap_cons, ← ih hleft none [p]]; rfl
    | line p =>
      rw [polygonsFrom, Path.subpathsFrom, ← ih hleft from? (points ++ [p]), List.map_append]
      rfl
    | close => rw [polygonsFrom, Path.subpathsFrom, List.flatMap_cons, ← ih hleft _ []]; rfl

/-- The vertices of the polygons. -/
def vertices (o : Silhouette α) : List (Point α) :=
  o.flatMap fun
    | .polygon ps => ps
    | _ => []

theorem vertices_ofStencil (s : Stencil α) (size : Point α) (n : Nat) :
    (ofStencil s size n).vertices = s.paths.flatMap fun path => (polygonsFrom (s.scaleTo size) n [] path).flatten := by
  rw [s.paths_eq, ofStencil, vertices, List.flatMap_assoc]
  induction s.foreground with
  | nil => rfl
  | cons node nodes ih =>
    rw [List.flatMap_cons, ih]
    cases node with
    | path p => simp [ofNode, Node.path?, List.flatMap_map]
    | _ => rfl

/-- The vertices of a stencil without curves. -/
theorem mem_vertices_iff {s : Stencil α} (hstraight : s.isStraight = true) (size : Point α) (n : Nat) {x : Point α} :
    x ∈ (ofStencil s size n).vertices ↔
      ∃ sub ∈ s.subpaths, 2 ≤ sub.points.length ∧ ∃ p ∈ sub.points, p * s.scaleTo size = x := by
  have hpolygons : ∀ path ∈ s.paths, (polygonsFrom (s.scaleTo size) n [] path).flatten =
      path.subpaths.flatMap fun sub => (finish (sub.points.map (· * s.scaleTo size))).flatten := by
    intro path hpath
    have h := polygonsFrom_eq (s.scaleTo size) n (s.isQuad_of_isStraight hstraight path hpath) none []
    rw [List.map_nil] at h
    rw [h, List.flatMap_def, List.flatten_flatten, List.map_map, ← List.flatMap_def]
    rfl
  rw [vertices_ofStencil, List.flatMap_congr hpolygons, ← List.flatMap_assoc, List.mem_flatMap, Stencil.subpaths]
  refine exists_congr fun sub => and_congr_right fun _ => ?_
  by_cases hlong : sub.points.length < 2
  · simp [finish, hlong]
  · simp [finish, hlong, Nat.not_lt.1 hlong]

end Silhouette

/-! ## Edges and vertices -/

/-- The points of the edges among the primitives. -/
def Parts.points (parts : Parts α) : List (Point α) := parts.edges.flatMap Edge.points

/-- The points that a stencil without curves is drawn through and that are no vertices of their subpath's
polygon. -/
def Stencil.missed [BEq α] (s : Stencil α) : List (Point α) := s.subpaths.flatMap Subpath.missed

/-- The points of a stencil without curves. -/
theorem Stencil.mem_points_decompose_iff [Scalar α] {s : Stencil α} (hstraight : s.isStraight = true)
    (options : DecomposeOptions α) (b : Box α) {x : Point α} : x ∈ (s.decompose options b).points ↔
      ∃ sub ∈ s.subpaths, sub.draws = true ∧ ∃ p ∈ sub.trail, (Placement.of s b).point p = x := by
  have hpoints : (s.decompose options b).points =
      (s.paths.flatMap (Run.drawnPoints (Subpath.pen []))).map (Placement.of s b).point := by
    have hdrawn := congrArg (List.flatMap Prod.snd) (s.edges_decompose options b)
    rw [List.flatMap_map, List.flatMap_assoc] at hdrawn
    refine hdrawn.trans ?_
    simp only [List.map_flatMap, Run.drawnPoints, List.flatMap_map]
    rfl
  have hmem : ∀ p, p ∈ s.paths.flatMap (Run.drawnPoints (Subpath.pen [])) ↔
      ∃ sub ∈ s.subpaths, sub.draws = true ∧ p ∈ sub.trail := by
    intro p
    rw [List.mem_flatMap]
    have hpath : ∀ path ∈ s.paths, (p ∈ Run.drawnPoints (Subpath.pen []) path ↔
        ∃ sub ∈ path.subpaths, sub.draws = true ∧ p ∈ sub.trail) := by
      intro path hpath
      rw [Path.subpaths, ← Path.mem_drawnPoints_iff (s.isQuad_of_isStraight hstraight path hpath)]
      simp
    constructor
    · rintro ⟨path, hmem, hp⟩
      obtain ⟨sub, hsub, hdrawn⟩ := (hpath path hmem).1 hp
      exact ⟨sub, List.mem_flatMap.2 ⟨path, hmem, hsub⟩, hdrawn⟩
    · rintro ⟨sub, hsub, hdrawn⟩
      obtain ⟨path, hmem, hsub⟩ := List.mem_flatMap.1 hsub
      exact ⟨path, hmem, (hpath path hmem).2 ⟨sub, hsub, hdrawn⟩⟩
  rw [hpoints, List.mem_map]
  simp only [hmem]
  constructor
  · rintro ⟨p, ⟨sub, hsub, hdraws, hp⟩, rfl⟩
    exact ⟨sub, hsub, hdraws, p, hp, rfl⟩
  · rintro ⟨sub, hsub, hdraws, p, hp, rfl⟩
    exact ⟨p, ⟨sub, hsub, hdraws, hp⟩, rfl⟩

open Binary64 (plain)

/-- Where a drawing is neither moved nor scaled, a point stays but for the signs of zeros. -/
theorem Placement.map_plain_point (p : Point Float) :
    ((⟨0, 1⟩ : Placement Float).point p).map plain = p.map plain := by
  have hcoordinate : ∀ x : Float, plain (0.0 + x * 1.0) = plain x := fun x => by
    rw [Binary64.mul_one, Binary64.zero_add]
  show (⟨plain (0.0 + p.x * 1.0), plain (0.0 + p.y * 1.0)⟩ : Point Float) = ⟨plain p.x, plain p.y⟩
  rw [hcoordinate, hcoordinate]

theorem Point.mul_one (p : Point Float) : p * 1 = p := by
  show (⟨p.x * 1.0, p.y * 1.0⟩ : Point Float) = p
  rw [Binary64.mul_one, Binary64.mul_one]

/-- **The points of a drawing and the vertices of its silhouette.** A stencil without curves is drawn without
moving or scaling it. Then every vertex of a polygon is a point of an edge; and a point of an edge that is no
vertex is one that a subpath misses: where it goes on from after closing, or a point that is then alone. So the
two go through the same points just when all points that are missed are vertices by another subpath; a subpath
that begins with a move and names no NaN misses none (`Subpath.missed_eq_nil`). -/
theorem points_eq_vertices_iff {s : Stencil Float} {b : Box Float} (hplace : Placement.of s b = ⟨0, 1⟩)
    (hstraight : s.isStraight = true) (options : DecomposeOptions Float) (n : Nat) :
    (∀ x, x ∈ (s.decompose options b).points.map (Point.map plain) ↔
      x ∈ (Silhouette.ofStencil s b.size n).vertices.map (Point.map plain) ∨ x ∈ s.missed.map (Point.map plain)) ∧
    ((∀ x, x ∈ (Silhouette.ofStencil s b.size n).vertices.map (Point.map plain) ↔
        x ∈ (s.decompose options b).points.map (Point.map plain)) ↔
      ∀ x ∈ s.missed.map (Point.map plain),
        x ∈ (Silhouette.ofStencil s b.size n).vertices.map (Point.map plain)) := by
  have hscale : s.scaleTo b.size = 1 := congrArg Placement.scale hplace
  have hvertices : ∀ p, p ∈ (Silhouette.ofStencil s b.size n).vertices ↔
      ∃ sub ∈ s.subpaths, 2 ≤ sub.points.length ∧ p ∈ sub.points := by
    intro p
    rw [Silhouette.mem_vertices_iff hstraight]
    simp only [hscale, Point.mul_one, exists_eq_right]
  have hunion : ∀ x, x ∈ (s.decompose options b).points.map (Point.map plain) ↔
      x ∈ (Silhouette.ofStencil s b.size n).vertices.map (Point.map plain) ∨ x ∈ s.missed.map (Point.map plain) := by
    intro x
    simp only [List.mem_map, Stencil.mem_points_decompose_iff hstraight, hplace, hvertices, Stencil.missed,
      List.mem_flatMap]
    constructor
    · rintro ⟨_, ⟨sub, hsub, hdraws, p, hp, rfl⟩, rfl⟩
      rw [Placement.map_plain_point]
      rcases (sub.draws_and_mem_trail_iff p).1 ⟨hdraws, hp⟩ with hpoint | hmissed
      · exact .inl ⟨p, ⟨sub, hsub, hpoint⟩, rfl⟩
      · exact .inr ⟨p, ⟨sub, hsub, hmissed⟩, rfl⟩
    · rintro (⟨p, ⟨sub, hsub, hp⟩, rfl⟩ | ⟨p, ⟨sub, hsub, hp⟩, rfl⟩)
      · obtain ⟨hdraws, hp⟩ := (sub.draws_and_mem_trail_iff p).2 (.inl hp)
        exact ⟨_, ⟨sub, hsub, hdraws, p, hp, rfl⟩, Placement.map_plain_point p⟩
      · obtain ⟨hdraws, hp⟩ := (sub.draws_and_mem_trail_iff p).2 (.inr hp)
        exact ⟨_, ⟨sub, hsub, hdraws, p, hp, rfl⟩, Placement.map_plain_point p⟩
  exact ⟨hunion, fun h x hx => (h x).2 ((hunion x).2 (.inr hx)),
    fun h x => ⟨fun hx => (hunion x).2 (.inl hx), fun hx => ((hunion x).1 hx).elim id (h x)⟩⟩

/-- A triangle, and a line that goes on from it after closing it. -/
def resumed : Stencil Float where
  w := 8
  h := 8
  foreground := [.path [.move ⟨0, 0⟩, .line ⟨4, 0⟩, .line ⟨4, 4⟩, .close, .line ⟨6, 2⟩, .close]]

theorem points_eq_vertices_iff_resumed :
    Placement.of resumed ⟨0, 0, 8, 8⟩ = ⟨0, 1⟩ ∧ resumed.isStraight = true ∧
      ∀ x, x ∈ (resumed.decompose .standard ⟨0, 0, 8, 8⟩).points.map (Point.map plain) ↔
        x ∈ (Silhouette.ofStencil resumed ⟨8, 8⟩ 8).vertices.map (Point.map plain) ∨
          x ∈ resumed.missed.map (Point.map plain) := by
  have hplace : Placement.of resumed ⟨0, 0, 8, 8⟩ = ⟨0, 1⟩ := Placement.of_ownSize (by decide) (by decide)
  have hstraight : resumed.isStraight = true := by decide
  exact ⟨hplace, hstraight, (points_eq_vertices_iff hplace hstraight .standard 8).1⟩

/-- **A line after closing is drawn and has no polygon**, though every subpath that draws is closed. -/
theorem not_vertex_of_resumed :
    resumed.isStraight = true ∧ (∀ sub ∈ resumed.subpaths, sub.draws = true → sub.closes = true) ∧
      Placement.of resumed ⟨0, 0, 8, 8⟩ = ⟨0, 1⟩ ∧
      ¬ ∀ x, x ∈ (Silhouette.ofStencil resumed ⟨8, 8⟩ 8).vertices.map (Point.map plain) ↔
        x ∈ (resumed.decompose .standard ⟨0, 0, 8, 8⟩).points.map (Point.map plain) := by
  refine ⟨by decide, by decide, Placement.of_ownSize (by decide) (by decide), fun h => ?_⟩
  have hdrawn : ((resumed.decompose .standard ⟨0, 0, 8, 8⟩).points.map (Point.map plain)).any (· == ⟨6, 2⟩) = true := by
    decide +kernel
  have hmissing : ((Silhouette.ofStencil resumed ⟨8, 8⟩ 8).vertices.map (Point.map plain)).all (· != ⟨6, 2⟩) =
      true := by
    decide +kernel
  obtain ⟨p, hp, hbeq⟩ := List.any_eq_true.1 hdrawn
  have hne := List.all_eq_true.1 hmissing p ((h p).2 hp)
  rw [bne, hbeq] at hne
  cases hne

end StencilKit
