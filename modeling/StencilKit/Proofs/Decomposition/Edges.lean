/-
The edges that a stencil is taken apart into.

Only paths give edges, and giving outlines back neither adds nor moves one: whatever a stencil's
connections tell, its edges are those of its paths, in order, where they come to lie (`edges_decompose`).
-/
import StencilKit.Proofs.Decomposition.Outlines
import StencilKit.Proofs.Decomposition.Strokes

namespace StencilKit

variable {α : Type}

/-- The kind and the points of an edge. -/
def Edge.drawn (e : Edge α) : EdgeKind × List (Point α) := (e.kind, e.points)

/-- The path in an entry of a foreground. -/
def Node.path? : Node α → Option (Path α)
  | path p => some p
  | _ => none

theorem Stencil.paths_eq (s : Stencil α) : s.paths = s.foreground.filterMap Node.path? := by
  refine List.filterMap_congr fun n _ => ?_
  cases n <;> rfl

theorem Stencil.paths_map {β : Type} (s : Stencil α) (f : α → β) :
    (s.map f).paths = s.paths.map (List.map (PathStep.map f)) := by
  have hpath : ∀ n : Node α, (n.map f).path? = n.path?.map (List.map (PathStep.map f)) := fun n => by cases n <;> rfl
  rw [paths_eq, paths_eq, map, List.filterMap_map, List.map_filterMap]
  exact List.filterMap_congr fun n _ => hpath n

namespace Primitive

theorem edge?_withOutline (p : Primitive α) : p.withOutline.edge? = p.edge? := by
  cases p <;> rfl

theorem edge?_mapStyle (p : Primitive α) (f : Style α → Style α) : (p.mapStyle f).edge? = p.edge? := by
  cases p <;> rfl

end Primitive

/-- The edges among the primitives. -/
def Parts.edges (parts : Parts α) : List (Edge α) := parts.primitives.filterMap Primitive.edge?

theorem Parts.edges_map {β : Type} (parts : Parts α) (f : α → β) : (parts.map f).edges = parts.edges.map (Edge.map f) := by
  have hedge : ∀ p : Primitive α, (p.map f).edge? = p.edge?.map (Edge.map f) := fun p => by cases p <;> rfl
  rw [edges, edges, map, List.filterMap_map, List.map_filterMap]
  exact List.filterMap_congr fun p _ => hedge p

theorem Parts.edges_claimOr [Scalar α] (parts : Parts α) (fits : Primitive α → Bool) (markers : List (Marker α))
    (c : Prop) [Decidable c] :
    (parts.claimOr (if c then Bench.claim? fits parts.primitives else none) markers).edges = parts.edges := by
  split
  · cases hclaim : Bench.claim? fits parts.primitives with
    | none => rfl
    | some ps =>
      obtain ⟨before, q, after, hps, -, -, rfl⟩ := changeFirst?_eq_some hclaim
      simp [claimOr, edges, hps, Primitive.edge?_withOutline, List.filterMap_cons]
  · rfl

variable [Scalar α]

/-- **Connections change no edge.** -/
theorem Bench.edges_foldl_connect (bench : Bench α) (cs : List (Connection α)) (parts : Parts α) :
    (cs.foldl bench.connect parts).edges = parts.edges := by
  induction cs generalizing parts with
  | nil => rfl
  | cons c cs ih =>
    rw [List.foldl_cons, ih]
    cases c with
    | anchor a => rfl
    | edge t =>
      rw [connect, edge_eq]
      exact parts.edges_claimOr _ _ _
    | region t =>
      rw [connect, region_eq]
      exact parts.edges_claimOr _ _ _
    | unknown tag => rfl

namespace Placement

variable (m : Placement α)

/-- Two points make an edge. -/
theorem exists_edge? (kind : EdgeKind) {ps : List (Point α)} (h : 2 ≤ ps.length) :
    ∃ e : Edge α, m.edge? kind ps = some (.edge e {} false []) ∧ e.drawn = (kind, ps.map m.point) := by
  match ps, h with
  | a :: b :: rest, _ =>
    have hroute : Route.ofPoints? ((a :: b :: rest).map m.point) = some _ := rfl
    exact ⟨⟨kind, _⟩, rfl, congrArg (Prod.mk kind) (Route.points_ofPoints? hroute)⟩

/-- What a path draws lies where the placement puts it. -/
theorem drawn_path (p : Path α) :
    ((m.drawn (.path p)).filterMap Primitive.edge?).map Edge.drawn = p.edges.map fun e => (e.1, e.2.map m.point) := by
  have hlong : ∀ e ∈ p.edges, 2 ≤ e.2.length := fun e => Path.two_le_length_of_mem_edges
  show ((p.edges.filterMap fun e => m.edge? e.1 e.2).filterMap Primitive.edge?).map Edge.drawn = _
  generalize p.edges = edges at hlong ⊢
  induction edges with
  | nil => rfl
  | cons e edges ih =>
    obtain ⟨he, hedges⟩ := List.forall_mem_cons.1 hlong
    obtain ⟨placed, hplaced, hdrawn⟩ := m.exists_edge? e.1 he
    simp only [List.filterMap_cons, hplaced, Primitive.edge?, List.map_cons, hdrawn, ih hedges]

/-- **The edges of a foreground are those of its paths.** -/
theorem drawn_primitives (nodes : List (Node α)) :
    ((m.primitives nodes).filterMap Primitive.edge?).map Edge.drawn =
      (nodes.filterMap Node.path?).flatMap fun p => p.edges.map fun e => (e.1, e.2.map m.point) := by
  induction nodes with
  | nil => rfl
  | cons n nodes ih =>
    rw [primitives]
    split
    · have hpainted : ∀ (ps : List (Primitive α)) (f : Style α → Style α),
          (ps.map (·.mapStyle f)).filterMap Primitive.edge? = ps.filterMap Primitive.edge? := by
        intro ps f
        rw [List.filterMap_map]
        exact List.filterMap_congr fun p _ => p.edge?_mapStyle f
      rw [List.filterMap_append, List.map_append, hpainted, ih]
      cases n with
      | path p => rw [m.drawn_path p]; rfl
      | _ => rfl
    · rename_i hn
      rw [ih]
      cases n <;> first | rfl | exact absurd rfl hn

end Placement

/-- **The edges of a stencil are those of its paths**, where they come to lie. -/
theorem Stencil.edges_decompose (s : Stencil α) (options : DecomposeOptions α) (b : Box α) :
    (s.decompose options b).edges.map Edge.drawn =
      s.paths.flatMap fun p => p.edges.map fun e => (e.1, e.2.map (Placement.of s b).point) := by
  rw [s.paths_eq, ← Placement.drawn_primitives]
  exact congrArg _ (Bench.edges_foldl_connect _ s.connections _)

theorem Stencil.edges_decompose_of_identity {s : Stencil α} {b : Box α} (h : ∀ p, (Placement.of s b).point p = p)
    (options : DecomposeOptions α) : (s.decompose options b).edges.map Edge.drawn = s.paths.flatMap Path.edges := by
  have hpoints : ∀ e : EdgeKind × List (Point α), (e.1, e.2.map (Placement.of s b).point) = e := by
    intro e
    rw [List.map_congr_left fun p _ => h p, List.map_id']
  rw [edges_decompose]
  simp only [hpoints, List.map_id']

end StencilKit
