/-
Chains: edges joined end to end into one path.

The walk starts at an end that no other edge shares. After each edge it goes on with the first of
the remaining edges that touches the end it has reached, backwards if only its last point does. Two
ends touch when they are at most a tolerance apart.
-/
import StencilKit.Failure
import StencilKit.Stencil.Path

namespace StencilKit

/-- An edge and the direction in which it is walked. -/
structure Link (α : Type) where
  edge : Edge α
  reversed : Bool
  deriving BEq, DecidableEq

namespace Link

variable {α : Type}

def points (l : Link α) : List (Point α) := if l.reversed then l.edge.points.reverse else l.edge.points

def start (l : Link α) : Point α := if l.reversed then l.edge.route.target else l.edge.route.source

def stop (l : Link α) : Point α := if l.reversed then l.edge.route.source else l.edge.route.target

end Link

/-- Every member of a list with the others, all in their order. -/
def eachWithOthers {β : Type} : List β → List (β × List β)
  | [] => []
  | b :: bs => (b, bs) :: (eachWithOthers bs).map fun (c, others) => (c, b :: others)

namespace Chain

variable {α : Type} [Scalar α]

/-- Whether an edge has an end at a point. -/
def touches (tolerance : α) (p : Point α) (e : Edge α) : Bool :=
  e.route.source.isNear tolerance p || e.route.target.isNear tolerance p

/-- The first member with the least point. -/
def lowest? {β : Type} (key : β → Point α) : List β → Option β
  | [] => none
  | b :: bs =>
    match lowest? key bs with
    | none => some b
    | some c => if (key c).order (key b) = .lt then some c else some b

/-- Where the walk begins, and the edges that remain: at the lowest first point that no other edge
touches; failing that, at the lowest such last point, backwards; failing that, at the lowest first
point of all. -/
def start? (tolerance : α) (edges : List (Edge α)) : Option (Link α × List (Edge α)) :=
  let all := eachWithOthers edges
  let free (stop : Edge α → Point α) := all.filter fun (e, others) => !others.any (touches tolerance (stop e))
  let forward := lowest? (fun (e, _) => e.route.source) (free (·.route.source))
  let backward := lowest? (fun (e, _) => e.route.target) (free (·.route.target))
  let any := lowest? (fun (e, _) => e.route.source) all
  match forward, backward, any with
  | some (e, others), _, _ => some (⟨e, false⟩, others)
  | none, some (e, others), _ => some (⟨e, true⟩, others)
  | none, none, some (e, others) => some (⟨e, false⟩, others)
  | none, none, none => none

/-- The first edge that touches a point, and the others. -/
def takeTouching? (tolerance : α) (p : Point α) : List (Edge α) → Option (Edge α × List (Edge α))
  | [] => none
  | e :: es =>
    if touches tolerance p e then some (e, es)
    else (takeTouching? tolerance p es).map fun (f, others) => (f, e :: others)

theorem takeTouching?_length {tolerance : α} {p : Point α} {es others : List (Edge α)} {e : Edge α}
    (h : takeTouching? tolerance p es = some (e, others)) : others.length + 1 = es.length := by
  induction es generalizing e others with
  | nil => simp [takeTouching?] at h
  | cons f es ih =>
    simp only [takeTouching?] at h
    split at h
    · simp only [Option.some.injEq, Prod.mk.injEq] at h; simp [h.2]
    · simp only [Option.map_eq_some_iff, Prod.mk.injEq, Prod.exists] at h
      obtain ⟨_, _, h₁, _, h₂⟩ := h
      simp [← h₂, ih h₁]

/-- The links from `link` on through all of `remaining`; `linked` edges are joined so far. -/
def walk (tolerance : α) (linked : Nat) (link : Link α) (remaining : List (Edge α)) :
    Except (Failure α) (List (Link α)) :=
  if remaining.isEmpty then .ok [link]
  else match h : takeTouching? tolerance link.stop remaining with
    | none => .error (.disconnected linked remaining.length link.stop)
    | some (e, others) =>
      have _shorter := takeTouching?_length h
      (walk tolerance (linked + 1) ⟨e, !e.route.source.isNear tolerance link.stop⟩ others).map (link :: ·)
termination_by remaining.length

/-- All edges in the order and direction in which they are joined. -/
def links (tolerance : α) (edges : List (Edge α)) : Except (Failure α) (List (Link α)) :=
  match start? tolerance edges with
  | none => .error .emptySelection
  | some (link, others) => walk tolerance 1 link others

/-- The steps along a link, relative to an origin, once the pen is at its start. -/
def linkSteps (origin : Point α) (l : Link α) : Path α :=
  Path.along l.edge.kind (l.points.map (· - origin))

/-- The path along links, relative to an origin. -/
def pathOf (origin : Point α) : List (Link α) → Path α
  | [] => []
  | l :: ls => .move (l.start - origin) :: (l :: ls).flatMap (linkSteps origin)

/-- One path through all edges, relative to an origin. -/
def path (tolerance : α) (origin : Point α) (edges : List (Edge α)) : Except (Failure α) (Path α) :=
  (links tolerance edges).map (pathOf origin)

end Chain

end StencilKit
