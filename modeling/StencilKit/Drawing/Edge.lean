/-
Edges: lines and curves from a source to a target, by way of the points between.
-/
import StencilKit.Plane.Extent

namespace StencilKit

/-- Whether the points of an edge are joined by straight segments or stand for a smooth curve. -/
inductive EdgeKind where
  | line
  | curve
  deriving DecidableEq, Repr

/-- At least two points in order. -/
structure Route (α : Type) where
  source : Point α
  bends : List (Point α)
  target : Point α
  deriving BEq, DecidableEq

namespace Route

variable {α : Type}

/-- The points in order. -/
def points (r : Route α) : List (Point α) := r.source :: r.bends ++ [r.target]

/-- The route through a list of points, which takes two. -/
def ofPoints? : List (Point α) → Option (Route α)
  | source :: p :: ps => some ⟨source, (p :: ps).dropLast, (p :: ps).getLast (List.cons_ne_nil p ps)⟩
  | _ => none

theorem points_ofPoints? {ps : List (Point α)} {r : Route α} (h : ofPoints? ps = some r) : r.points = ps := by
  match ps with
  | [] | [_] => simp [ofPoints?] at h
  | source :: p :: ps =>
    simp only [ofPoints?, Option.some.injEq] at h
    subst h
    simp only [points, List.cons_append]
    rw [List.dropLast_concat_getLast]

theorem ofPoints?_points (r : Route α) : ofPoints? r.points = some r := by
  obtain ⟨source, bends, target⟩ := r
  cases bends with
  | nil => simp [points, ofPoints?]
  | cons p ps =>
    simp only [points, ofPoints?, List.cons_append, Option.some.injEq, Route.mk.injEq, true_and]
    refine ⟨?_, ?_⟩
    · show (p :: ps ++ [target]).dropLast = p :: ps
      exact List.dropLast_concat
    · show (p :: ps ++ [target]).getLast _ = target
      exact List.getLast_concat

variable [Scalar α]

/-- The box around all points. -/
def bounds (r : Route α) : Box α := (Extent.ofPoints r.points).box?.getD .null

def moved (r : Route α) (d : Point α) : Route α := ⟨r.source + d, r.bends.map (· + d), r.target + d⟩

end Route

/-- A line or a curve. -/
structure Edge (α : Type) where
  kind : EdgeKind
  route : Route α
  deriving BEq, DecidableEq

namespace Edge

variable {α : Type}

def points (e : Edge α) : List (Point α) := e.route.points

variable [Scalar α]

def bounds (e : Edge α) : Box α := e.route.bounds

def moved (e : Edge α) (d : Point α) : Edge α := { e with route := e.route.moved d }

end Edge

end StencilKit
