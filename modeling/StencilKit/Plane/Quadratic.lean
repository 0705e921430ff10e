/-
Quadratic curves, and the smooth curve that a list of points stands for: the first and the last
point lie on the curve, the points between are control points, and between two consecutive control
points the curve passes through the point halfway.
-/
import StencilKit.Plane.Box

namespace StencilKit

/-- One quadratic piece of a curve. -/
structure Quadratic (α : Type) where
  start : Point α
  control : Point α
  stop : Point α
  deriving BEq, DecidableEq

namespace Quadratic

variable {α : Type} [Scalar α]

/-- The point of the curve at parameter `t`. -/
def point (q : Quadratic α) (t : α) : Point α :=
  let u := 1 - t
  q.start.scaled (u * u) + q.control.scaled (Scalar.two * u * t) + q.stop.scaled (t * t)

/-- The pieces from `start` through the given control points to the last point. -/
def smoothFrom : Point α → List (Point α) → List (Quadratic α)
  | start, [control, stop] => [⟨start, control, stop⟩]
  | start, control :: next :: p :: rest =>
      ⟨start, control, control.midway next⟩ :: smoothFrom (control.midway next) (next :: p :: rest)
  | _, _ => []

/-- The pieces of the smooth curve through a list of points; there are none below three points. -/
def smooth : List (Point α) → List (Quadratic α)
  | [] => []
  | start :: rest => smoothFrom start rest

/-- The end points of `n` straight pieces (at least one) that follow the curve. -/
def flatten (q : Quadratic α) (n : Nat) : List (Point α) :=
  let n := max n 1
  (List.range n).map fun i => q.point (Scalar.count (i + 1) / Scalar.count n)

end Quadratic

end StencilKit
