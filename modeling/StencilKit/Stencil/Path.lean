/-
Paths: what a pen does, step by step, in a stencil's own coordinates; and the steps that draw an
edge once the pen is at its source.

A polyline's corner can be rounded: the pen stops short of the corner and goes on past it by a
quadratic piece whose control point is the corner.
-/
import StencilKit.Drawing.Edge
import StencilKit.Plane.Quadratic

namespace StencilKit

/-- One step of the pen. -/
inductive PathStep (α : Type) where
  | move (stop : Point α)
  | line (stop : Point α)
  | quad (control stop : Point α)
  | close
  deriving BEq, DecidableEq

/-- Where a step says that the pen is afterwards. -/
def PathStep.stop? {α : Type} : PathStep α → Option (Point α)
  | move p | line p | quad _ p => some p
  | close => none

/-- The steps of the pen in order. -/
abbrev Path (α : Type) := List (PathStep α)

namespace Path

variable {α : Type}

/-- The first point that a step names. -/
def first? (path : Path α) : Option (Point α) := path.findSome? PathStep.stop?

/-- The last point that a step names. -/
def last? (path : Path α) : Option (Point α) := path.reverse.findSome? PathStep.stop?

/-- Straight steps to all points but the first, where the pen is. -/
def straight (ps : List (Point α)) : Path α := ps.tail.map .line

variable [Scalar α]

/-- As `straight`, with rounded corners: the pen goes the fraction `blend` of the way to a corner,
and past the corner it leaves the same fraction of the way to go. -/
def rounded (blend : α) : List (Point α) → Path α
  | p :: q :: r :: rest =>
    .line (p.lerp q blend) :: .quad q (q.lerp r (1 - blend)) :: rounded blend (q :: r :: rest)
  | [_, q] => [.line q]
  | _ => []

/-- The pieces of the smooth curve through the points; a straight step if there are only two. -/
def smooth (ps : List (Point α)) : Path α :=
  if ps.length < 3 then straight ps else (Quadratic.smooth ps).map fun q => .quad q.control q.stop

/-- The steps along the points of an edge. -/
def along (kind : EdgeKind) (ps : List (Point α)) : Path α :=
  match kind with
  | .line => straight ps
  | .curve => smooth ps

/-- A path from the first point, with the steps that `draw` gives for all points. -/
def starting (draw : List (Point α) → Path α) (ps : List (Point α)) : Path α :=
  match ps with
  | [] => []
  | p :: _ => .move p :: draw ps

/-- The path of a polyline, with rounded corners if a blend is given. -/
def ofLine (blend? : Option α) (ps : List (Point α)) : Path α :=
  starting (match blend? with | none => straight | some blend => rounded blend) ps

/-- The path of a smooth curve. -/
def ofCurve (ps : List (Point α)) : Path α := starting smooth ps

end Path

end StencilKit
