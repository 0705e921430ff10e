/-
Stencils: a size, the places at which other drawings attach, and what is drawn.

Attachment points are given in fractions of the size, everything else in the stencil's own
coordinates. Beside the points that were sampled from a marker stands what they were sampled from,
so that the marker can be recovered.
-/
import StencilKit.Drawing.Primitive
import StencilKit.Stencil.Path

namespace StencilKit

/-- A named attachment point, in fractions of the stencil's width and height. -/
structure Anchor (α : Type) where
  x : α
  y : α
  name : String
  deriving BEq, DecidableEq

/-- The points of an edge that anchors were sampled along. -/
structure EdgeTrace (α : Type) where
  name : String
  kind : EdgeKind
  /-- Whether the edge is a primitive of the stencil itself and not a marker. -/
  own : Bool
  points : List (Point α)
  deriving BEq, DecidableEq

/-- The shape and box of a region that anchors were sampled from. -/
structure RegionTrace (α : Type) where
  name : String
  kind : RegionKind
  /-- Whether the region is a primitive of the stencil itself and not a marker. -/
  own : Bool
  shape : ShapeRef
  box : Box α
  deriving BEq, DecidableEq

/-- An entry of the list of connections. -/
inductive Connection (α : Type) where
  | anchor (anchor : Anchor α)
  | edge (trace : EdgeTrace α)
  | region (trace : RegionTrace α)
  /-- An entry of unknown meaning. -/
  | unknown (tag : String)
  deriving BEq, DecidableEq

/-- An entry of the foreground: something drawn, or how to paint what was drawn last. -/
inductive Node (α : Type) where
  | path (path : Path α)
  | rect (box : Box α)
  | ellipse (box : Box α)
  | reference (name : String) (box : Box α)
  | image (src : String) (box : Box α)
  | dashed (on : Bool)
  | dashPattern (pattern : String)
  | strokeWidth (width : α)
  | strokeColor (color : String)
  | fillColor (color : String)
  | stroke
  | fillStroke
  /-- An entry of unknown meaning. -/
  | unknown (tag : String)
  deriving BEq, DecidableEq

/-- Whether an entry draws something. -/
def Node.draws {α : Type} : Node α → Bool
  | path _ | rect _ | ellipse _ | reference _ _ | image _ _ => true
  | _ => false

/-- A stencil. -/
structure Stencil (α : Type) where
  w : α
  h : α
  /-- Whether the ratio of width and height is to be kept. -/
  fixed : Bool := true
  strokeWidth : String := "inherit"
  connections : List (Connection α) := []
  foreground : List (Node α) := []
  deriving BEq, DecidableEq

namespace Stencil

variable {α : Type}

def anchors (s : Stencil α) : List (Anchor α) :=
  s.connections.filterMap fun
    | .anchor a => some a
    | _ => none

def paths (s : Stencil α) : List (Path α) :=
  s.foreground.filterMap fun
    | .path p => some p
    | _ => none

variable [Scalar α]

/-- A stencil of unit size that draws a single thing. -/
def single (node : Node α) : Stencil α := { w := 1, h := 1, foreground := [node] }

/-- How lengths of the stencil scale when it is drawn at the given size; a stencil without area is
drawn as it is. -/
def scaleTo (s : Stencil α) (size : Point α) : Point α :=
  if 0 < s.w ∧ 0 < s.h then size / ⟨s.w, s.h⟩ else 1

end Stencil

end StencilKit
