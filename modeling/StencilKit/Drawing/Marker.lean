/-
Markers: what lets other drawings attach to a primitive.

A marker is a single spot, an edge, or a region of which either the outline or the whole area can be
attached to. It may carry a label.
-/
import StencilKit.Drawing.Edge
import StencilKit.Drawing.ShapeRef

namespace StencilKit

/-- Which part of a region is meant. -/
inductive RegionKind where
  | outline
  | area
  deriving DecidableEq, Repr

/-- Where a marker lets attach. -/
inductive Anchorage (α : Type) where
  | spot (box : Box α)
  | along (edge : Edge α)
  | region (kind : RegionKind) (shape : ShapeRef) (box : Box α)
  deriving BEq, DecidableEq

namespace Anchorage

variable {α : Type} [Scalar α]

def bounds : Anchorage α → Box α
  | spot box => box
  | along edge => edge.bounds
  | region _ _ box => box

def moved (d : Point α) : Anchorage α → Anchorage α
  | spot box => spot (box.moved d)
  | along edge => along (edge.moved d)
  | region kind shape box => region kind shape (box.moved d)

end Anchorage

/-- A place to attach to, with a label. -/
structure Marker (α : Type) where
  label : String
  anchorage : Anchorage α
  deriving BEq, DecidableEq

namespace Marker

variable {α : Type} [Scalar α]

def bounds (m : Marker α) : Box α := m.anchorage.bounds

def moved (m : Marker α) (d : Point α) : Marker α := { m with anchorage := m.anchorage.moved d }

end Marker

end StencilKit
