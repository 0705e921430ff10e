/-
Primitives: the things that a drawing is made of, and that a stencil is composed from.

The markers of an edge lie in the drawing plane like the edge itself; those of a box are relative to
the box's origin, and so they stay as they are when the box moves.
-/
import StencilKit.Drawing.Marker
import StencilKit.Drawing.Style

namespace StencilKit

/-- A thing that can be selected and composed. -/
inductive Primitive (α : Type) where
  /-- A line or a curve; `outline` says that it can be attached to all along. -/
  | edge (edge : Edge α) (style : Style α) (outline : Bool) (markers : List (Marker α))
  /-- A box drawn by a stencil; `outline` says that its outline can be attached to. -/
  | stencil (shape : ShapeRef) (box : Box α) (style : Style α) (outline : Bool) (markers : List (Marker α))
  | image (src : String) (box : Box α) (style : Style α) (markers : List (Marker α))
  /-- A label, which is never drawn into a stencil. -/
  | text (value : String) (box : Box α) (style : Style α)
  /-- Edges that are drawn as one path, end to end. -/
  | group (edges : List (Edge α)) (style : Style α)
  deriving BEq, DecidableEq

namespace Primitive

variable {α : Type}

def style : Primitive α → Style α
  | edge _ style _ _ | stencil _ _ style _ _ | image _ _ style _ | text _ _ style | group _ style => style

def mapStyle (f : Style α → Style α) : Primitive α → Primitive α
  | edge e style outline markers => edge e (f style) outline markers
  | stencil shape box style outline markers => stencil shape box (f style) outline markers
  | image src box style markers => image src box (f style) markers
  | text value box style => text value box (f style)
  | group edges style => group edges (f style)

def markers : Primitive α → List (Marker α)
  | edge _ _ _ markers | stencil _ _ _ _ markers | image _ _ _ markers => markers
  | text _ _ _ | group _ _ => []

/-- Whether its own outline can be attached to. -/
def isOutline : Primitive α → Bool
  | edge _ _ outline _ | stencil _ _ _ outline _ => outline
  | _ => false

/-- The same primitive with its own outline to attach to, where it can have one. -/
def withOutline : Primitive α → Primitive α
  | edge e style _ markers => edge e style true markers
  | stencil shape box style _ markers => stencil shape box style true markers
  | p => p

/-- The edge of a primitive that is a line or a curve. -/
def edge? : Primitive α → Option (Edge α)
  | edge e _ _ _ => some e
  | _ => none

def isText : Primitive α → Bool
  | text _ _ _ => true
  | _ => false

/-- The members' edges as one group, in the style of the first member; none unless all are edges. -/
def ofMembers? (members : List (Primitive α)) : Option (Primitive α) :=
  (members.mapM edge?).map fun edges => group edges ((members.head?.map style).getD {})

variable [Scalar α]

/-- The box around the primitive; its markers do not count. -/
def bounds : Primitive α → Box α
  | edge e _ _ _ => e.bounds
  | stencil _ box _ _ _ | image _ box _ _ | text _ box _ => box
  | group edges _ => (Extent.ofBoxes (edges.map (·.bounds))).box?.getD .null

/-- The point that the primitive's markers are relative to. -/
def markerOrigin : Primitive α → Point α
  | stencil _ box _ _ _ | image _ box _ _ => box.origin
  | _ => 0

/-- The markers in the drawing plane. -/
def placedMarkers (p : Primitive α) : List (Marker α) := p.markers.map (·.moved p.markerOrigin)

def moved (d : Point α) : Primitive α → Primitive α
  | edge e style outline markers => edge (e.moved d) style outline (markers.map (·.moved d))
  | stencil shape box style outline markers => stencil shape (box.moved d) style outline markers
  | image src box style markers => image src (box.moved d) style markers
  | text value box style => text value (box.moved d) style
  | group edges style => group (edges.map (·.moved d)) style

end Primitive

/-- The box around a selection of primitives. -/
def Box.around? {α : Type} [Scalar α] (ps : List (Primitive α)) : Option (Box α) :=
  (Extent.ofBoxes (ps.map (·.bounds))).box?

end StencilKit
