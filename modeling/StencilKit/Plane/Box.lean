/-
Axis-aligned boxes: a corner and a size. A box is the geometry of everything that is not an edge,
and the frame that a stencil's own coordinates are relative to.
-/
import StencilKit.Plane.Point

namespace StencilKit

/-- A box by the corner with the least coordinates and its size. -/
structure Box (α : Type) where
  x : α
  y : α
  w : α
  h : α
  deriving BEq, DecidableEq

namespace Box

variable {α : Type} [Scalar α]

/-- The box of no extent at the origin of the plane. -/
def null : Box α := ⟨0, 0, 0, 0⟩

/-- A box of the given size at the origin of the plane. -/
def ofSize (w h : α) : Box α := ⟨0, 0, w, h⟩

/-- The box between two opposite corners, given in any order. -/
def ofCorners (p q : Point α) : Box α :=
  let lo := p.lesser q
  let hi := p.greater q
  ⟨lo.x, lo.y, hi.x - lo.x, hi.y - lo.y⟩

def origin (b : Box α) : Point α := ⟨b.x, b.y⟩

def size (b : Box α) : Point α := ⟨b.w, b.h⟩

/-- The corner opposite the origin. -/
def far (b : Box α) : Point α := b.origin + b.size

def center (b : Box α) : Point α := b.origin + b.size.scaled Scalar.half

/-- The smallest box around two boxes. -/
def union (a b : Box α) : Box α := ofCorners (a.origin.lesser b.origin) (a.far.greater b.far)

/-- Whether `b` lies inside `a`; edges may touch. -/
def contains (a b : Box α) : Bool :=
  decide (a.x ≤ b.x) && decide (a.y ≤ b.y) && decide (b.far.x ≤ a.far.x) && decide (b.far.y ≤ a.far.y)

/-- A box without area, which no fraction can be taken of. -/
def isDegenerate (b : Box α) : Bool := !(decide (0 < b.w) && decide (0 < b.h))

/-- The box moved by a displacement. -/
def moved (b : Box α) (d : Point α) : Box α := ⟨b.x + d.x, b.y + d.y, b.w, b.h⟩

/-- A point of the plane, relative to the box's origin. -/
def toLocal (b : Box α) (p : Point α) : Point α := p - b.origin

/-- A box of the plane, relative to the box's origin. -/
def boxToLocal (b r : Box α) : Box α := r.moved (-b.origin)

/-- A point relative to the box's origin, in fractions of its size. -/
def fraction (b : Box α) (p : Point α) : Point α := p / b.size

/-- The point of the plane at given fractions of the box's size. -/
def ofFraction (b : Box α) (f : Point α) : Point α := b.origin + f * b.size

/-- The point at angle `θ` of the ellipse inscribed in the box. -/
def ellipsePoint (b : Box α) (θ : α) : Point α :=
  b.center + b.size.scaled Scalar.half * ⟨Scalar.cos θ, Scalar.sin θ⟩

/-- The four corners, in the order in which the outline passes them. -/
def corners (b : Box α) : List (Point α) := [b.origin, ⟨b.far.x, b.y⟩, b.far, ⟨b.x, b.far.y⟩]

end Box

end StencilKit
