/-
The smallest box around a number of points, gathered one point at a time.

Each axis keeps the range of the coordinates met so far. A NaN coordinate says nothing about its
axis, and an infinite one is brought to the largest finite number on the side where it would be
the nearer end of the range, so that a range always starts from finite numbers.
-/
import StencilKit.Plane.Box

namespace StencilKit

/-- The least and the greatest coordinate met on one axis, if any. -/
abbrev Range (α : Type) := Option (α × α)

namespace Range

variable {α : Type} [Scalar α]

/-- The range of a single coordinate. -/
def single (a : α) : α × α :=
  match (Scalar.largest? : Option α) with
  | none => (a, a)
  | some m => (Scalar.lesser m a, Scalar.greater (-m) a)

def insert (r : Range α) (a : α) : Range α :=
  if Scalar.isNaN a then r
  else match r with
    | none => some (single a)
    | some (lo, hi) => some (Scalar.lesser lo a, Scalar.greater hi a)

end Range

/-- The ranges of the points met so far. -/
structure Extent (α : Type) where
  xs : Range α
  ys : Range α

namespace Extent

variable {α : Type} [Scalar α]

/-- No point met yet. -/
def empty : Extent α := ⟨none, none⟩

def insert (e : Extent α) (p : Point α) : Extent α := ⟨Range.insert e.xs p.x, Range.insert e.ys p.y⟩

/-- A box is met by its two corners. -/
def insertBox (e : Extent α) (b : Box α) : Extent α := (e.insert b.origin).insert b.far

/-- The box around all points met, once both axes have a range. -/
def box? (e : Extent α) : Option (Box α) :=
  match e.xs, e.ys with
  | some (x₁, x₂), some (y₁, y₂) => some (.ofCorners ⟨x₁, y₁⟩ ⟨x₂, y₂⟩)
  | _, _ => none

def isEmpty (e : Extent α) : Bool := e.box?.isNone

def ofPoints (ps : List (Point α)) : Extent α := ps.foldl insert empty

def ofBoxes (bs : List (Box α)) : Extent α := bs.foldl insertBox empty

end Extent

end StencilKit
