/-
Whether a point lies in a silhouette's fill or on its stroke.

The fill goes by the even-odd rule: a point is inside when it lies in an odd number of outlines, and
in a polygon when a ray to the right crosses an odd number of its sides. The stroke is a band on
either side of every outline; an ellipse's outline is approximated by many short sides.
-/
import StencilKit.Region.Silhouette

namespace StencilKit

/-- The answer for one point. -/
structure Hit where
  onFill : Bool
  onStroke : Bool
  deriving DecidableEq, Repr

/-- A way to tell where a point lies. -/
abbrev HitTest (α : Type) := Silhouette α → Point α → Hit

/-- The points of a closed line paired with their successors. -/
def ringSides {β : Type} (ps : List β) : List (β × β) := ps.zip (ps.rotateLeft 1)

namespace Outline

variable {α : Type} [Scalar α]

/-- The number of sides in place of an ellipse. -/
def ellipseSides : Nat := 128

/-- By how much the equation of an ellipse may be overstepped. -/
def ellipseSlack : α := Scalar.decimal 1 12

/-- Points of the ellipse in a box, evenly spaced by angle. -/
def ellipseRing (b : Box α) : List (Point α) :=
  (List.range ellipseSides).map fun i =>
    b.ellipsePoint (Scalar.count i * (Scalar.turn / Scalar.count ellipseSides))

/-- The corners of the closed line that stands for an outline. -/
def ring : Outline α → List (Point α)
  | rect b => b.corners
  | ellipse b => ellipseRing b
  | polygon ps => ps

/-- Whether the ray from `p` to the right crosses the side from `a` to `b`. Of a side's two ends, the
one with the lesser `y` belongs to it. -/
def crosses (p : Point α) (a b : Point α) : Bool :=
  decide (p.y < a.y) != decide (p.y < b.y) && decide (p.x < a.x + (p.y - a.y) / (b.y - a.y) * (b.x - a.x))

/-- Whether a point lies inside an outline. A box and an ellipse include their outline. -/
def encloses (p : Point α) : Outline α → Bool
  | rect b => decide (b.x ≤ p.x) && decide (p.x ≤ b.far.x) && decide (b.y ≤ p.y) && decide (p.y ≤ b.far.y)
  | ellipse b =>
    let radius := b.size.scaled Scalar.half
    if radius.x ≤ 0 ∨ radius.y ≤ 0 then false
    else decide (((p - b.center) / radius).lengthSq ≤ 1 + ellipseSlack)
  | polygon ps => (ringSides ps).foldl (fun inside (a, b) => inside != crosses p a b) false

/-- Whether an outline passes within `tolerance` of a point. An infinite tolerance is kept always,
even by an outline without sides. -/
def passes (tolerance : α) (p : Point α) (o : Outline α) : Bool :=
  (ringSides o.ring).any (fun (a, b) => decide (p.distanceToSegment a b ≤ tolerance)) ||
    Scalar.isInfinite tolerance && decide (0 < tolerance)

end Outline

namespace Hit

variable {α : Type} [Scalar α]

/-- Half the width of a stroke. -/
def strokeTolerance : α := Scalar.half

/-- The fill by the even-odd rule over all outlines, the stroke within `tolerance` of any. -/
def geometric (tolerance : α) : HitTest α := fun outlines p =>
  ⟨outlines.foldl (fun inside o => inside != o.encloses p) false, outlines.any (·.passes tolerance p)⟩

end Hit

end StencilKit
