/-
The attachment points of a marker: where they lie in the drawing plane.

A straight segment is stepped along its longer axis, from the lesser coordinate to the greater, and
the other coordinate is solved from the equation of the line. A curve is stepped by parameter, piece
by piece. The outline of a box or an ellipse is stepped as such; every other region is scanned with a
grid, and the points that hit are kept.
-/
import StencilKit.Failure
import StencilKit.Options
import StencilKit.Plane.Progression
import StencilKit.Region.Hit

namespace StencilKit.Sampling

open Scalar (lesser greater magnitude)

variable {α : Type} [Scalar α]

/-- Whether a segment is stepped along `y`. -/
def isSteep (a b : Point α) : Bool := decide (magnitude (b.x - a.x) < magnitude (b.y - a.y))

/-- The point of the line through `a` and `b` at height `y`. -/
def atHeight (a b : Point α) (y : α) : Point α :=
  let dx := b.x - a.x
  let m := (b.y - a.y) / dx
  ⟨if dx == 0 then a.x else (y - (a.y - m * a.x)) / m, y⟩

/-- The point of the line through `a` and `b` at abscissa `x`. -/
def atAbscissa (a b : Point α) (x : α) : Point α :=
  let m := (b.y - a.y) / (b.x - a.x)
  ⟨x, m * x + (a.y - m * a.x)⟩

/-- The points of one segment. -/
def segment (step : α) (a b : Point α) : List (Point α) :=
  if isSteep a b then
    (Progression.below (lesser a.y b.y) (greater a.y b.y) step).toList.map (atHeight a b)
  else (Progression.below (lesser a.x b.x) (greater a.x b.x) step).toList.map (atAbscissa a b)

/-- The points of a polyline, segment by segment. -/
def line (step : α) : List (Point α) → List (Point α)
  | a :: b :: rest => segment step a b ++ line step (b :: rest)
  | _ => []

/-- The points of a smooth curve, piece by piece; of a line, if there are only two points. -/
def curve (options : SamplingOptions α) (ps : List (Point α)) : List (Point α) :=
  if ps.length < 3 then line options.lineStep ps
  else (Quadratic.smooth ps).flatMap fun q =>
    (Progression.below 0 1 options.curveStep).toList.map q.point

/-- The points of an edge. -/
def edge (options : SamplingOptions α) (kind : EdgeKind) (ps : List (Point α)) : List (Point α) :=
  match kind with
  | .line => line options.lineStep ps
  | .curve => curve options ps

/-- The points of a box's outline: opposite sides together, the upper and lower ones first. -/
def rectOutline (step : α) (b : Box α) : List (Point α) :=
  (Progression.below b.x b.far.x step).toList.flatMap (fun x => [⟨x, b.y⟩, ⟨x, b.far.y⟩]) ++
    (Progression.below b.y b.far.y step).toList.flatMap fun y => [⟨b.x, y⟩, ⟨b.far.x, y⟩]

/-- The points of the outline of the ellipse in a box. -/
def ellipseOutline (options : SamplingOptions α) (b : Box α) : List (Point α) :=
  (Progression.below 0 options.ellipseSweep options.ellipseStep).toList.map b.ellipsePoint

/-- The points of a grid over a box of the given size, column by column, relative to its origin. -/
def grid (step w h : α) : List (Point α) :=
  (Progression.through 0 w step).toList.flatMap fun x =>
    (Progression.through 0 h step).toList.map fun y => ⟨x, y⟩

/-- What scanning a region needs: which stencil a reference means, and where a point lies. -/
structure Scanner (α : Type) where
  resolve : ShapeRef → Except (Failure α) (Stencil α)
  hit : HitTest α

/-- The silhouette of a region's shape at the size of the region. -/
def Scanner.silhouette (scanner : Scanner α) (n : Nat) (shape : ShapeRef) (b : Box α) :
    Except (Failure α) (Silhouette α) :=
  match shape with
  | .rectangle => .ok [.rect (.ofSize b.w b.h)]
  | .ellipse => .ok [.ellipse (.ofSize b.w b.h)]
  | shape => (scanner.resolve shape).map fun s => .ofStencil s b.size n

/-- Whether a point that was hit like this belongs to the given part of a region. -/
def keeps : RegionKind → Hit → Bool
  | .outline, hit => hit.onStroke
  | .area, hit => hit.onFill || hit.onStroke

/-- The grid points of a region that belong to the given part of its shape. -/
def Scanner.scan (scanner : Scanner α) (options : SamplingOptions α) (kind : RegionKind)
    (shape : ShapeRef) (b : Box α) : Except (Failure α) (List (Point α)) := do
  let outlines ← scanner.silhouette options.flattening shape b
  let kept := (grid options.gridStep b.w b.h).filter fun p => keeps kind (scanner.hit outlines p)
  return kept.map (b.origin + ·)

/-- The points of a region. -/
def Scanner.region (scanner : Scanner α) (options : SamplingOptions α) (kind : RegionKind)
    (shape : ShapeRef) (b : Box α) : Except (Failure α) (List (Point α)) :=
  match kind, shape with
  | .outline, .rectangle => .ok (rectOutline options.rectStep b)
  | .outline, .ellipse => .ok (ellipseOutline options b)
  | kind, shape => scanner.scan options kind shape b

/-- The anchor of a point of the drawing plane, in a stencil with the given frame. -/
def anchor (frame : Box α) (name : String) (p : Point α) : Anchor α :=
  let f := frame.fraction (frame.toLocal p)
  ⟨f.x, f.y, name⟩

end StencilKit.Sampling
