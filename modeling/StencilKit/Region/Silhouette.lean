/-
Silhouettes: the closed outlines of a shape, at the size at which a region draws it.

A stencil's silhouette is taken from its foreground. Every subpath of a path is a polygon, whose
curves are followed by a number of straight pieces; a nested stencil and an image count as boxes.
-/
import StencilKit.Stencil.Basic

namespace StencilKit

/-- A closed outline. A polygon closes itself. -/
inductive Outline (α : Type) where
  | rect (box : Box α)
  | ellipse (box : Box α)
  | polygon (points : List (Point α))
  deriving BEq, DecidableEq

/-- The outlines of a shape. -/
abbrev Silhouette (α : Type) := List (Outline α)

namespace Silhouette

variable {α : Type}

/-- The polygon of a finished subpath; a single point is none. -/
def finish (points : List (Point α)) : List (List (Point α)) := if points.length < 2 then [] else [points]

variable [Scalar α]

/-- The polygons of the rest of a path, after the given points of the current subpath. -/
def polygonsFrom (scale : Point α) (n : Nat) : List (Point α) → Path α → List (List (Point α))
  | points, [] => finish points
  | points, .move p :: rest => finish points ++ polygonsFrom scale n [p * scale] rest
  | points, .line p :: rest => polygonsFrom scale n (points ++ [p * scale]) rest
  | points, .quad control stop :: rest =>
    let start := points.getLast?.getD (control * scale)
    polygonsFrom scale n (points ++ Quadratic.flatten ⟨start, control * scale, stop * scale⟩ n) rest
  | points, .close :: rest => finish points ++ polygonsFrom scale n [] rest

/-- A box at another scale. -/
def scaledBox (scale : Point α) (b : Box α) : Box α :=
  ⟨b.x * scale.x, b.y * scale.y, b.w * scale.x, b.h * scale.y⟩

/-- The outlines of one entry of a foreground. -/
def ofNode (scale : Point α) (n : Nat) : Node α → Silhouette α
  | .path p => (polygonsFrom scale n [] p).map .polygon
  | .rect b | .reference _ b | .image _ b => [.rect (scaledBox scale b)]
  | .ellipse b => [.ellipse (scaledBox scale b)]
  | _ => []

/-- The silhouette of a stencil at the given size, with `n` straight pieces for each curve. -/
def ofStencil (s : Stencil α) (size : Point α) (n : Nat) : Silhouette α :=
  s.foreground.flatMap (ofNode (s.scaleTo size) n)

end Silhouette

end StencilKit
