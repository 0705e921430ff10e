/-
What can be set for composing stencils and for taking them apart.
-/
import StencilKit.Scalar

namespace StencilKit

open Scalar (count decimal)

/-- How densely attachment points are sampled. -/
structure SamplingOptions (α : Type) where
  /-- Between the points of a straight segment, along its longer axis. -/
  lineStep : α
  /-- Between the parameters of a quadratic piece, which run from zero to one. -/
  curveStep : α
  /-- Between the points of a box's outline. -/
  rectStep : α
  /-- Between the angles of an ellipse's outline. -/
  ellipseStep : α
  /-- The angle up to which an ellipse is sampled. -/
  ellipseSweep : α
  /-- Between the points of the grid that other shapes are scanned with. -/
  gridStep : α
  /-- The number of straight pieces that stand for a curve while scanning. -/
  flattening : Nat

/-- Two turns around an ellipse, and steps of a few units of length. -/
def SamplingOptions.standard {α : Type} [Scalar α] : SamplingOptions α where
  lineStep := count 2
  curveStep := decimal 2 2
  rectStep := count 2
  ellipseStep := decimal 5 2
  ellipseSweep := count 4 * Scalar.pi
  gridStep := count 5
  flattening := 16

/-- How a selection is composed. -/
structure ComposeOptions (α : Type) where
  sampling : SamplingOptions α
  /-- How far toward a rounded corner the pen goes straight. -/
  cornerBlend : α
  /-- How far apart two ends may be to count as joined. -/
  joinTolerance : α

def ComposeOptions.standard {α : Type} [Scalar α] : ComposeOptions α where
  sampling := .standard
  cornerBlend := decimal 89 2
  joinTolerance := decimal 1 6

/-- How a stencil is taken apart. -/
structure DecomposeOptions (α : Type) where
  /-- The side of the box that stands for a single attachment point. -/
  spotSize : α
  /-- How far a primitive may be from what a stencil says of its outline. -/
  matchTolerance : α

def DecomposeOptions.standard {α : Type} [Scalar α] : DecomposeOptions α where
  spotSize := count 4
  matchTolerance := decimal 1 6

end StencilKit
