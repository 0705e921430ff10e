/-
How a primitive is painted.
-/
namespace StencilKit

/-- Stroke, fill and dashes of a primitive. The dash pattern counts only when it is dashed. -/
structure Style (α : Type) where
  stroke : String := "#000000"
  fill? : Option String := none
  width? : Option α := none
  dashed : Bool := false
  pattern? : Option String := none
  /-- Whether a polyline has rounded corners. -/
  rounded : Bool := false
  deriving BEq, DecidableEq

end StencilKit
