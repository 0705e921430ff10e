/-
The text that shows a box to a reader.
-/
import StencilKit.Decimal.Shortest
import StencilKit.Plane.Box

namespace StencilKit

/-- Origin and size, as in `(0, 5) 20x10`. -/
def Box.label (b : Box Float) : String :=
  let x := Decimal.text b.x
  let y := Decimal.text b.y
  let w := Decimal.text b.w
  let h := Decimal.text b.h
  s!"({x}, {y}) {w}x{h}"

end StencilKit
