/-
Binary64 numbers as coordinates: the number type of a stored drawing.
-/
import StencilKit.Scalar

namespace StencilKit

/-- The rank of a double in the total order of all doubles: a clear sign bit ranks above a set
one, and the remaining bits rank upward without the sign and downward with it. -/
def binary64Rank (x : Float) : Nat :=
  let bits := x.toBits.toNat
  let signBit := UInt64.size / 2
  if bits < signBit then bits + signBit else UInt64.size - 1 - bits

instance : Scalar Float where
  zero := 0.0
  one := 1.0
  decidableLT := inferInstance
  decidableLE := inferInstance
  count := Float.ofNat
  decimal := fun m k => Float.ofScientific m true k
  pi := 3.141592653589793
  sqrt := Float.sqrt
  cos := Float.cos
  sin := Float.sin
  floor := Float.floor
  toCount := fun x => x.toUInt64.toNat
  order := fun x y => compare (binary64Rank x) (binary64Rank y)
  largest? := some (Float.ofBits 0x7fefffffffffffff)

end StencilKit
