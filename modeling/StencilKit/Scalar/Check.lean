/-
What can be wrong with a number that a drawing needs: it may be NaN, infinite, or negative where
an extent is wanted.
-/
import StencilKit.Scalar

namespace StencilKit

/-- Why a number is refused. -/
inductive NumberFlaw where
  | nan
  | infinite
  | negative
  deriving DecidableEq, Repr

/-- The wording of a flaw. -/
def NumberFlaw.message : NumberFlaw → String
  | .nan => "value is NaN"
  | .infinite => "value is infinite"
  | .negative => "value is negative"

namespace Scalar

variable {α : Type} [Scalar α]

/-- A coordinate has to be finite. -/
def checkFinite (a : α) : Except NumberFlaw α :=
  if isNaN a then .error .nan
  else if isInfinite a then .error .infinite
  else .ok a

/-- An extent has to be finite and not negative. -/
def checkExtent (a : α) : Except NumberFlaw α := do
  let a ← checkFinite a
  if a < 0 then .error .negative else .ok a

end Scalar

end StencilKit
