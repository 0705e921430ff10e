/-
Evenly spaced numbers. A term is computed from its index and not from the term before it, so a
long progression does not drift.

Whether the far end is met is a matter of rounding: a span that is within `10 ^ -9` of a whole
number of steps counts as that many.
-/
import StencilKit.Scalar

namespace StencilKit

/-- The numbers `start`, `start + step`, …, `count` of them. -/
structure Progression (α : Type) where
  start : α
  step : α
  count : Nat

namespace Progression

variable {α : Type} [Scalar α]

/-- By how much a span may miss a whole number of steps. -/
def slack : α := Scalar.decimal 1 9

/-- Whether there is anything to step through: a positive step, and finite ends in order. -/
def isProper (start stop step : α) : Bool :=
  decide (0 < step) && Scalar.isFinite start && Scalar.isFinite stop && !decide (stop < start)

/-- The number of whole steps in a span. -/
def wholeSteps (start stop step : α) : α := Scalar.floor ((stop - start) / step + slack)

/-- Whether the span has a last, partial step. -/
def hasRemainder (start stop step : α) : Bool :=
  decide (slack < Scalar.magnitude ((stop - start) / step - wholeSteps start stop step))

/-- From `start` by `step`, strictly below `stop`. -/
def below (start stop step : α) : Progression α :=
  ⟨start, step,
    if isProper start stop step then
      Scalar.toCount (if hasRemainder start stop step then wholeSteps start stop step + 1
        else wholeSteps start stop step)
    else 0⟩

/-- From `start` by `step`, up to `stop` and including it when it is met. -/
def through (start stop step : α) : Progression α :=
  ⟨start, step, if isProper start stop step then Scalar.toCount (wholeSteps start stop step + 1) else 0⟩

/-- At most the first `n` terms. -/
def take (p : Progression α) (n : Nat) : Progression α := { p with count := min p.count n }

def toList (p : Progression α) : List α :=
  (List.range p.count).map fun i => p.start + Scalar.count i * p.step

end Progression

end StencilKit
