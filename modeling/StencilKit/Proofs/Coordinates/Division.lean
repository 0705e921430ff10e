/-
Division by zero.

A field has a quotient by zero, which is zero, and so an exact result does not tell whether it was got by such a
division. To tell, take the same numbers with other quotients by zero: any numbers whatever, or nothing, of which
nothing can come (`Patched`). What comes out the same with all of them is got by no division by zero.
-/
import StencilKit.Proofs.Coordinates.Stepping
import StencilKit.Proofs.Coordinates.Map

namespace StencilKit

/-- The numbers of a field, or nothing, with a quotient by zero that depends on the dividend in whatever way. -/
structure Patched {K : Type} (byZero : K → Option K) where
  value? : Option K

namespace Patched

/-- A number of the field as one of those with other quotients by zero. -/
def of {K : Type} (byZero : K → Option K) (a : K) : Patched byZero := ⟨some a⟩

/-- A comparison of numbers, which nothing stands in. -/
def Compares {K : Type} (r : K → K → Prop) : Option K → Option K → Prop
  | some a, some b => r a b
  | _, _ => False

instance {K : Type} (r : K → K → Prop) [DecidableRel r] : DecidableRel (Compares r)
  | some a, some b => inferInstanceAs (Decidable (r a b))
  | some _, none | none, _ => inferInstanceAs (Decidable False)

variable {K : Type} [Field K] [LinearOrder K] [FloorRing K] [Transcendental K]

instance (byZero : K → Option K) : Scalar (Patched byZero) where
  add a b := ⟨Option.map₂ (· + ·) a.value? b.value?⟩
  sub a b := ⟨Option.map₂ (· - ·) a.value? b.value?⟩
  mul a b := ⟨Option.map₂ (· * ·) a.value? b.value?⟩
  div a b := ⟨do
    let u ← a.value?
    let v ← b.value?
    if v = 0 then byZero u else some (u / v)⟩
  neg a := ⟨a.value?.map (- ·)⟩
  zero := ⟨some 0⟩
  one := ⟨some 1⟩
  lt a b := Compares (· < ·) a.value? b.value?
  le a b := Compares (· ≤ ·) a.value? b.value?
  beq a b := decide (Compares (· = ·) a.value? b.value?)
  decidableLT a b := inferInstanceAs (Decidable (Compares _ a.value? b.value?))
  decidableLE a b := inferInstanceAs (Decidable (Compares _ a.value? b.value?))
  count n := ⟨some (Scalar.count n)⟩
  decimal m k := ⟨some (Scalar.decimal m k)⟩
  pi := ⟨some Scalar.pi⟩
  sqrt a := ⟨a.value?.map Scalar.sqrt⟩
  cos a := ⟨a.value?.map Scalar.cos⟩
  sin a := ⟨a.value?.map Scalar.sin⟩
  floor a := ⟨a.value?.map Scalar.floor⟩
  toCount a := a.value?.elim 0 Scalar.toCount
  order a b := (Option.map₂ Scalar.order a.value? b.value?).getD .eq
  largest? := none

variable {byZero : K → Option K}

theorem of_div {b : K} (h : b ≠ 0) (a : K) : of byZero (a / b) = of byZero a / of byZero b :=
  congrArg mk (if_neg h).symm

omit [Field K] [LinearOrder K] [FloorRing K] [Transcendental K] in
theorem of_ite {P : Prop} [Decidable P] (a b : K) :
    of byZero (if P then a else b) = if P then of byZero a else of byZero b :=
  apply_ite (of byZero) P a b

theorem of_lesser (a b : K) : of byZero (Scalar.lesser a b) = Scalar.lesser (of byZero a) (of byZero b) := by
  rw [Scalar.lesser, of_ite, of_ite]
  rfl

theorem of_greater (a b : K) : of byZero (Scalar.greater a b) = Scalar.greater (of byZero a) (of byZero b) := by
  rw [Scalar.greater, of_ite, of_ite]
  rfl

theorem of_magnitude (a : K) : of byZero (Scalar.magnitude a) = Scalar.magnitude (of byZero a) := by
  rw [Scalar.magnitude, of_ite]
  rfl

end Patched

open Patched (of of_div)

namespace Progression

variable {K : Type} [Field K] [LinearOrder K] [FloorRing K] [Transcendental K] {byZero : K → Option K}

theorem of_wholeSteps {start stop step : K} (h : step ≠ 0) :
    of byZero (wholeSteps start stop step) = wholeSteps (of byZero start) (of byZero stop) (of byZero step) := by
  have hsteps : of byZero ((stop - start) / step) = (of byZero stop - of byZero start) / of byZero step := of_div h _
  show of byZero (Scalar.floor _) = Scalar.floor _
  rw [← hsteps]
  rfl

theorem hasRemainder_of {start stop step : K} (h : step ≠ 0) :
    hasRemainder (of byZero start) (of byZero stop) (of byZero step) = hasRemainder start stop step := by
  have hsteps : of byZero ((stop - start) / step) = (of byZero stop - of byZero start) / of byZero step := of_div h _
  rw [hasRemainder, ← of_wholeSteps h, ← hsteps]
  show decide (_ < Scalar.magnitude (of byZero _)) = _
  rw [← Patched.of_magnitude]
  rfl

/-- **Stepping** divides by the step, which has to be positive. -/
theorem toList_below_of (start stop step : K) :
    (below (of byZero start) (of byZero stop) (of byZero step)).toList =
      (below start stop step).toList.map (of byZero) := by
  have hproper : isProper (of byZero start) (of byZero stop) (of byZero step) = isProper start stop step := rfl
  have hcount : (below (of byZero start) (of byZero stop) (of byZero step)).count =
      (below start stop step).count := by
    rw [below, below, hproper]
    dsimp only
    split
    · rename_i h
      have hstep : step ≠ 0 := (isProper_iff.1 h).1.ne'
      rw [hasRemainder_of hstep, ← of_wholeSteps hstep]
      split <;> rfl
    · rfl
  rw [toList, toList, hcount, List.map_map]
  rfl

end Progression

end StencilKit
