/-
Doubles of which zero has one sign.

Nothing that geometry asks of numbers depends on the sign of a zero, as long as no zero is divided
by: sums, products and roots of numbers that are the same but for the signs of zeros are the same but
for the signs of zeros (`Alike`). So the doubles with one zero are numbers in their own right, and
taking the sign from a zero is a homomorphism to them (`Plain.hom`).
-/
import StencilKit.Proofs.Binary64.Finite
import StencilKit.Proofs.Coordinates.Equality
import StencilKit.Proofs.Coordinates.Homomorphism

namespace StencilKit.Binary64

open Float.Model (Format UnpackedFloat)
open Float.Model.UnpackedFloat (Sign)

/-! ## Alike but for the signs of zeros -/

/-- The same unpacked number, or two zeros. -/
inductive Alike : UnpackedFloat → UnpackedFloat → Prop where
  | same (u : UnpackedFloat) : Alike u u
  | zeros (s t : Sign) : Alike (.zero s) (.zero t)

theorem unpack_plain (x : Float) : Alike (unpack (plain x)) (unpack x) := by
  by_cases h : ∃ s, unpack x = .zero s
  · obtain ⟨s, hs⟩ := h
    rw [plain_of_zero hs, unpack_zero, hs]
    exact .zeros _ _
  · rw [plain_of_ne_zero fun s hs => h ⟨s, hs⟩]
    exact .same _

theorem plain_eq_of_alike {x y : Float} (h : Alike (unpack x) (unpack y)) : plain x = plain y := by
  generalize hu : unpack x = u at h
  generalize hv : unpack y = v at h
  cases h with
  | same => rw [ext_unpack (hu.trans hv.symm)]
  | zeros s t => rw [plain_of_zero hu, plain_of_zero hv]

theorem plain_pack {u v : UnpackedFloat} (h : Alike u v) : plain (pack u) = plain (pack v) := by
  cases h with
  | same => rfl
  | zeros s t => rw [plain_of_zero (unpack_pack_zero s), plain_of_zero (unpack_pack_zero t)]

@[simp] theorem plain_plain (x : Float) : plain (plain x) = plain x :=
  plain_eq_of_alike (unpack_plain x)

theorem plain_comp_plain : plain ∘ plain = plain := funext plain_plain

theorem Alike.symm {u v : UnpackedFloat} (h : Alike u v) : Alike v u := by
  cases h with
  | same => exact .same _
  | zeros s t => exact .zeros t s

section

variable {u u' v v' : UnpackedFloat} (hu : Alike u u') (hv : Alike v v')
include hu hv

theorem Alike.add : Alike (.add Format.binary64 u v) (.add Format.binary64 u' v') := by
  cases hu with
  | same =>
    cases hv with
    | same => exact .same _
    | zeros s t =>
      cases u with
      | zero r => cases r <;> cases s <;> cases t <;> exact .zeros _ _
      | _ => exact .same _
  | zeros s t =>
    cases hv with
    | same =>
      cases v with
      | zero r => cases r <;> cases s <;> cases t <;> exact .zeros _ _
      | _ => exact .same _
    | zeros s' t' => cases s <;> cases t <;> cases s' <;> cases t' <;> exact .zeros _ _

theorem Alike.sub : Alike (.sub Format.binary64 u v) (.sub Format.binary64 u' v') := by
  cases hu with
  | same =>
    cases hv with
    | same => exact .same _
    | zeros s t =>
      cases u with
      | zero r => cases r <;> cases s <;> cases t <;> exact .zeros _ _
      | _ => exact .same _
  | zeros s t =>
    cases hv with
    | same =>
      cases v with
      | zero r => cases r <;> cases s <;> cases t <;> exact .zeros _ _
      | _ => exact .same _
    | zeros s' t' => cases s <;> cases t <;> cases s' <;> cases t' <;> exact .zeros _ _

theorem Alike.mul : Alike (.mul Format.binary64 u v) (.mul Format.binary64 u' v') := by
  cases hu with
  | same =>
    cases hv with
    | same => exact .same _
    | zeros s t =>
      cases u with
      | zero r => exact .zeros _ _
      | finite r m e h => exact .zeros _ _
      | _ => exact .same _
  | zeros s t =>
    cases hv with
    | same =>
      cases v with
      | zero r => exact .zeros _ _
      | finite r m e h => exact .zeros _ _
      | _ => exact .same _
    | zeros s' t' => exact .zeros _ _

omit hv in
/-- A quotient by what is not zero. -/
theorem Alike.div (hne : ∀ s, v ≠ .zero s) :
    Alike (.div Format.binary64 u v) (.div Format.binary64 u' v) := by
  cases hu with
  | same => exact .same _
  | zeros s t =>
    cases v with
    | zero r => exact absurd rfl (hne r)
    | notANumber => exact .same _
    | infinity r => exact .zeros _ _
    | finite r m e h => exact .zeros _ _

omit hv in
theorem Alike.sqrt : Alike (.sqrt Format.binary64 u) (.sqrt Format.binary64 u') := by
  cases hu with
  | same => exact .same _
  | zeros s t => exact .zeros s t

theorem Alike.compare : u.compare v = u'.compare v' := by
  cases hu with
  | same =>
    cases hv with
    | same => rfl
    | zeros s t =>
      cases u with
      | infinity r => cases r <;> rfl
      | finite r m e h => cases r <;> rfl
      | _ => rfl
  | zeros s t =>
    cases hv with
    | same =>
      cases v with
      | infinity r => cases r <;> rfl
      | finite r m e h => cases r <;> rfl
      | _ => rfl
    | zeros s' t' => rfl

end

/-! ## Finite numbers -/

@[simp] theorem isFinite_plain (x : Float) : Scalar.isFinite (plain x) = Scalar.isFinite x := by
  by_cases h : ∃ s, unpack x = .zero s
  · obtain ⟨s, hs⟩ := h
    rw [plain_of_zero hs, isFinite_iff.2 (.inl ⟨s, hs⟩)]
    rfl
  · rw [plain_of_ne_zero fun s hs => h ⟨s, hs⟩]

theorem beq_self_of_isFinite {x : Float} (h : Scalar.isFinite x = true) : (x == x) = true := by
  rw [beq_self_iff]
  intro hn
  rcases isFinite_iff.1 h with ⟨s, hs⟩ | ⟨s, m, e, hm, hs⟩
  · cases hs.symm.trans hn
  · cases hs.symm.trans hn

/-- A number that is neither infinite nor not a number is finite. -/
theorem checkFinite_eq_ok {x y : Float} : Scalar.checkFinite x = .ok y ↔ Scalar.isFinite x = true ∧ y = x := by
  by_cases h : Scalar.isFinite x = true
  · have hn : Scalar.isNaN x = false := by
      rw [Scalar.isNaN, beq_self_of_isFinite h]
      rfl
    have hcheck : Scalar.checkFinite x = .ok x := by
      rw [Scalar.checkFinite, hn, Scalar.isInfinite, h, hn]
      rfl
    rw [hcheck, Except.ok.injEq, and_iff_right h, eq_comm]
  · refine iff_of_false ?_ fun hy => h hy.1
    rw [Bool.not_eq_true] at h
    rw [Scalar.checkFinite, Scalar.isInfinite, h]
    cases Scalar.isNaN x <;> nofun

/-- A finite number that is not below zero is not negative. -/
theorem not_lt_zero {x : Float} (hx : Scalar.isFinite x = true) : ¬ x < 0 ↔ 0 ≤ x := by
  have h0 : unpack 0 = .zero .positive := rfl
  rw [lt_iff, le_iff, h0]
  rcases isFinite_iff.1 hx with ⟨s, hs⟩ | ⟨s, m, e, hm, hs⟩
  · rw [hs]
    exact iff_of_true nofun rfl
  · rw [hs]
    cases s with
    | negative => exact iff_of_false (fun h => h rfl) nofun
    | positive => exact iff_of_true nofun rfl

theorem plain_lt_zero {x : Float} : plain x < 0 ↔ x < 0 := by
  rw [lt_iff, lt_iff, (unpack_plain x).compare (.same (unpack 0))]

/-! ## Numbers with one zero -/

/-- A double of which zero has one sign. -/
structure Plain where
  val : Float
  plain_val : plain val = val

namespace Plain

/-- The number that a double is when the sign of zero does not count. -/
def of (x : Float) : Plain := ⟨plain x, plain_plain x⟩

instance : Scalar Plain where
  add a b := of (a.val + b.val)
  sub a b := of (a.val - b.val)
  mul a b := of (a.val * b.val)
  div a b := of (a.val / b.val)
  neg a := of (-a.val)
  zero := of 0
  one := of 1
  lt a b := a.val < b.val
  le a b := a.val ≤ b.val
  beq a b := a.val == b.val
  decidableLT a b := inferInstanceAs (Decidable (a.val < b.val))
  decidableLE a b := inferInstanceAs (Decidable (a.val ≤ b.val))
  count n := of (Scalar.count n)
  decimal m k := of (Scalar.decimal m k)
  pi := of Scalar.pi
  sqrt a := of (Scalar.sqrt a.val)
  cos a := of (Scalar.cos a.val)
  sin a := of (Scalar.sin a.val)
  floor a := of (Scalar.floor a.val)
  toCount a := Scalar.toCount a.val
  order a b := Scalar.order a.val b.val
  largest? := (Scalar.largest? : Option Float).map of

theorem of_eq_of {x y : Float} (h : Alike (unpack x) (unpack y)) : of x = of y := by
  have hp := plain_eq_of_alike h
  simp only [of, hp]

@[simp] theorem of_plain (x : Float) : of (plain x) = of x := of_eq_of (unpack_plain x)

theorem val_comp_of : val ∘ of = plain := rfl

theorem of_comp_plain : of ∘ plain = of := funext of_plain

/-- What is packed from alike numbers is one number. -/
theorem of_pack {u v : UnpackedFloat} (h : Alike u v) : of (pack u) = of (pack v) := by
  have hp := plain_pack h
  simp only [of, hp]

theorem ne_zero_of_pos {x : Float} (h : 0 < x) : ∀ s, unpack x ≠ .zero s := by
  intro s hs
  have hlt := lt_iff.1 h
  rw [hs] at hlt
  cases hlt

/-- **Taking the sign from a zero respects the operations of geometry.** -/
theorem hom : Scalar.Hom of where
  one := rfl
  half := rfl
  two := rfl
  add x y := of_pack ((unpack_plain x).symm.add (unpack_plain y).symm)
  sub x y := of_pack ((unpack_plain x).symm.sub (unpack_plain y).symm)
  mul x y := of_pack ((unpack_plain x).symm.mul (unpack_plain y).symm)
  div x y hy := by
    have hp : (of y).val = y := plain_of_ne_zero (ne_zero_of_pos hy)
    show of (x / y) = of ((of x).val / (of y).val)
    rw [hp]
    exact of_pack ((unpack_plain x).symm.div (ne_zero_of_pos hy))
  sqrt x := of_pack (unpack_plain x).symm.sqrt
  le x y := by
    show plain x ≤ plain y ↔ x ≤ y
    rw [le_iff, le_iff, (unpack_plain x).compare (unpack_plain y)]
  pos x := by
    show plain 0 < plain x ↔ 0 < x
    rw [lt_iff, lt_iff, (unpack_plain 0).compare (unpack_plain x)]
  beq x y := by
    show (plain x == plain y) = (x == y)
    rw [beq_eq, beq_eq, (unpack_plain x).compare (unpack_plain y)]
  half_pos := by decide
  two_pos := by decide

end Plain

theorem beq_plain (x y : Float) : (plain x == plain y) = (x == y) := Plain.hom.beq x y

/-- Numbers that differ in the sign of a zero at most are equal. -/
theorem separates_plain : Separates plain := by
  intro x y h hx
  rw [← beq_plain, ← h, beq_plain]
  exact hx

end StencilKit.Binary64
