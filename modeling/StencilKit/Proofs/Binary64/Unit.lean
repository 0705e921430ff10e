/-
What zero and one do to doubles.

A double times one is the double, zero and a double are the double but for the sign of a zero, and a
positive finite double over itself is one. Doubles that are equal differ in the sign of a zero at most.
-/
import StencilKit.Proofs.Binary64.Plain
import StencilKit.Proofs.Binary64.Rounding

namespace StencilKit.Binary64

open Float.Model (Format UnpackedFloat)
open Float.Model.UnpackedFloat (Sign)

theorem unpack_one : unpack 1.0 = .finite .positive (2 ^ 52) (-52) (Nat.two_pow_pos 52) := rfl

/-- **One changes nothing**, not even the sign of a zero. -/
theorem mul_one (x : Float) : x * 1.0 = x := by
  refine ext_unpack ?_
  show unpack (pack (.mul Format.binary64 (unpack x) (unpack 1.0))) = unpack x
  rw [unpack_one]
  rcases hx : unpack x with s | _ | s | ⟨s, m, e, hm⟩
  · cases s <;> rfl
  · rfl
  · cases s <;> rfl
  · have hc := canonical_of_unpack hx
    have hbits : 2 ^ 52 ≤ m * 2 ^ 52 := Nat.le_mul_of_pos_left _ hm
    have hnear : Nearest m e (m * 2 ^ e * (((2 ^ 52 : Nat) : ℚ) * 2 ^ (-52 : Int))) := by
      have hone : ((2 ^ 52 : Nat) : ℚ) * 2 ^ (-52 : Int) = 1 := by norm_num
      rw [hone, MulOneClass.mul_one]
      exact Nearest.self m e
    rw [mul_eq hc hbits hnear, unpack_pack_finite hc]
    cases s <;> rfl

/-- **Zero changes the sign of a zero at most.** -/
theorem zero_add (x : Float) : plain (0.0 + x) = plain x := by
  refine plain_eq_of_alike ?_
  show Alike (unpack (pack (.add Format.binary64 (.zero .positive) (unpack x)))) (unpack x)
  rcases hx : unpack x with s | _ | s | ⟨s, m, e, hm⟩
  · cases s <;> exact .same _
  · exact .same _
  · cases s <;> exact .zeros _ _
  · have hsum : UnpackedFloat.add Format.binary64 (.zero .positive) (.finite s m e hm) = .finite s m e hm := rfl
    rw [hsum, unpack_pack_finite (canonical_of_unpack hx)]
    exact .same _

/-- Unpacked numbers that compare as equal. -/
theorem alike_of_compare {u v : UnpackedFloat} (h : u.compare v = some .eq) : Alike u v := by
  cases u with
  | notANumber => cases h
  | infinity s =>
    cases v with
    | infinity t => cases s <;> cases t <;> first | exact .same _ | cases h
    | _ => cases s <;> cases h
  | zero s =>
    cases v with
    | notANumber => cases h
    | infinity t => cases t <;> cases h
    | zero t => exact .zeros s t
    | finite t n k hn => cases t <;> cases h
  | finite s m e hm =>
    cases v with
    | notANumber => cases s <;> cases h
    | infinity t => cases s <;> cases t <;> cases h
    | zero t => cases s <;> cases h
    | finite t n k hn =>
      have hfields : s = t ∧ (compare e k).then (compare m n) = .eq := by
        cases s <;> cases t
        · exact ⟨rfl, Ordering.swap_inj.1 (Option.some.inj h)⟩
        · cases h
        · cases h
        · exact ⟨rfl, Option.some.inj h⟩
      obtain ⟨rfl, hfields⟩ := hfields
      obtain ⟨he, hm'⟩ := Ordering.then_eq_eq.1 hfields
      obtain rfl := Std.LawfulEqOrd.eq_of_compare he
      obtain rfl := Std.LawfulEqOrd.eq_of_compare hm'
      exact .same _

/-- **Equal doubles differ in the sign of a zero at most.** -/
theorem plain_eq_of_beq {x y : Float} (h : (x == y) = true) : plain x = plain y :=
  plain_eq_of_alike (alike_of_compare (beq_iff_eq.1 (beq_eq x y ▸ h)))

end StencilKit.Binary64
