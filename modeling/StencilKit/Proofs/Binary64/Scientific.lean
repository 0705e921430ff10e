/-
The double of a decimal.

A decimal of few digits and a small exponent is computed with two doubles, one for the coefficient
and one for the power of ten, both of which are exact; any other with the coefficient and the power
as they are. Either way a single quotient or product is rounded, so the result is the double that
the decimal is near to (`unpack_ofScientific`).
-/
import StencilKit.Proofs.Binary64.Rounding

namespace StencilKit.Binary64

open Float.Model (Format UnpackedFloat totalExponent)
open Float.Model.UnpackedFloat

/-! ## Whole numbers -/

/-- A number of at most 53 bits is a double, and its significand is full. -/
theorem unpack_toUInt64_toFloat {c : Nat} (hpos : 0 < c) (hlt : c < 2 ^ 53) :
    ∃ m e, ∃ hc : Canonical m e, unpack c.toUInt64.toFloat = .finite .positive m e hc.pos ∧
      (m * 2 ^ e : ℚ) = c ∧ 2 ^ 52 ≤ m := by
  obtain ⟨L, hL⟩ : ∃ L, L = c.log2 := ⟨_, rfl⟩
  have hLlt : L < 53 := by rw [hL]; exact (Nat.log2_lt hpos.ne').2 hlt
  have hlow : 2 ^ L ≤ c := by rw [hL]; exact Nat.log2_self_le hpos.ne'
  have hhigh : c < 2 ^ (L + 1) := by rw [hL]; exact Nat.lt_log2_self
  have hm : 2 ^ 52 ≤ c <<< (52 - L) ∧ c <<< (52 - L) < 2 ^ 53 := by
    rw [Nat.shiftLeft_eq]
    constructor
    · calc 2 ^ 52 = 2 ^ L * 2 ^ (52 - L) := by rw [← Nat.pow_add]; congr 1; omega
        _ ≤ c * 2 ^ (52 - L) := Nat.mul_le_mul_right _ hlow
    · calc c * 2 ^ (52 - L) < 2 ^ (L + 1) * 2 ^ (52 - L) := Nat.mul_lt_mul_of_pos_right hhigh (Nat.two_pow_pos _)
        _ = 2 ^ 53 := by rw [← Nat.pow_add]; congr 1; omega
  have hc : Canonical (c <<< (52 - L)) ((L : Int) - 52) := ⟨by omega, hm.2, by omega, by omega, .inl hm.1⟩
  have hround : Float.Model.UnpackedFloat.ofNat Format.binary64 c =
      .finite .positive (c <<< (52 - L)) ((L : Int) - 52) hc.pos := by
    have hgt : compare (c : Int) 0 = .gt := by
      rw [Int.compare_eq_gt]; omega
    have ht : Format.binary64.targetExponent (totalExponent c 0) = (L : Int) - 52 := by
      rw [targetExponent_binary64, totalExponent]; omega
    have hshift : (0 - ((L : Int) - 52)).toNat = 52 - L := by omega
    have he : (0 : Int) - ((52 - L : Nat) : Int) = (L : Int) - 52 := by omega
    have hshifted : Float.Model.UnpackedFloat.ofNat Format.binary64 c =
        roundWithAccuracy Format.binary64 .positive (c <<< (52 - L)) ((L : Int) - 52) .exact := by
      simp only [UnpackedFloat.ofNat, ofInt, UnpackedFloat.normalize, hgt, UnpackedFloat.round, Int.toNat_natCast,
        ht, decreaseExponent, hshift, he]
    have hr : Accurate 0 .exact := rfl
    rw [hshifted]
    refine roundWithAccuracy_eq hc hr hc.targetExponent.ge ?_
    rw [add_zero]
    exact .self _ _
  refine ⟨_, _, hc, ?_, ?_, hm.1⟩
  · have hn : c.toUInt64.toNat = c := by
      simp only [Nat.toUInt64_eq, UInt64.toNat_ofNat']
      omega
    show unpack (pack (Float.Model.UnpackedFloat.ofNat Format.binary64 c.toUInt64.toNat)) = _
    rw [hn, hround, unpack_pack_finite hc]
  · rw [Nat.shiftLeft_eq, show ((L : Int) - 52) = -((52 - L : Nat) : Int) by omega, zpow_neg, zpow_natCast]
    push_cast
    rw [mul_assoc, mul_inv_cancel₀ (by positivity), mul_one]

/-! ## Powers of ten -/

/-- Whether a double is the given power of ten. -/
def isPowerOfTen (x : Float) (k : Nat) : Bool :=
  match unpack x with
  | .finite .positive m e _ => m * 2 ^ e.toNat == 10 ^ k * 2 ^ (-e).toNat
  | _ => false

theorem isPowerOfTen_exactlyRepresentable :
    ∀ k : Fin Float.exactlyRepresentablePowersOfTen.size,
      isPowerOfTen Float.exactlyRepresentablePowersOfTen[k] k := by
  decide +kernel

theorem unpack_of_isPowerOfTen {x : Float} {k : Nat} (h : isPowerOfTen x k) :
    ∃ m e, ∃ hc : Canonical m e, unpack x = .finite .positive m e hc.pos ∧ (m * 2 ^ e : ℚ) = 10 ^ k := by
  unfold isPowerOfTen at h
  generalize hx : unpack x = u at h
  rcases u with s | _ | s | ⟨s, m, e, hm⟩
  · cases h
  · cases h
  · cases h
  cases s with
  | negative => cases h
  | positive =>
    refine ⟨m, e, canonical_of_unpack hx, rfl, ?_⟩
    have h' : (m * 2 ^ e.toNat : ℚ) = 10 ^ k * 2 ^ (-e).toNat := by exact_mod_cast beq_iff_eq.1 h
    rcases Int.le_total 0 e with he | he
    · rw [show (-e).toNat = 0 by omega, pow_zero, mul_one] at h'
      rw [← h', ← zpow_natCast, Int.toNat_of_nonneg he]
    · rw [show e.toNat = 0 by omega, pow_zero, mul_one] at h'
      rw [h', ← zpow_natCast (2 : ℚ), Int.toNat_of_nonneg (by omega), mul_assoc, ← zpow_add₀ (by norm_num)]
      simp

/-! ## Decimals -/

theorem unpack_div {x y : Float} {s₁ s₂ : Sign} {m₁ m₂ m : Nat} {e₁ e₂ e : Int} {h₁ : 0 < m₁} {h₂ : 0 < m₂}
    (hx : unpack x = .finite s₁ m₁ e₁ h₁) (hy : unpack y = .finite s₂ m₂ e₂ h₂) (hc : Canonical m e)
    (hn : Nearest m e (m₁ * 2 ^ e₁ / (m₂ * 2 ^ e₂))) : unpack (x / y) = .finite (s₁ / s₂) m e hc.pos := by
  show unpack (pack (div Format.binary64 (unpack x) (unpack y))) = _
  rw [hx, hy, div_eq hc hn, unpack_pack_finite hc]

theorem unpack_mul {x y : Float} {s₁ s₂ : Sign} {m₁ m₂ m : Nat} {e₁ e₂ e : Int} {h₁ : 0 < m₁} {h₂ : 0 < m₂}
    (hx : unpack x = .finite s₁ m₁ e₁ h₁) (hy : unpack y = .finite s₂ m₂ e₂ h₂) (hbits : 2 ^ 52 ≤ m₁ * m₂)
    (hc : Canonical m e) (hn : Nearest m e (m₁ * 2 ^ e₁ * (m₂ * 2 ^ e₂))) :
    unpack (x * y) = .finite (s₁ * s₂) m e hc.pos := by
  show unpack (pack (mul Format.binary64 (unpack x) (unpack y))) = _
  rw [hx, hy, mul_eq hc hbits hn, unpack_pack_finite hc]

/-- A decimal with the coefficient and the power of ten as they are. -/
theorem ofScientific_eq {c m : Nat} {e z : Int} (hpos : 0 < c) (hc : Canonical m e)
    (hlow : -(2048 + c.log2) ≤ z) (hhigh : z ≤ 2048) (hn : Nearest m e (c * 10 ^ z)) :
    Float.Model.UnpackedFloat.ofScientific Format.binary64 c z = .finite .positive m e hc.pos := by
  have hlimit : ¬ z > 2 ^ Format.binary64.exponentBits := by
    show ¬ z > 2048
    omega
  have hlimit' : ¬ z < -((2 ^ Format.binary64.exponentBits : Int) + c.log2) := by
    show ¬ z < -((2048 : Int) + c.log2)
    omega
  unfold Float.Model.UnpackedFloat.ofScientific
  rw [dif_neg hpos.ne', if_neg hlimit, if_neg hlimit']
  by_cases hz : 0 ≤ z
  · rw [if_pos hz]
    refine mul_eq hc ?_ ?_
    · rw [Nat.shiftLeft_eq]
      have h10 : 0 < 10 ^ z.toNat := Nat.pow_pos (by decide)
      calc 2 ^ 52 ≤ 1 * 2 ^ 53 * 1 := by decide
        _ ≤ c * 2 ^ 53 * 10 ^ z.toNat := Nat.mul_le_mul (Nat.mul_le_mul_right _ hpos) h10
    · have hv : ((c <<< Format.binary64.mantissaBits : Nat) : ℚ) * 2 ^ (-(Format.binary64.mantissaBits : Int)) *
          ((10 ^ z.toNat : Nat) * 2 ^ (0 : Int)) = c * 10 ^ z := by
        rw [Nat.shiftLeft_eq, zpow_neg, zpow_natCast, zpow_zero, mul_one]
        push_cast
        rw [mul_assoc (c : ℚ), mul_inv_cancel₀ (by positivity), mul_one, ← zpow_natCast, Int.toNat_of_nonneg hz]
      rw [hv]
      exact hn
  · rw [if_neg hz]
    refine div_eq hc ?_
    have hv : ((c : ℚ) * 2 ^ (0 : Int)) / ((10 ^ (-z).toNat : Nat) * 2 ^ (0 : Int)) = c * 10 ^ z := by
      rw [zpow_zero, mul_one, mul_one, div_eq_mul_inv]
      push_cast
      rw [← zpow_natCast, ← zpow_neg, Int.toNat_of_nonneg (by omega), neg_neg]
    rw [hv]
    exact hn

/-- **A decimal is read as the double that it is near to.** -/
theorem unpack_ofScientific {c k m : Nat} {e : Int} {neg : Bool} (hpos : 0 < c) (hc : Canonical m e)
    (hk : k ≤ 2048 + if neg then c.log2 else 0) (hn : Nearest m e (c * 10 ^ (if neg then -k else k : Int))) :
    unpack (Float.ofScientific c neg k) = .finite .positive m e hc.pos := by
  unfold Float.ofScientific
  by_cases hfast : c < 2 ^ 53 ∧ k ≤ 22
  · rw [dif_pos hfast]
    obtain ⟨m₁, e₁, hc₁, hx, hv₁, hfull⟩ := unpack_toUInt64_toFloat hpos hfast.1
    have hk' : k < Float.exactlyRepresentablePowersOfTen.size := Nat.lt_succ_of_le hfast.2
    obtain ⟨m₂, e₂, hc₂, hy, hv₂⟩ := unpack_of_isPowerOfTen (isPowerOfTen_exactlyRepresentable ⟨k, hk'⟩)
    cases neg with
    | true =>
      rw [if_pos rfl, zpow_neg, zpow_natCast, ← div_eq_mul_inv] at hn
      exact unpack_div hx hy hc (by rw [hv₁, hv₂]; exact hn)
    | false =>
      rw [if_neg Bool.false_ne_true, zpow_natCast] at hn
      refine unpack_mul hx hy ?_ hc (by rw [hv₁, hv₂]; exact hn)
      exact hfull.trans (Nat.le_mul_of_pos_right _ hc₂.pos)
  · rw [dif_neg hfast]
    have hz : (if neg then Int.negOfNat k else Int.ofNat k) = (if neg then -k else k : Int) := by
      cases neg with
      | true => cases k <;> rfl
      | false => rfl
    show unpack (pack (Float.Model.UnpackedFloat.ofScientific Format.binary64 c
      (if neg then Int.negOfNat k else Int.ofNat k))) = _
    rw [hz, ofScientific_eq hpos hc ?_ ?_ hn, unpack_pack_finite hc]
    · cases neg
      · simp
        omega
      · simp at hk ⊢
        omega
    · cases neg
      · simpa using hk
      · simp

end StencilKit.Binary64
