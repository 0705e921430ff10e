/-
Rounding to the nearest double.

A double is the rounding of every rational that lies at most half a unit of its last place away, of
the two ends only if its significand is even, and below a power of two only half as far (`Nearest`).
Rounding works on a significand with two further bits, one for the next place and one for all places
below; these bits keep what is needed of a rational through every shift (`Represents`).

* `roundWithAccuracy_eq`: a rational near a double rounds to it, however many bits it is given by.
* `div_eq`, `mul_eq`: and so quotients and products are the doubles that they are near to.
-/
import Mathlib.Algebra.Order.Field.Basic
import Mathlib.Algebra.Order.Field.Power
import Mathlib.Tactic.FieldSimp
import Mathlib.Tactic.Linarith
import Mathlib.Tactic.NormNum
import Mathlib.Tactic.Ring
import StencilKit.Proofs.Binary64.Word

namespace StencilKit.Binary64

open Float.Model (Format totalExponent)
open Float.Model.UnpackedFloat

/-! ## Significands with a round bit and a sticky bit -/

/-- The rationals that an extended significand stands for, in units of its last place. -/
def Represents (em : ExtendedMantissa) (x : ℚ) : Prop :=
  ∃ f : ℚ, 0 ≤ f ∧ f < 1 ∧ 2 * x = 2 * em.mantissa + (if em.roundBit then 1 else 0) + f ∧
    (em.stickyBit = true ↔ f ≠ 0)

/-- What an accuracy says about the part of a rational above its significand. -/
def Accurate (r : ℚ) : Accuracy → Prop
  | .exact => r = 0
  | .inexact .lt => 0 < r ∧ r < 1 / 2
  | .inexact .eq => r = 1 / 2
  | .inexact .gt => 1 / 2 < r ∧ r < 1

theorem Accurate.nonneg {r : ℚ} {acc : Accuracy} (h : Accurate r acc) : 0 ≤ r ∧ r < 1 := by
  rcases acc with _ | o
  · rw [show r = 0 from h]
    norm_num
  · cases o with
    | lt => exact ⟨h.1.le, h.2.trans (by norm_num)⟩
    | eq =>
      rw [show r = 1 / 2 from h]
      norm_num
    | gt => exact ⟨by linarith [h.1], h.2⟩

theorem represents_ofMantissaAndAccuracy (m : Nat) {r : ℚ} {acc : Accuracy} (h : Accurate r acc) :
    Represents (.ofMantissaAndAccuracy m acc) (m + r) := by
  rcases acc with _ | o
  · exact ⟨0, le_refl _, by norm_num, by simp [ExtendedMantissa.ofMantissaAndAccuracy, show r = 0 from h],
      by simp [ExtendedMantissa.ofMantissaAndAccuracy]⟩
  · cases o with
    | lt =>
      refine ⟨2 * r, by linarith [h.1], by linarith [h.2], ?_, ?_⟩
      · simp only [ExtendedMantissa.ofMantissaAndAccuracy, Bool.false_eq_true, if_false]
        ring
      · simp [ExtendedMantissa.ofMantissaAndAccuracy, h.1.ne']
    | eq =>
      refine ⟨0, le_refl _, by norm_num, ?_, by simp [ExtendedMantissa.ofMantissaAndAccuracy]⟩
      simp only [ExtendedMantissa.ofMantissaAndAccuracy, if_true, show r = 1 / 2 from h]
      ring
    | gt =>
      refine ⟨2 * r - 1, by linarith [h.1], by linarith [h.2], ?_, ?_⟩
      · simp only [ExtendedMantissa.ofMantissaAndAccuracy, if_true]
        ring
      · have : 2 * r - 1 ≠ 0 := by linarith [h.1]
        simp [ExtendedMantissa.ofMantissaAndAccuracy, this]

/-- A shift by one place. -/
theorem Represents.shiftRightOne {em : ExtendedMantissa} {x : ℚ} (h : Represents em x) :
    Represents em.shiftRightOne (x / 2) := by
  obtain ⟨m, round, sticky⟩ := em
  obtain ⟨f, h₀, h₁, hx, hs⟩ := h
  have hm : (m : ℚ) = 2 * (m / 2 : Nat) + (m % 2 : Nat) := by
    exact_mod_cast (Nat.div_add_mod m 2).symm
  refine ⟨((if round then 1 else 0) + f) / 2, ?_, ?_, ?_, ?_⟩
  · cases round <;> simp <;> linarith
  · cases round <;> simp <;> linarith
  · simp only [ExtendedMantissa.shiftRightOne]
    simp only at hx
    rcases Nat.mod_two_eq_zero_or_one m with hbit | hbit
    · simp [hbit] at hm ⊢
      linarith
    · simp [hbit] at hm ⊢
      linarith
  · simp only [ExtendedMantissa.shiftRightOne, Bool.or_eq_true]
    simp only at hs
    cases round
    · simp [hs]
    · have : (1 + f) ≠ 0 := by linarith
      simp [this]

/-- A shift by several places. -/
theorem Represents.shiftRight {em : ExtendedMantissa} {x : ℚ} (h : Represents em x) (n : Nat) :
    Represents (em >>> n) (x / 2 ^ n) := by
  show Represents (n.repeat ExtendedMantissa.shiftRightOne em) _
  induction n with
  | zero => simpa [Nat.repeat] using h
  | succ n ih =>
    rw [Nat.repeat, pow_succ, ← div_div]
    exact ih.shiftRightOne

/-- The rounded significand is the whole number nearest to what is represented; of two equally near
ones it is the even one. -/
theorem Represents.roundedMantissa_eq {em : ExtendedMantissa} {x : ℚ} (h : Represents em x) {n : Nat}
    (hlow : 2 * (n : ℚ) - 1 ≤ 2 * x) (hhigh : 2 * x ≤ 2 * n + 1)
    (htie : n % 2 = 1 → 2 * (n : ℚ) - 1 < 2 * x ∧ 2 * x < 2 * n + 1) : em.roundedMantissa = n := by
  obtain ⟨m, round, sticky⟩ := em
  obtain ⟨f, h₀, h₁, hx, hs⟩ := h
  simp only at hx hs
  rw [hx] at hlow hhigh htie
  cases round
  · simp only [Bool.false_eq_true, if_false, add_zero] at hlow hhigh
    have hle : n ≤ m := by
      have : (n : ℚ) < m + 1 := by linarith
      exact_mod_cast Nat.lt_succ_iff.1 (by exact_mod_cast this)
    have hge : m ≤ n := by
      have : (m : ℚ) < n + 1 := by linarith
      exact_mod_cast Nat.lt_succ_iff.1 (by exact_mod_cast this)
    cases sticky <;>
      simp [ExtendedMantissa.roundedMantissa, ExtendedMantissa.accuracy, Accuracy.roundToNearestEven] <;> omega
  · simp only [if_true] at hlow hhigh htie
    cases sticky with
    | true =>
      have hf : 0 < f := lt_of_le_of_ne h₀ (Ne.symm (hs.1 rfl))
      have hle : n ≤ m + 1 := by
        have : (n : ℚ) < m + 1 + 1 := by linarith
        exact_mod_cast Nat.lt_succ_iff.1 (by exact_mod_cast this)
      have hge : m + 1 ≤ n := by
        have : (m : ℚ) < n := by linarith
        exact_mod_cast this
      simp [ExtendedMantissa.roundedMantissa, ExtendedMantissa.accuracy, Accuracy.roundToNearestEven]
      omega
    | false =>
      have hf : f = 0 := by simpa using hs
      subst hf
      have hle : n ≤ m + 1 := by
        have : (n : ℚ) ≤ m + 1 := by linarith
        exact_mod_cast this
      have hge : m ≤ n := by
        have : (m : ℚ) ≤ n := by linarith
        exact_mod_cast this
      have heven : n % 2 = 0 := by
        rcases Nat.mod_two_eq_zero_or_one n with h | h
        · exact h
        · obtain ⟨hl, hh⟩ := htie h
          have h₁ : (n : ℚ) < m + 1 := by linarith
          have h₂ : (m : ℚ) < n := by linarith
          have h₁ : n < m + 1 := by exact_mod_cast h₁
          have h₂ : m < n := by exact_mod_cast h₂
          omega
      simp [ExtendedMantissa.roundedMantissa, ExtendedMantissa.accuracy, Accuracy.roundToNearestEven]
      omega

/-! ## Rationals near a double -/

/-- The rationals that round to `m * 2 ^ e`. -/
structure Nearest (m : Nat) (e : Int) (x : ℚ) : Prop where
  low : (m - 1 / 2) * 2 ^ e ≤ x
  high : x ≤ (m + 1 / 2) * 2 ^ e
  /-- Below a power of two the doubles lie twice as close. -/
  tight : m = 2 ^ 52 → -1074 < e → (m - 1 / 4) * 2 ^ e ≤ x
  tie : m % 2 = 1 → (m - 1 / 2) * 2 ^ e < x ∧ x < (m + 1 / 2) * 2 ^ e

theorem Nearest.self (m : Nat) (e : Int) : Nearest m e (m * 2 ^ e) := by
  have hp : (0 : ℚ) < 2 ^ e := by positivity
  constructor
  · nlinarith
  · nlinarith
  · intros; nlinarith
  · intros; constructor <;> nlinarith

/-- The exponent that a number of the given size is rounded to. -/
theorem targetExponent_binary64 (t : Int) : Format.binary64.targetExponent t = max (t - 53) (-1074) := rfl

/-- The size of a canonical number asks for the exponent that it has. -/
theorem Canonical.targetExponent {m : Nat} {e : Int} (hc : Canonical m e) :
    Format.binary64.targetExponent (totalExponent m e) = e := by
  rw [targetExponent_binary64, totalExponent]
  have hpos := hc.pos
  have hlt : m.log2 < 53 := (Nat.log2_lt (by omega)).2 hc.lt
  have hleast := hc.least
  rcases hc.full with hfull | rfl
  · have : 52 ≤ m.log2 := (Nat.le_log2 (by omega)).2 hfull
    omega
  · omega

/-- A shift up to an exponent that is not below. -/
theorem shiftToExponent_eq {m : Nat} {e t : Int} {acc : Accuracy} (h : e ≤ t) :
    shiftToExponent m e acc t = (ExtendedMantissa.ofMantissaAndAccuracy m acc >>> (t - e).toNat, t) := by
  simp only [shiftToExponent, Prod.mk.injEq, true_and]
  omega

/-- The steps of a rounding, given what they come to. -/
theorem roundWithAccuracy_of {s : Sign} {M m R : Nat} {E T e : Int} {acc : Accuracy} (hm : 0 < m)
    (hT : Format.binary64.targetExponent (totalExponent M E) = T) (hE : E ≤ T)
    (hR : (ExtendedMantissa.ofMantissaAndAccuracy M acc >>> (T - E).toNat).roundedMantissa = R)
    (he : Format.binary64.targetExponent (totalExponent R T) = e) (hTe : T ≤ e)
    (hf : (ExtendedMantissa.ofMantissaAndAccuracy R .exact >>> (e - T).toNat).mantissa = m) :
    roundWithAccuracy Format.binary64 s M E acc = .finite s m e hm := by
  have h₁ : shiftToTargetExponent Format.binary64 M E acc =
      (ExtendedMantissa.ofMantissaAndAccuracy M acc >>> (T - E).toNat, T) :=
    (congrArg (shiftToExponent M E acc) hT).trans (shiftToExponent_eq hE)
  have h₂ : shiftToTargetExponent Format.binary64 R T .exact =
      (ExtendedMantissa.ofMantissaAndAccuracy R .exact >>> (e - T).toNat, e) :=
    (congrArg (shiftToExponent R T .exact) he).trans (shiftToExponent_eq hTe)
  unfold roundWithAccuracy
  rw [h₁]
  dsimp only
  rw [hR, h₂]
  dsimp only
  rw [dif_neg (hf.trans_ne hm.ne')]
  exact finite_eq_finite hf rfl

/-! ## Sizes -/

/-- The size of the whole part bounds a rational from above, -/
theorem lt_two_zpow {r : ℚ} (m : Nat) (e : Int) (hr : r < 1) :
    (m + r) * 2 ^ e < (2 : ℚ) ^ (m.log2 + 1 + e : Int) := by
  have hp : (0 : ℚ) < 2 ^ e := by positivity
  have hm : (m : ℚ) + 1 ≤ 2 ^ (m.log2 + 1) := by exact_mod_cast (Nat.lt_log2_self : m < 2 ^ (m.log2 + 1))
  have hsplit : (2 : ℚ) ^ (m.log2 + 1 + e : Int) = 2 ^ (m.log2 + 1) * 2 ^ e := by
    rw [zpow_add₀ (by norm_num)]
    norm_cast
  rw [hsplit]
  exact mul_lt_mul_of_pos_right (by linarith) hp

/-- and from below, if there is one. -/
theorem two_zpow_le {r : ℚ} {m : Nat} (hm : m ≠ 0) (e : Int) (hr : 0 ≤ r) :
    (2 : ℚ) ^ (m.log2 + e : Int) ≤ (m + r) * 2 ^ e := by
  have hp : (0 : ℚ) < 2 ^ e := by positivity
  have hlow : (2 : ℚ) ^ m.log2 ≤ m := by exact_mod_cast Nat.log2_self_le hm
  rw [zpow_add₀ (by norm_num), zpow_natCast]
  exact mul_le_mul_of_nonneg_right (by linarith) hp.le

/-- On a grid that is finer than the double's own, a rational that is near to the double and has no more
bits than a double lies just below a power of two, which is the double. -/
theorem Nearest.finer {m : Nat} {e T : Int} {x : ℚ} (hc : Canonical m e) (hx : Nearest m e x) (hT : -1074 ≤ T)
    (hlt : T < e) (hupper : x < 2 ^ (53 + T)) :
    m = 2 ^ 52 ∧ T = e - 1 ∧ 2 ^ 53 - 1 / 2 ≤ x / 2 ^ T ∧ x / 2 ^ T < 2 ^ 53 := by
  have hp : (0 : ℚ) < 2 ^ e := by positivity
  have hpT : (0 : ℚ) < 2 ^ T := by positivity
  have hfull : 2 ^ 52 ≤ m := hc.full.resolve_right (by omega)
  have hbelow : x < 2 ^ 52 * 2 ^ e := by
    refine hupper.trans_le ?_
    rw [show (2 : ℚ) ^ 52 * 2 ^ e = 2 ^ (52 + e) by rw [zpow_add₀ (by norm_num)]; norm_cast]
    exact zpow_le_zpow_right₀ (by norm_num) (by omega)
  have hm : m = 2 ^ 52 := by
    by_contra hne
    have hgt : (2 : ℚ) ^ 52 + 1 ≤ m := by exact_mod_cast (by omega : 2 ^ 52 + 1 ≤ m)
    nlinarith [hx.low]
  have habove := hx.tight hm (by omega)
  rw [hm] at habove
  push_cast at habove
  have hTe : T = e - 1 := by
    have hsizes : (2 : ℚ) ^ (51 + e : Int) < 2 ^ (53 + T) := by
      refine lt_of_lt_of_le ?_ (habove.trans hupper.le)
      rw [zpow_add₀ (by norm_num)]
      exact mul_lt_mul_of_pos_right (by norm_num) hp
    have hexponents := (zpow_lt_zpow_iff_right₀ (by norm_num)).1 hsizes
    omega
  have hdouble : (2 : ℚ) ^ e = 2 * 2 ^ T := by
    rw [hTe, zpow_sub_one₀ (by norm_num)]
    field_simp
  rw [zpow_add₀ (by norm_num)] at hupper
  refine ⟨hm, hTe, (le_div_iff₀ hpT).2 ?_, (div_lt_iff₀ hpT).2 (by exact_mod_cast hupper)⟩
  rw [hdouble] at habove
  linarith

/-- A rational that is near to a double has no more bits. -/
theorem Nearest.lt_two_zpow {m : Nat} {e : Int} {x : ℚ} (hc : Canonical m e) (hx : Nearest m e x) :
    x < 2 ^ (53 + e) := by
  have hp : (0 : ℚ) < 2 ^ e := by positivity
  have hm : (m : ℚ) + 1 ≤ 2 ^ (53 : Int) := by exact_mod_cast hc.lt
  rw [zpow_add₀ (by norm_num)]
  nlinarith [hx.high]

/-- **A rational near a double rounds to it**, by however many bits it is given. -/
theorem roundWithAccuracy_eq {s : Sign} {M m : Nat} {E e : Int} {r : ℚ} {acc : Accuracy}
    (hc : Canonical m e) (hr : Accurate r acc)
    (hE : E ≤ Format.binary64.targetExponent (totalExponent M E)) (hx : Nearest m e ((M + r) * 2 ^ E)) :
    roundWithAccuracy Format.binary64 s M E acc = .finite s m e hc.pos := by
  obtain ⟨T, hT⟩ : ∃ T, T = Format.binary64.targetExponent (totalExponent M E) := ⟨_, rfl⟩
  rw [← hT] at hE
  have hTmax : T = max ((M.log2 + 1 + E : Int) - 53) (-1074) := by rw [hT, targetExponent_binary64, totalExponent]
  obtain ⟨hr₀, hr₁⟩ := hr.nonneg
  have hupper : (M + r) * 2 ^ E < (2 : ℚ) ^ (M.log2 + 1 + E : Int) := Binary64.lt_two_zpow M E hr₁
  have hrep : Represents (ExtendedMantissa.ofMantissaAndAccuracy M acc >>> (T - E).toNat)
      ((M + r) * 2 ^ E / 2 ^ T) := by
    have h := (represents_ofMantissaAndAccuracy M hr).shiftRight (T - E).toNat
    have hpE : (2 : ℚ) ^ E ≠ 0 := by positivity
    have hpow : (2 : ℚ) ^ T = 2 ^ (T - E).toNat * 2 ^ E := by
      rw [← zpow_natCast, ← zpow_add₀ (by norm_num)]
      congr 1
      omega
    rwa [hpow, mul_div_mul_right _ _ hpE]
  rcases lt_trichotomy T e with hlt | rfl | hgt
  · -- Finer than the double.
    have hbits : (2 : ℚ) ^ (M.log2 + 1 + E : Int) ≤ 2 ^ (53 + T) := zpow_le_zpow_right₀ (by norm_num) (by omega)
    obtain ⟨rfl, hTe, hlow, hhigh⟩ := hx.finer hc (by omega) hlt (hupper.trans_le hbits)
    have hR : (ExtendedMantissa.ofMantissaAndAccuracy M acc >>> (T - E).toNat).roundedMantissa = 2 ^ 53 := by
      refine hrep.roundedMantissa_eq ?_ ?_ fun h => absurd h (by decide)
      · push_cast; linarith
      · push_cast; linarith
    refine roundWithAccuracy_of _ hT.symm hE hR ?_ hlt.le ?_
    · rw [targetExponent_binary64, totalExponent, Nat.log2_two_pow]
      omega
    · have hone : (e - T).toNat = 1 := by omega
      rw [hone]
      rfl
  · have hp : (0 : ℚ) < 2 ^ T := by positivity
    have hlow : (m - 1 / 2 : ℚ) ≤ (M + r) * 2 ^ E / 2 ^ T := (le_div_iff₀ hp).2 hx.low
    have hhigh : (M + r) * 2 ^ E / 2 ^ T ≤ (m + 1 / 2 : ℚ) := (div_le_iff₀ hp).2 hx.high
    have hR : (ExtendedMantissa.ofMantissaAndAccuracy M acc >>> (T - E).toNat).roundedMantissa = m := by
      refine hrep.roundedMantissa_eq (by linarith) (by linarith) ?_
      intro hodd
      have h₁ : (m - 1 / 2 : ℚ) < (M + r) * 2 ^ E / 2 ^ T := (lt_div_iff₀ hp).2 (hx.tie hodd).1
      have h₂ : (M + r) * 2 ^ E / 2 ^ T < (m + 1 / 2 : ℚ) := (div_lt_iff₀ hp).2 (hx.tie hodd).2
      exact ⟨by linarith, by linarith⟩
    refine roundWithAccuracy_of _ hT.symm hE hR hc.targetExponent (le_refl _) ?_
    rw [Int.sub_self]
    rfl
  · -- Coarser than the double: then the rational has one more bit than the double.
    exfalso
    have hleast := hc.least
    have hM : M ≠ 0 := by
      rintro rfl
      simp only [Nat.log2_zero] at hTmax
      omega
    have hsizes := (two_zpow_le hM E hr₀).trans_lt (hx.lt_two_zpow hc)
    have hexponents := (zpow_lt_zpow_iff_right₀ (by norm_num)).1 hsizes
    omega

/-! ## Quotients and products -/

theorem accurate_accuracyOfFraction {num den : Nat} (h : num < den) :
    Accurate ((num : ℚ) / den) (accuracyOfFraction num den) := by
  have hd : (0 : ℚ) < den := by exact_mod_cast (by omega : 0 < den)
  unfold accuracyOfFraction
  by_cases h₀ : num = 0
  · simp [h₀, Accurate]
  · rw [if_neg h₀]
    have hn : (0 : ℚ) < num := by exact_mod_cast Nat.pos_of_ne_zero h₀
    rcases Nat.lt_trichotomy (2 * num) den with hlt | heq | hgt
    · rw [Nat.compare_eq_lt.2 hlt]
      have : (2 : ℚ) * num < den := by exact_mod_cast hlt
      exact ⟨by positivity, by rw [div_lt_div_iff₀ hd (by norm_num)]; linarith⟩
    · rw [Nat.compare_eq_eq.2 heq]
      have : (2 : ℚ) * num = den := by exact_mod_cast heq
      show (num : ℚ) / den = 1 / 2
      rw [div_eq_div_iff hd.ne' (by norm_num)]
      linarith
    · rw [Nat.compare_eq_gt.2 hgt]
      have : (den : ℚ) < 2 * num := by exact_mod_cast hgt
      have h' : (num : ℚ) < den := by exact_mod_cast h
      exact ⟨by rw [div_lt_div_iff₀ (by norm_num) hd]; linarith, (div_lt_one hd).2 h'⟩

/-- **A quotient is the double that it is near to.** -/
theorem div_eq {s₁ s₂ : Sign} {m₁ m₂ m : Nat} {e₁ e₂ e : Int} {h₁ : 0 < m₁} {h₂ : 0 < m₂} (hc : Canonical m e)
    (hx : Nearest m e (m₁ * 2 ^ e₁ / (m₂ * 2 ^ e₂))) :
    div Format.binary64 (.finite s₁ m₁ e₁ h₁) (.finite s₂ m₂ e₂ h₂) = .finite (s₁ / s₂) m e hc.pos := by
  obtain ⟨E, hE⟩ : ∃ E, E = min (e₁ - e₂)
      (Format.binary64.targetExponent (totalExponent m₁ e₁ - totalExponent m₂ e₂)) := ⟨_, rfl⟩
  obtain ⟨M, hM⟩ : ∃ M, M = m₁ <<< (e₁ - e₂ - E).toNat := ⟨_, rfl⟩
  show roundWithAccuracy Format.binary64 (s₁ / s₂) _ _ _ = _
  rw [← hE, ← hM]
  have hm₂ : (0 : ℚ) < m₂ := by exact_mod_cast h₂
  have hr := accurate_accuracyOfFraction (Nat.mod_lt M h₂)
  -- The quotient and what the remainder adds to it are the exact quotient.
  have hMq : (M : ℚ) = m₁ * 2 ^ (e₁ - e₂ - E) := by
    rw [hM, Nat.shiftLeft_eq]
    push_cast
    congr 1
    rw [← zpow_natCast]
    congr 1
    omega
  have hval : ((M / m₂ : Nat) + (M % m₂ : Nat) / m₂ : ℚ) * 2 ^ E = m₁ * 2 ^ e₁ / (m₂ * 2 ^ e₂) := by
    have hdiv : (m₂ : ℚ) * (M / m₂ : Nat) + (M % m₂ : Nat) = M := by exact_mod_cast Nat.div_add_mod M m₂
    have hq : ((M / m₂ : Nat) + (M % m₂ : Nat) / m₂ : ℚ) = M / m₂ := by
      rw [eq_div_iff hm₂.ne', add_mul, div_mul_cancel₀ _ hm₂.ne', mul_comm, hdiv]
    rw [hq, hMq, zpow_sub₀ (by norm_num), zpow_sub₀ (by norm_num)]
    field_simp
  refine roundWithAccuracy_eq hc hr ?_ (hval ▸ hx)
  -- The quotient has at least as many bits as were asked for.
  have hsize : totalExponent m₁ e₁ - totalExponent m₂ e₂ ≤ totalExponent (M / m₂) E := by
    have hnum : (2 : ℚ) ^ (m₁.log2 + e₁ : Int) ≤ m₁ * 2 ^ e₁ := by
      simpa using two_zpow_le h₁.ne' e₁ (le_refl (0 : ℚ))
    have hden : (m₂ : ℚ) * 2 ^ e₂ < 2 ^ (m₂.log2 + 1 + e₂ : Int) := by
      simpa using lt_two_zpow m₂ e₂ (zero_lt_one : (0 : ℚ) < 1)
    have hlow : (2 : ℚ) ^ (m₁.log2 + e₁ - (m₂.log2 + 1 + e₂) : Int) ≤ m₁ * 2 ^ e₁ / (m₂ * 2 ^ e₂) := by
      rw [zpow_sub₀ (by norm_num)]
      exact div_le_div₀ (by positivity) hnum (by positivity) hden.le
    have hhigh : m₁ * 2 ^ e₁ / (m₂ * 2 ^ e₂) < (2 : ℚ) ^ ((M / m₂).log2 + 1 + E : Int) :=
      hval ▸ lt_two_zpow (M / m₂) E hr.nonneg.2
    have := (zpow_lt_zpow_iff_right₀ (by norm_num)).1 (hlow.trans_lt hhigh)
    simp only [totalExponent]
    omega
  rw [targetExponent_binary64] at hE ⊢
  omega

/-- **A product is the double that it is near to**, given that it has enough bits. -/
theorem mul_eq {s₁ s₂ : Sign} {m₁ m₂ m : Nat} {e₁ e₂ e : Int} {h₁ : 0 < m₁} {h₂ : 0 < m₂} (hc : Canonical m e)
    (hbits : 2 ^ 52 ≤ m₁ * m₂) (hx : Nearest m e (m₁ * 2 ^ e₁ * (m₂ * 2 ^ e₂))) :
    mul Format.binary64 (.finite s₁ m₁ e₁ h₁) (.finite s₂ m₂ e₂ h₂) = .finite (s₁ * s₂) m e hc.pos := by
  have hlog : 52 ≤ (m₁ * m₂).log2 := (Nat.le_log2 (by positivity)).2 hbits
  have hr : Accurate 0 .exact := rfl
  refine roundWithAccuracy_eq hc hr ?_ ?_
  · rw [targetExponent_binary64, totalExponent]
    omega
  · have : ((m₁ * m₂ : Nat) + 0 : ℚ) * 2 ^ (e₁ + e₂) = m₁ * 2 ^ e₁ * (m₂ * 2 ^ e₂) := by
      rw [zpow_add₀ (by norm_num)]
      push_cast
      ring
    rwa [this]

end StencilKit.Binary64
