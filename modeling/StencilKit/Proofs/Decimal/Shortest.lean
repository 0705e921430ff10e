/-
The digits of a double round to it.

The search for the shortest decimal goes from a coarse grid to finer ones. It ends, since the
magnitude itself lies on one of the grids that it visits (`exists_onGrid?`), and what it ends with
rounds to the magnitude, because nothing else is taken from a grid (`admits_of_onGrid?`).
-/
import Mathlib.Data.Nat.Log
import StencilKit.Decimal.Shortest
import StencilKit.Proofs.Binary64.Rounding

namespace StencilKit.Decimal

namespace Binary

variable {b : Binary} {e : Int} {c : Nat}

/-! ## The search -/

/-- Only points that round to the magnitude are taken from a grid. -/
theorem admits_of_onGrid? (h : b.onGrid? e = some c) : b.admits e c = true := by
  unfold onGrid? at h
  dsimp only at h
  split at h
  · rename_i h₀ h₁
    split at h <;> cases h
    · exact h₁
    · exact h₀
  · rename_i h₀ _
    cases h
    exact h₀
  · rename_i _ h₁
    cases h
    exact h₁
  · cases h

theorem unitSpan_pos (b : Binary) (e : Int) : 0 < b.unitSpan e :=
  Nat.mul_pos (Nat.pow_pos (by decide)) (Nat.pow_pos (by decide))

/-- A point of the grid at the magnitude itself rounds to it. -/
theorem admits_of_eq (hsig : 0 < b.sig) (h : c * b.gridSpan e = b.mid * b.unitSpan e) :
    b.admits e c = true := by
  have hlow : b.low < b.mid := by
    unfold low mid
    split <;> omega
  have hhigh : b.mid < b.high := Nat.lt_add_of_pos_right (by decide)
  have hlow' := Nat.mul_lt_mul_of_pos_right hlow (b.unitSpan_pos e)
  have hhigh' := Nat.mul_lt_mul_of_pos_right hhigh (b.unitSpan_pos e)
  simp only [admits, h]
  split
  · simp [hlow'.le, hhigh'.le]
  · simp [hlow', hhigh']

/-- The magnitude is a point of the grid at `min exp 0`. -/
theorem gridSpan_dvd (b : Binary) : b.gridSpan (min b.exp 0) ∣ b.mid * b.unitSpan (min b.exp 0) := by
  unfold gridSpan unitSpan mid
  simp only [Nat.pow_eq]
  rcases Int.le_total 0 b.exp with h | h
  · rw [Int.min_eq_right h]
    simp only [Int.toNat_zero, pow_zero, one_mul, neg_zero]
    have h4 : 2 ^ (2 - b.exp).toNat ∣ 4 := pow_dvd_pow 2 (by omega : (2 - b.exp).toNat ≤ 2)
    exact (h4.mul_right _).mul_right _
  · have hten : (10 : Nat) ^ (-b.exp).toNat = 2 ^ (-b.exp).toNat * 5 ^ (-b.exp).toNat := mul_pow 2 5 _
    rw [Int.min_eq_left h, show (b.exp - 2).toNat = 0 by omega, show b.exp.toNat = 0 by omega,
      show (2 - b.exp).toNat = 2 + (-b.exp).toNat by omega, hten]
    exact ⟨b.sig * 5 ^ (-b.exp).toNat, by ring⟩

theorem onGrid?_min (hsig : 0 < b.sig) : (b.onGrid? (min b.exp 0)).isSome := by
  have hc : b.admits (min b.exp 0) (b.mid * b.unitSpan (min b.exp 0) / b.gridSpan (min b.exp 0)) = true :=
    admits_of_eq hsig (Nat.div_mul_cancel b.gridSpan_dvd)
  unfold onGrid?
  dsimp only
  rw [hc]
  split
  · split <;> rfl
  · rfl
  · rename_i h _
    cases h
  · rename_i h _
    cases h

/-- The search finds a point as soon as one of the grids that it visits has one. -/
theorem search_isSome {e' : Int} (h : (b.onGrid? e').isSome) :
    ∀ (steps : Nat) {e : Int}, e' ≤ e → e < e' + steps →
      ∃ g, b.search steps e = some g ∧ b.onGrid? g.exp = some g.coeff := by
  intro steps
  induction steps with
  | zero => intro e h₁ h₂; omega
  | succ steps ih =>
    intro e h₁ h₂
    simp only [search]
    split
    · rename_i c hc
      exact ⟨⟨c, e⟩, rfl, hc⟩
    · rename_i hn
      have : e' ≠ e := by
        rintro rfl
        rw [hn] at h
        cases h
      exact ih (by omega) (by omega)

/-- **The shortest decimal rounds to the magnitude**, and it is not zero. -/
theorem admits_shortest (hsig : 0 < b.sig) :
    b.admits b.shortest.exp b.shortest.coeff = true ∧ 0 < b.shortest.coeff := by
  have hcoarse : min b.exp 0 ≤ b.coarsest := by
    unfold coarsest
    omega
  obtain ⟨g, hg, hon⟩ := search_isSome (onGrid?_min hsig) ((b.coarsest - min b.exp 0).toNat + 1) hcoarse
    (by omega)
  have ha := admits_of_onGrid? hon
  have hs : b.shortest = g := by simp only [shortest, hg, Option.getD_some]
  rw [hs]
  refine ⟨ha, Nat.pos_of_ne_zero ?_⟩
  intro h₀
  -- Zero lies below everything that rounds to a positive magnitude.
  have hlow : 0 < b.low * b.unitSpan g.exp := by
    refine Nat.mul_pos ?_ (b.unitSpan_pos _)
    unfold low mid
    split <;> omega
  rw [h₀] at ha
  simp only [admits, zero_mul] at ha
  split at ha <;> simp only [Bool.and_eq_true, decide_eq_true_eq] at ha <;> omega

/-! ## What the grids mean -/

theorem gridSpan_eq (b : Binary) (e : Int) :
    (b.gridSpan e : ℚ) = b.unitSpan e * (10 ^ e * 2 ^ (2 - b.exp)) := by
  have key : ∀ (a : ℚ) (n : Int), a ≠ 0 → a ^ n.toNat = a ^ (-n).toNat * a ^ n := by
    intro a n ha
    rw [← zpow_natCast, ← zpow_natCast, ← zpow_add₀ ha]
    congr 1
    omega
  unfold gridSpan unitSpan
  simp only [Nat.pow_eq, Nat.cast_mul, Nat.cast_pow, Nat.cast_ofNat]
  rw [key 10 e (by norm_num), key 2 (2 - b.exp) (by norm_num), show -(2 - b.exp) = b.exp - 2 by omega]
  ring

theorem grid_mul_two_zpow (b : Binary) (e : Int) (c : Nat) :
    (c * b.gridSpan e : ℚ) * 2 ^ b.exp = 4 * (c * 10 ^ e) * b.unitSpan e := by
  rw [b.gridSpan_eq, zpow_sub₀ (by norm_num)]
  field_simp
  norm_num

/-- A point of a grid against an end of the interval, in quarters of the unit. -/
theorem unitSpan_le_iff (b : Binary) (e : Int) (n c : Nat) :
    n * b.unitSpan e ≤ c * b.gridSpan e ↔ (n : ℚ) * 2 ^ b.exp ≤ 4 * (c * 10 ^ e) := by
  have hp : (0 : ℚ) < 2 ^ b.exp := by positivity
  have hu : (0 : ℚ) < b.unitSpan e := by exact_mod_cast b.unitSpan_pos e
  have hcast : n * b.unitSpan e ≤ c * b.gridSpan e ↔ (n * b.unitSpan e : ℚ) ≤ c * b.gridSpan e := by norm_cast
  rw [hcast, ← mul_le_mul_iff_left₀ hp, grid_mul_two_zpow, mul_right_comm, mul_le_mul_iff_left₀ hu]

theorem gridSpan_le_iff (b : Binary) (e : Int) (n c : Nat) :
    c * b.gridSpan e ≤ n * b.unitSpan e ↔ 4 * (c * 10 ^ e) ≤ (n : ℚ) * 2 ^ b.exp := by
  have hp : (0 : ℚ) < 2 ^ b.exp := by positivity
  have hu : (0 : ℚ) < b.unitSpan e := by exact_mod_cast b.unitSpan_pos e
  have hcast : c * b.gridSpan e ≤ n * b.unitSpan e ↔ (c * b.gridSpan e : ℚ) ≤ n * b.unitSpan e := by norm_cast
  rw [hcast, ← mul_le_mul_iff_left₀ hp, grid_mul_two_zpow, mul_right_comm (n : ℚ), mul_le_mul_iff_left₀ hu]

theorem high_eq (b : Binary) : (b.high : ℚ) = 4 * b.sig + 2 := by
  simp [high, mid]

/-- The lower end is nearer where the doubles below lie twice as close. -/
theorem low_eq {b : Binary} (hsig : 0 < b.sig) : (b.low : ℚ) = 4 * b.sig - if b.tight then 1 else 2 := by
  unfold low mid
  split
  · rw [Nat.cast_sub (by omega)]
    push_cast
    ring
  · rw [Nat.cast_sub (by omega)]
    push_cast
    ring

/-- A point is admitted between the ends of the interval, which count for even significands only. -/
theorem between_of_admits (h : b.admits e c = true) :
    b.low * b.unitSpan e ≤ c * b.gridSpan e ∧ c * b.gridSpan e ≤ b.high * b.unitSpan e ∧
      (b.sig % 2 = 1 → b.low * b.unitSpan e < c * b.gridSpan e ∧ c * b.gridSpan e < b.high * b.unitSpan e) := by
  by_cases heven : b.isClosed = true
  · simp only [admits, heven, if_true, Bool.and_eq_true, decide_eq_true_eq] at h
    refine ⟨h.1, h.2, ?_⟩
    intro hodd
    simp [isClosed, hodd] at heven
  · simp only [admits, heven, Bool.false_eq_true, if_false, Bool.and_eq_true, decide_eq_true_eq] at h
    exact ⟨h.1.le, h.2.le, fun _ => h⟩

open Binary64 in
/-- **A point of a grid that is admitted rounds to the magnitude.** -/
theorem nearest_of_admits (hsig : 0 < b.sig) (htight : b.sig = 2 ^ 52 ∧ -1074 < b.exp → b.tight = true)
    (h : b.admits e c = true) : Nearest b.sig b.exp (c * 10 ^ e) := by
  have hp : (0 : ℚ) < 2 ^ b.exp := by positivity
  have hlow' : 4 * (b.sig : ℚ) - 2 ≤ b.low := by
    rw [low_eq hsig]
    split <;> linarith
  obtain ⟨hl, hh, hs⟩ := between_of_admits h
  rw [unitSpan_le_iff] at hl
  rw [gridSpan_le_iff, high_eq] at hh
  rw [← not_le, ← not_le, gridSpan_le_iff, unitSpan_le_iff, high_eq, not_le, not_le] at hs
  constructor
  · nlinarith
  · linarith
  · intro hm he
    rw [low_eq hsig, htight ⟨hm, he⟩, if_pos rfl] at hl
    linarith
  · intro hodd
    obtain ⟨h₁, h₂⟩ := hs hodd
    constructor
    · nlinarith
    · linarith

end Binary

end StencilKit.Decimal
