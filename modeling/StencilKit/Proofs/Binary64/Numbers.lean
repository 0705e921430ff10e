/-
Which results are numbers.

Arithmetic on numbers gives not a number only where infinities cancel or meet a zero. A finite number
plus any number is a number, and so is any number times a finite one that is not zero. Halving keeps a
finite number finite (`isFinite_half`): the exponent goes down by one, or a subnormal significand is
halved and rounded.
-/
import StencilKit.Proofs.Binary64.Plain
import StencilKit.Proofs.Binary64.Rounding

namespace StencilKit.Binary64

open Float.Model (Format UnpackedFloat)
open Float.Model.UnpackedFloat (Sign Accuracy ExtendedMantissa shiftToTargetExponent roundWithAccuracy
  packComponents)

/-! ## Rounding gives numbers -/

theorem roundWithAccuracy_ne {s : Sign} {m : Nat} {e : Int} {acc : Accuracy} :
    roundWithAccuracy Format.binary64 s m e acc ≠ .notANumber := by
  have hne : ∀ p : ExtendedMantissa × Int, (if h : p.1.mantissa = 0 then (.zero s : UnpackedFloat)
      else .finite s p.1.mantissa p.2 (Nat.pos_of_ne_zero h)) ≠ .notANumber := by
    intro p
    by_cases h : p.1.mantissa = 0
    · rw [dif_pos h]
      nofun
    · rw [dif_neg h]
      nofun
  exact hne (shiftToTargetExponent Format.binary64
    (shiftToTargetExponent Format.binary64 m e acc).1.roundedMantissa
    (shiftToTargetExponent Format.binary64 m e acc).2 .exact)

theorem normalize_ne {m e : Int} {s : Sign} :
    UnpackedFloat.normalize Format.binary64 m e s ≠ .notANumber := by
  unfold UnpackedFloat.normalize
  split
  · exact roundWithAccuracy_ne
  · nofun
  · exact roundWithAccuracy_ne

theorem unpack_packComponents_ne {s : Sign} {e : BitVec 11} {m : BitVec 52} (he : e.toNat ≠ 2047) :
    UnpackedFloat.unpack Format.binary64 (packComponents Format.binary64 s e m) ≠ .notANumber := by
  have hm : m.toNat < 2 ^ 52 := m.isLt
  have hlt : e.toNat < 2 ^ 11 := e.isLt
  have hfield : (packComponents Format.binary64 s e m).toNat / 2 ^ 52 % 2 ^ 11 = e.toNat := by
    rw [toNat_packComponents]
    omega
  have hfields := fields_unpack (packComponents Format.binary64 s e m)
  intro hn
  rw [hn] at hfields
  cases hfields with
  | notANumber hones hf => omega

/-- Packing makes not a number out of nothing else. -/
theorem unpack_pack_ne {u : UnpackedFloat} (hu : u ≠ .notANumber) : unpack (pack u) ≠ .notANumber := by
  rcases u with s | _ | s | ⟨s, m, e, hm⟩
  · simp
  · exact absurd rfl hu
  · simp
  · show UnpackedFloat.unpack Format.binary64 (UInt64.ofBitVec (UnpackedFloat.pack Format.binary64
      (.finite s m e hm))).toBitVec ≠ _
    rw [UInt64.toBitVec_ofBitVec, pack_finite]
    split
    · have hinf : unpack (pack (.infinity s)) ≠ .notANumber := by simp
      exact hinf
    · rename_i hsize
      split
      · refine unpack_packComponents_ne ?_
        rw [BitVec.toNat_ofNat]
        omega
      · exact unpack_packComponents_ne (by decide)

/-! ## Operations -/

/-- A number equals itself. -/
theorem beq_self_pack {u : UnpackedFloat} (hu : u ≠ .notANumber) : (pack u == pack u) = true :=
  beq_self_iff.2 (unpack_pack_ne hu)

theorem add_self_beq {x y : Float} (hx : Scalar.isFinite x = true) (hy : (y == y) = true) :
    (x + y == x + y) = true := by
  refine beq_self_pack ?_
  have hy := beq_self_iff.1 hy
  show UnpackedFloat.add Format.binary64 (unpack x) (unpack y) ≠ _
  generalize unpack y = v at hy
  rcases isFinite_iff.1 hx with ⟨s, hs⟩ | ⟨s, m, e, hm, hs⟩
  · rw [hs]
    rcases v with t | _ | t | ⟨t, n, k, hn⟩
    · nofun
    · exact absurd rfl hy
    · cases s <;> cases t <;> nofun
    · nofun
  · rw [hs]
    rcases v with t | _ | t | ⟨t, n, k, hn⟩
    · nofun
    · exact absurd rfl hy
    · nofun
    · exact normalize_ne

theorem sub_self_beq {x y : Float} (hx : (x == x) = true) (hy : Scalar.isFinite y = true) :
    (x - y == x - y) = true := by
  refine beq_self_pack ?_
  have hx := beq_self_iff.1 hx
  show UnpackedFloat.sub Format.binary64 (unpack x) (unpack y) ≠ _
  generalize unpack x = u at hx
  rcases isFinite_iff.1 hy with ⟨s, hs⟩ | ⟨s, m, e, hm, hs⟩
  · rw [hs]
    rcases u with t | _ | t | ⟨t, n, k, hn⟩
    · nofun
    · exact absurd rfl hx
    · cases s <;> cases t <;> nofun
    · nofun
  · rw [hs]
    rcases u with t | _ | t | ⟨t, n, k, hn⟩
    · nofun
    · exact absurd rfl hx
    · nofun
    · exact normalize_ne

/-- A finite number other than zero. -/
def IsScale (x : Float) : Prop := ∃ s m e h, unpack x = .finite s m e h

theorem isScale_of_pos {x : Float} (hx : Scalar.isFinite x = true) (hpos : 0 < x) : IsScale x := by
  rcases isFinite_iff.1 hx with ⟨s, hs⟩ | hs
  · exact absurd hs (Plain.ne_zero_of_pos hpos s)
  · exact hs

theorem mul_self_beq {x y : Float} (hx : (x == x) = true) (hy : IsScale y) : (x * y == x * y) = true := by
  refine beq_self_pack ?_
  have hx := beq_self_iff.1 hx
  obtain ⟨s, m, e, hm, hs⟩ := hy
  show UnpackedFloat.mul Format.binary64 (unpack x) (unpack y) ≠ _
  rw [hs]
  generalize unpack x = u at hx
  rcases u with t | _ | t | ⟨t, n, k, hn⟩
  · nofun
  · exact absurd rfl hx
  · nofun
  · exact roundWithAccuracy_ne

theorem mul_self_beq_of_isFinite {x y : Float} (hx : Scalar.isFinite x = true)
    (hy : Scalar.isFinite y = true) : (x * y == x * y) = true := by
  rcases isFinite_iff.1 hy with ⟨t, ht⟩ | hscale
  · refine beq_self_pack ?_
    show UnpackedFloat.mul Format.binary64 (unpack x) (unpack y) ≠ _
    rw [ht]
    rcases isFinite_iff.1 hx with ⟨s, hs⟩ | ⟨s, m, e, hm, hs⟩ <;> rw [hs] <;> nofun
  · exact mul_self_beq (beq_self_of_isFinite hx) hscale

theorem div_self_beq {x y : Float} (hx : (x == x) = true) (hy : IsScale y) : (x / y == x / y) = true := by
  refine beq_self_pack ?_
  have hx := beq_self_iff.1 hx
  obtain ⟨s, m, e, hm, hs⟩ := hy
  show UnpackedFloat.div Format.binary64 (unpack x) (unpack y) ≠ _
  rw [hs]
  generalize unpack x = u at hx
  rcases u with t | _ | t | ⟨t, n, k, hn⟩
  · nofun
  · exact absurd rfl hx
  · nofun
  · exact roundWithAccuracy_ne

/-- A difference is finite only between finite numbers. -/
theorem isFinite_of_sub {x y : Float} (h : Scalar.isFinite (x - y) = true) :
    Scalar.isFinite x = true ∧ Scalar.isFinite y = true := by
  have hd := isFinite_iff.1 h
  rw [show unpack (x - y) = unpack (pack (.sub Format.binary64 (unpack x) (unpack y))) from rfl] at hd
  rw [isFinite_iff, isFinite_iff]
  generalize unpack x = u at hd
  generalize unpack y = v at hd
  have hinfinity : ∀ s, ¬ ((∃ t, unpack (pack (.infinity s)) = .zero t) ∨
      ∃ t m e hm, unpack (pack (.infinity s)) = .finite t m e hm) := by
    intro s
    rw [unpack_pack_infinity]
    exact not_finite_infinity s
  have hnone : ¬ ((∃ t, unpack (pack .notANumber) = .zero t) ∨
      ∃ t m e hm, unpack (pack .notANumber) = .finite t m e hm) := by
    rw [unpack_pack_notANumber]
    exact not_finite_notANumber
  rcases u with s | _ | s | ⟨s, m, e, hm⟩
  · rcases v with t | _ | t | ⟨t, n, k, hn⟩
    · cases s <;> cases t
      · exact absurd hd hnone
      · exact absurd hd (hinfinity _)
      · exact absurd hd (hinfinity _)
      · exact absurd hd hnone
    · exact absurd hd hnone
    · exact absurd hd (hinfinity _)
    · exact absurd hd (hinfinity _)
  · exact absurd hd hnone
  · rcases v with t | _ | t | ⟨t, n, k, hn⟩
    · exact absurd hd (hinfinity _)
    · exact absurd hd hnone
    · exact ⟨.inl ⟨s, rfl⟩, .inl ⟨t, rfl⟩⟩
    · exact ⟨.inl ⟨s, rfl⟩, .inr ⟨t, n, k, hn, rfl⟩⟩
  · rcases v with t | _ | t | ⟨t, n, k, hn⟩
    · exact absurd hd (hinfinity _)
    · exact absurd hd hnone
    · exact ⟨.inr ⟨s, m, e, hm, rfl⟩, .inl ⟨t, rfl⟩⟩
    · exact ⟨.inr ⟨s, m, e, hm, rfl⟩, .inr ⟨t, n, k, hn, rfl⟩⟩

/-! ## Dividing by two and by itself -/

/-- **A number divided by itself is one.** -/
theorem div_self_eq_one {x : Float} (hx : IsScale x) : x / x = 1.0 := by
  obtain ⟨s, m, e, hm, hs⟩ := hx
  have hone : Canonical (2 ^ 52) (-52) := ⟨by norm_num, by norm_num, by norm_num, by norm_num, .inl le_rfl⟩
  have hnear : Nearest (2 ^ 52) (-52) (m * 2 ^ e / (m * 2 ^ e)) := by
    have hne : (m * 2 ^ e : ℚ) ≠ 0 := by positivity
    rw [div_self hne]
    have hself := Nearest.self (2 ^ 52) (-52)
    have hval : (((2 ^ 52 : Nat) : ℚ) * 2 ^ (-52 : Int)) = 1 := by norm_num
    rwa [hval] at hself
  refine ext_unpack ?_
  show unpack (pack (.div Format.binary64 (unpack x) (unpack x))) = _
  rw [hs, div_eq hone hnear, unpack_pack_finite hone]
  cases s <;> rfl

theorem isScale_div_self {x : Float} (hx : IsScale x) : IsScale (x / x) := by
  rw [div_self_eq_one hx]
  exact ⟨.positive, 2 ^ 52, -52, Nat.two_pow_pos 52, rfl⟩

theorem unpack_two : unpack (Scalar.two : Float) = .finite .positive (2 ^ 52) (-51) (Nat.two_pow_pos 52) := rfl

/-- The double nearest to half of one: the exponent goes down, or the significand is halved and rounded
to an even one. -/
theorem nearest_half {m : Nat} {e : Int} (hc : Canonical m e) (h : 1 < m ∨ -1074 < e) :
    ∃ m' e', Canonical m' e' ∧ Nearest m' e' (m * 2 ^ e / ((2 ^ 52 : Nat) * 2 ^ (-51 : Int))) := by
  have htwo : (((2 ^ 52 : Nat) : ℚ) * 2 ^ (-51 : Int)) = 2 := by norm_num
  rw [htwo]
  obtain ⟨hpos, hlt, hleast, hmost, hfull⟩ := hc
  by_cases he : -1074 < e
  · refine ⟨m, e - 1, ⟨hpos, hlt, by omega, by omega, .inl (by omega)⟩, ?_⟩
    have hval : (m : ℚ) * 2 ^ (e - 1) = m * 2 ^ e / 2 := by
      rw [zpow_sub_one₀ (by norm_num)]
      ring
    rw [← hval]
    exact .self m (e - 1)
  · have heq : e = -1074 := by omega
    have hp : (0 : ℚ) < 2 ^ e := by positivity
    rcases Nat.even_or_odd' m with ⟨k, rfl | rfl⟩
    · refine ⟨k, e, ⟨by omega, by omega, by omega, by omega, .inr heq⟩, ?_⟩
      have hval : (k : ℚ) * 2 ^ e = (2 * k : Nat) * 2 ^ e / 2 := by
        push_cast
        ring
      rw [← hval]
      exact .self k e
    · -- A tie, which goes to the even one of `k` and `k + 1`.
      obtain ⟨n, hn, hsides⟩ : ∃ n, n % 2 = 0 ∧ (n = k ∨ n = k + 1) := by
        rcases Nat.mod_two_eq_zero_or_one k with hk | hk
        · exact ⟨k, hk, .inl rfl⟩
        · exact ⟨k + 1, by omega, .inr rfl⟩
      refine ⟨n, e, ⟨by omega, by omega, by omega, by omega, .inr heq⟩, ?_⟩
      have hval : ((2 * k + 1 : Nat) : ℚ) * 2 ^ e / 2 = (k + 1 / 2) * 2 ^ e := by
        push_cast
        ring
      rw [hval]
      have hlow : (n : ℚ) - 1 / 2 ≤ k + 1 / 2 := by
        have : (n : ℚ) ≤ k + 1 := by exact_mod_cast (by omega : n ≤ k + 1)
        linarith
      have hhigh : (k : ℚ) + 1 / 2 ≤ n + 1 / 2 := by
        have : (k : ℚ) ≤ n := by exact_mod_cast (by omega : k ≤ n)
        linarith
      exact ⟨mul_le_mul_of_nonneg_right hlow hp.le, mul_le_mul_of_nonneg_right hhigh hp.le,
        fun _ h => absurd h he, fun h => absurd h (by omega)⟩

/-- The least doubles are halved to zeros. -/
theorem isFinite_half_least (s : Sign) :
    Scalar.isFinite (pack (.finite s 1 (-1074) Nat.one_pos) / Scalar.two) = true := by
  cases s <;> decide

/-- **Half of a finite number is finite.** -/
theorem isFinite_half {x : Float} (hx : Scalar.isFinite x = true) :
    Scalar.isFinite (x / Scalar.two) = true := by
  rcases isFinite_iff.1 hx with ⟨s, hs⟩ | ⟨s, m, e, hm, hs⟩
  · have hx : x = pack (.zero s) := by rw [← hs, pack_unpack]
    rw [hx]
    cases s <;> decide
  · have hc := canonical_of_unpack hs
    by_cases hsmall : 1 < m ∨ -1074 < e
    · obtain ⟨m', e', hc', hnear⟩ := nearest_half hc hsmall
      refine isFinite_iff.2 (.inr ⟨s / .positive, m', e', hc'.pos, ?_⟩)
      show unpack (pack (.div Format.binary64 (unpack x) (unpack Scalar.two))) = _
      rw [hs, unpack_two, div_eq hc' hnear, unpack_pack_finite hc']
    · have hleast := hc.least
      have hm1 : m = 1 := by omega
      have he1 : e = -1074 := by omega
      subst hm1 he1
      have hx : x = pack (.finite s 1 (-1074) Nat.one_pos) := by rw [← hs, pack_unpack]
      rw [hx]
      exact isFinite_half_least s

end StencilKit.Binary64
