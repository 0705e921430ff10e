/-
The word of a double and what it stands for.

Arithmetic on doubles is done on unpacked numbers: infinities, not a number, signed zeros, and
significands with an exponent. A word determines its unpacked number and is determined by it
(`ext_unpack`), and the significands and exponents that words unpack to are the canonical ones
(`Canonical`), each of which packs without loss. So two doubles are equal when they unpack to the
same number, and a computation on unpacked numbers says all there is to say about the double.
-/
import Mathlib.Algebra.Order.Ring.Rat
import StencilKit.Decimal.Binary

namespace StencilKit.Binary64

open Float.Model (Format)
open Float.Model.UnpackedFloat (Sign packComponents unpackMantissa unpackExponent unpackSign)

/-- The bits of a double. -/
def word (x : Float) : BitVec Format.binary64.numBits := x.toModel.toBits.toBitVec

/-- What a double unpacks to. -/
def unpack (x : Float) : Float.Model.UnpackedFloat := x.toModel.unpack

/-- The double of an unpacked number. -/
def pack (u : Float.Model.UnpackedFloat) : Float := .ofModel (.pack u)

/-- The significands and exponents of finite doubles: a full significand, or the least exponent. -/
structure Canonical (m : Nat) (e : Int) : Prop where
  pos : 0 < m
  lt : m < 2 ^ 53
  least : -1074 ≤ e
  most : e ≤ 971
  full : 2 ^ 52 ≤ m ∨ e = -1074

/-! ## Fields of a word -/

section Fields

variable (v : BitVec Format.binary64.numBits)

theorem toNat_unpackMantissa : (unpackMantissa v).toNat = v.toNat % 2 ^ 52 := by
  simp [unpackMantissa]

theorem toNat_unpackExponent : (unpackExponent v).toNat = v.toNat / 2 ^ 52 % 2 ^ 11 := by
  simp [unpackExponent, Nat.shiftRight_eq_div_pow]

theorem toNat_unpackSign : (unpackSign v).toNat = v.toNat / 2 ^ 63 := by
  have hv : v.toNat < 2 ^ 64 := v.isLt
  show ((v.extractLsb 63 63).cast _).toNat = _
  rw [BitVec.toNat_cast, BitVec.extractLsb_toNat, Nat.shiftRight_eq_div_pow]
  omega

theorem toNat_packComponents (s : Sign) (e : BitVec 11) (m : BitVec 52) :
    (packComponents Format.binary64 s e m).toNat = s.toBitVec.toNat * 2 ^ 63 + e.toNat * 2 ^ 52 + m.toNat := by
  have he : e.toNat < 2 ^ 11 := e.isLt
  have hm : m.toNat < 2 ^ 52 := m.isLt
  unfold packComponents
  rw [BitVec.toNat_append, BitVec.toNat_append, ← Nat.shiftLeft_add_eq_or_of_lt hm,
    ← Nat.shiftLeft_add_eq_or_of_lt he, Nat.shiftLeft_eq, Nat.shiftLeft_eq]
  omega

@[simp] theorem unpackSign_packComponents (s : Sign) (e : BitVec 11) (m : BitVec 52) :
    unpackSign (packComponents Format.binary64 s e m) = s.toBitVec := by
  have he : e.toNat < 2 ^ 11 := e.isLt
  have hm : m.toNat < 2 ^ 52 := m.isLt
  apply BitVec.eq_of_toNat_eq
  rw [toNat_unpackSign, toNat_packComponents]
  omega

@[simp] theorem ofBitVec_toBitVec (s : Sign) : Sign.ofBitVec s.toBitVec = s := by
  cases s <;> rfl

@[simp] theorem toBitVec_ofBitVec (b : BitVec 1) : (Sign.ofBitVec b).toBitVec = b := by
  revert b; decide

theorem finite_eq_finite {s : Sign} {m m' : Nat} {e e' : Int} {h : 0 < m} {h' : 0 < m'} (hm : m = m')
    (he : e = e') : Float.Model.UnpackedFloat.finite s m e h = .finite s m' e' h' := by
  subst hm he
  rfl

/-- What a word stands for, case by case of its exponent and fraction. -/
inductive Fields : Float.Model.UnpackedFloat → Prop
  | infinity (he : v.toNat / 2 ^ 52 % 2 ^ 11 = 2047) (hf : v.toNat % 2 ^ 52 = 0) :
      Fields (.infinity (.ofBitVec (unpackSign v)))
  | notANumber (he : v.toNat / 2 ^ 52 % 2 ^ 11 = 2047) (hf : v.toNat % 2 ^ 52 ≠ 0) : Fields .notANumber
  | zero (he : v.toNat / 2 ^ 52 % 2 ^ 11 = 0) (hf : v.toNat % 2 ^ 52 = 0) :
      Fields (.zero (.ofBitVec (unpackSign v)))
  | subnormal (he : v.toNat / 2 ^ 52 % 2 ^ 11 = 0) (hf : 0 < v.toNat % 2 ^ 52) :
      Fields (.finite (.ofBitVec (unpackSign v)) (v.toNat % 2 ^ 52) (-1074) hf)
  | normal (he : v.toNat / 2 ^ 52 % 2 ^ 11 ≠ 2047) (hne : v.toNat / 2 ^ 52 % 2 ^ 11 ≠ 0)
      (hf : 0 < 2 ^ 52 + v.toNat % 2 ^ 52) :
      Fields (.finite (.ofBitVec (unpackSign v)) (2 ^ 52 + v.toNat % 2 ^ 52)
        ((v.toNat / 2 ^ 52 % 2 ^ 11 : Nat) - 1075) hf)

/-- The number of a word, by the fields of the word. -/
theorem fields_unpack : Fields v (Float.Model.UnpackedFloat.unpack Format.binary64 v) := by
  have hones : unpackExponent v = -1#_ ↔ v.toNat / 2 ^ 52 % 2 ^ 11 = 2047 := by
    rw [← BitVec.toNat_inj, toNat_unpackExponent]; rfl
  have hzero : unpackExponent v = 0#_ ↔ v.toNat / 2 ^ 52 % 2 ^ 11 = 0 := by
    rw [← BitVec.toNat_inj, toNat_unpackExponent]; rfl
  have hfrac : unpackMantissa v = 0#_ ↔ v.toNat % 2 ^ 52 = 0 := by
    rw [← BitVec.toNat_inj, toNat_unpackMantissa]; rfl
  have hlead : (1#1 ++ unpackMantissa v).toNat = 2 ^ 52 + v.toNat % 2 ^ 52 := by
    rw [BitVec.toNat_append, ← Nat.shiftLeft_add_eq_or_of_lt (unpackMantissa v).isLt, toNat_unpackMantissa]
    simp [Nat.shiftLeft_eq]
  unfold Float.Model.UnpackedFloat.unpack
  by_cases h₁ : v.toNat / 2 ^ 52 % 2 ^ 11 = 2047
  · rw [if_pos (hones.2 h₁)]
    by_cases h₃ : v.toNat % 2 ^ 52 = 0
    · rw [if_pos (hfrac.2 h₃)]
      exact .infinity h₁ h₃
    · rw [if_neg (mt hfrac.1 h₃)]
      exact .notANumber h₁ h₃
  · rw [if_neg (mt hones.1 h₁)]
    by_cases h₂ : v.toNat / 2 ^ 52 % 2 ^ 11 = 0
    · rw [if_pos (hzero.2 h₂)]
      by_cases h₃ : v.toNat % 2 ^ 52 = 0
      · rw [dif_pos (hfrac.2 h₃)]
        exact .zero h₂ h₃
      · rw [dif_neg (mt hfrac.1 h₃)]
        have hf : 0 < v.toNat % 2 ^ 52 := Nat.pos_of_ne_zero h₃
        refine (congrArg (Fields v) (finite_eq_finite (toNat_unpackMantissa v) ?_)).mpr (.subnormal h₂ hf)
        rw [toNat_unpackExponent, h₂]
        rfl
    · rw [if_neg (mt hzero.1 h₂)]
      have hf : 0 < 2 ^ 52 + v.toNat % 2 ^ 52 := by omega
      refine (congrArg (Fields v) (finite_eq_finite hlead ?_)).mpr (.normal h₁ h₂ hf)
      rw [toNat_unpackExponent]
      rfl

end Fields

/-! ## Packing and unpacking -/

/-- A significand and exponent that a word unpacks to are canonical. -/
theorem canonical_of_unpack {x : Float} {s : Sign} {m : Nat} {e : Int} {h : 0 < m}
    (hx : unpack x = .finite s m e h) : Canonical m e := by
  have hfields : Fields (word x) (unpack x) := fields_unpack (word x)
  rw [hx] at hfields
  cases hfields with
  | subnormal he hf => exact ⟨h, by omega, by omega, by omega, .inr rfl⟩
  | normal he hne hf => exact ⟨h, by omega, by omega, by omega, .inl (by omega)⟩

/-- The fields that a finite number is packed into, if it is not too large. -/
theorem pack_finite (s : Sign) (m : Nat) (e : Int) (h : 0 < m) :
    Float.Model.UnpackedFloat.pack Format.binary64 (.finite s m e h) =
      if 2 ^ 11 ≤ (e + ((1023 : Nat) : Int) + ((52 : Nat) : Int)).toNat + 1 then
        Float.Model.UnpackedFloat.packedInfinity Format.binary64 s
      else if m.log2 + 1 = 53 then
        packComponents Format.binary64 s (.ofNat 11 (e + ((1023 : Nat) : Int) + ((52 : Nat) : Int)).toNat)
          (.ofNat 52 m)
      else packComponents Format.binary64 s 0#11 (.ofNat 52 m) := rfl

/-- The word of a canonical number. -/
theorem toNat_pack_finite {s : Sign} {m : Nat} {e : Int} (hc : Canonical m e) :
    (Float.Model.UnpackedFloat.pack Format.binary64 (.finite s m e hc.pos)).toNat =
      s.toBitVec.toNat * 2 ^ 63 + if 2 ^ 52 ≤ m then (e + 1075).toNat * 2 ^ 52 + (m - 2 ^ 52) else m := by
  obtain ⟨hpos, hlt, hleast, hmost, hfull⟩ := hc
  have hbiased : e + ((1023 : Nat) : Int) + ((52 : Nat) : Int) = e + 1075 := by omega
  have hsize : ¬ 2 ^ 11 ≤ (e + 1075).toNat + 1 := by omega
  rw [pack_finite, hbiased, if_neg hsize]
  by_cases hm : 2 ^ 52 ≤ m
  · have hlog : m.log2 = 52 := (Nat.log2_eq_iff (by omega)).2 ⟨hm, hlt⟩
    have he : (e + 1075).toNat % 2 ^ 11 = (e + 1075).toNat := Nat.mod_eq_of_lt (by omega)
    have hf : m % 2 ^ 52 = m - 2 ^ 52 := by omega
    rw [if_pos (by omega), if_pos hm, toNat_packComponents, BitVec.toNat_ofNat, BitVec.toNat_ofNat, he, hf]
    omega
  · have hlog : m.log2 < 52 := (Nat.log2_lt (by omega)).2 (by omega)
    have hf : m % 2 ^ 52 = m := Nat.mod_eq_of_lt (by omega)
    rw [if_neg (by omega), if_neg hm, toNat_packComponents, BitVec.toNat_ofNat, BitVec.toNat_ofNat, hf]
    omega

theorem unpack_pack_finite {s : Sign} {m : Nat} {e : Int} (hc : Canonical m e) :
    unpack (pack (.finite s m e hc.pos)) = .finite s m e hc.pos := by
  have hn := toNat_pack_finite (s := s) hc
  have hs : s.toBitVec.toNat < 2 := s.toBitVec.isLt
  obtain ⟨hpos, hlt, hleast, hmost, hfull⟩ := hc
  show Float.Model.UnpackedFloat.unpack Format.binary64
    (UInt64.ofBitVec (Float.Model.UnpackedFloat.pack Format.binary64 (.finite s m e hpos))).toBitVec = _
  generalize Float.Model.UnpackedFloat.pack Format.binary64 (.finite s m e hpos) = v at hn
  have hsign : Sign.ofBitVec (unpackSign v) = s := by
    have : unpackSign v = s.toBitVec := by
      apply BitVec.eq_of_toNat_eq
      rw [toNat_unpackSign]
      split at hn <;> omega
    rw [this, ofBitVec_toBitVec]
  have hfields := fields_unpack v
  rw [UInt64.toBitVec_ofBitVec]
  generalize Float.Model.UnpackedFloat.unpack Format.binary64 v = u at hfields
  by_cases hm : 2 ^ 52 ≤ m
  · rw [if_pos hm] at hn
    have hexp : v.toNat / 2 ^ 52 % 2 ^ 11 = (e + 1075).toNat := by omega
    have hfrac : v.toNat % 2 ^ 52 = m - 2 ^ 52 := by omega
    cases hfields with
    | normal he hne hf =>
      rw [hsign]
      exact finite_eq_finite (by omega) (by omega)
    | _ => omega
  · rw [if_neg hm] at hn
    have hexp : v.toNat / 2 ^ 52 % 2 ^ 11 = 0 := by omega
    have hfrac : v.toNat % 2 ^ 52 = m := by omega
    cases hfields with
    | subnormal he hf =>
      rw [hsign]
      exact finite_eq_finite hfrac (by omega)
    | _ => omega

theorem pack_unpack (x : Float) : pack (unpack x) = x := by
  suffices hw : Float.Model.UnpackedFloat.pack Format.binary64 (unpack x) = word x by
    have hmodel : Float.Model.pack (unpack x) = x.toModel := by
      have hbits : (Float.Model.pack (unpack x)).toBits = x.toModel.toBits := congrArg UInt64.ofBitVec hw
      cases hm : x.toModel
      cases hp : Float.Model.pack (unpack x)
      rw [hm, hp] at hbits
      cases hbits
      rfl
    rw [pack, hmodel]
  have hsign : ∀ {s}, s = Sign.ofBitVec (unpackSign (word x)) → s.toBitVec.toNat = (word x).toNat / 2 ^ 63 := by
    rintro s rfl
    rw [toBitVec_ofBitVec, toNat_unpackSign]
  have hlt : (word x).toNat < 2 ^ 64 := (word x).isLt
  have hfields : Fields (word x) (unpack x) := fields_unpack (word x)
  apply BitVec.eq_of_toNat_eq
  generalize hx : unpack x = u at hfields
  cases hfields with
  | infinity he hf =>
    have hones : (-1#11).toNat = 2047 := rfl
    show (packComponents Format.binary64 _ (-1#11) 0#52).toNat = _
    rw [toNat_packComponents, hsign rfl, hones]
    simp only [BitVec.toNat_ofNat]
    omega
  | notANumber he hf =>
    refine congrArg BitVec.toNat (x.toModel.valid.eq_packedNaN ?_ ?_).symm
    · apply BitVec.eq_of_toNat_eq
      rw [toNat_unpackExponent]
      exact he
    · intro h
      have := congrArg BitVec.toNat h
      rw [toNat_unpackMantissa] at this
      exact hf this
  | zero he hf =>
    show (packComponents Format.binary64 _ 0#11 0#52).toNat = _
    rw [toNat_packComponents, hsign rfl]
    simp only [BitVec.toNat_ofNat]
    omega
  | subnormal he hf =>
    rw [toNat_pack_finite (canonical_of_unpack hx), hsign rfl, if_neg (by omega)]
    omega
  | normal he hne hf =>
    rw [toNat_pack_finite (canonical_of_unpack hx), hsign rfl, if_pos (by omega)]
    omega

/-- Doubles that unpack to the same number are equal. -/
theorem ext_unpack {x y : Float} (h : unpack x = unpack y) : x = y := by
  rw [← pack_unpack x, h, pack_unpack]

@[simp] theorem unpack_pack_zero (s : Sign) : unpack (pack (.zero s)) = .zero s := by
  cases s <;> rfl

@[simp] theorem unpack_pack_infinity (s : Sign) : unpack (pack (.infinity s)) = .infinity s := by
  cases s <;> rfl

@[simp] theorem unpack_pack_notANumber : unpack (pack .notANumber) = .notANumber := rfl

end StencilKit.Binary64
