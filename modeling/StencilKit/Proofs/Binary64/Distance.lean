/-
Distances between points of doubles.

The distance between two points is the same from either of them: a difference is the difference the other
way round with the sign changed (`Mirrored`), rounding does not look at the sign, and a square has none. A
finite point lies at no distance from itself, and what is not finite is near to nothing: a square that is too
large stays so under a sum and a root (`Boundless`).
-/
import StencilKit.Proofs.Binary64.Numbers

namespace StencilKit.Binary64

open Float.Model (Format UnpackedFloat)
open Float.Model.UnpackedFloat (Sign packComponents)

/-- The same unpacked number but for the sign. -/
inductive Mirrored : UnpackedFloat → UnpackedFloat → Prop where
  | notANumber : Mirrored .notANumber .notANumber
  | infinity (s t : Sign) : Mirrored (.infinity s) (.infinity t)
  | zero (s t : Sign) : Mirrored (.zero s) (.zero t)
  | finite (s t : Sign) (m : Nat) (e : Int) (h : 0 < m) : Mirrored (.finite s m e h) (.finite t m e h)

theorem mirrored_roundWithAccuracy (s t : Sign) (m : Nat) (e : Int) (acc : UnpackedFloat.Accuracy) :
    Mirrored (UnpackedFloat.roundWithAccuracy Format.binary64 s m e acc)
      (UnpackedFloat.roundWithAccuracy Format.binary64 t m e acc) := by
  have hsplit : ∀ p : UnpackedFloat.ExtendedMantissa × Int, Mirrored
      (if h : p.1.mantissa = 0 then .zero s else .finite s p.1.mantissa p.2 (Nat.pos_of_ne_zero h))
      (if h : p.1.mantissa = 0 then .zero t else .finite t p.1.mantissa p.2 (Nat.pos_of_ne_zero h)) := by
    intro p
    by_cases h : p.1.mantissa = 0
    · rw [dif_pos h, dif_pos h]
      exact .zero s t
    · rw [dif_neg h, dif_neg h]
      exact .finite s t _ _ _
  exact hsplit (UnpackedFloat.shiftToTargetExponent Format.binary64
    (UnpackedFloat.shiftToTargetExponent Format.binary64 m e acc).1.roundedMantissa
    (UnpackedFloat.shiftToTargetExponent Format.binary64 m e acc).2 .exact)

theorem mirrored_normalize (m e : Int) (s : Sign) :
    Mirrored (UnpackedFloat.normalize Format.binary64 m e s)
      (UnpackedFloat.normalize Format.binary64 (-m) e s) := by
  unfold UnpackedFloat.normalize
  rcases lt_trichotomy m 0 with h | rfl | h
  · have hneg : 0 < -m := by omega
    rw [compare_lt_iff_lt.2 h, compare_gt_iff_gt.2 hneg]
    exact mirrored_roundWithAccuracy _ _ _ _ _
  · exact .zero _ _
  · have hneg : -m < 0 := by omega
    rw [compare_gt_iff_gt.2 h, compare_lt_iff_lt.2 hneg, Int.neg_neg]
    exact mirrored_roundWithAccuracy _ _ _ _ _

/-- A difference is the difference the other way round, but for the sign. -/
theorem mirrored_sub (u v : UnpackedFloat) :
    Mirrored (.sub Format.binary64 u v) (.sub Format.binary64 v u) := by
  rcases u with s | _ | s | ⟨s, m, e, hm⟩
  · rcases v with t | _ | t | ⟨t, n, k, hn⟩
    · cases s <;> cases t <;> constructor
    · constructor
    · constructor
    · constructor
  · cases v <;> constructor
  · rcases v with t | _ | t | ⟨t, n, k, hn⟩
    · constructor
    · constructor
    · cases s <;> cases t <;> constructor
    · constructor
  · rcases v with t | _ | t | ⟨t, n, k, hn⟩
    · constructor
    · constructor
    · constructor
    · have h := mirrored_normalize (s.apply (UnpackedFloat.decreaseExponent m e (min e k)).1 -
        t.apply (UnpackedFloat.decreaseExponent n k (min e k)).1) (min e k) .positive
      rw [Int.neg_sub] at h
      have hmin : min e k = min k e := Int.min_comm e k
      show Mirrored _ (UnpackedFloat.normalize Format.binary64
        (t.apply (UnpackedFloat.decreaseExponent n k (min k e)).1 -
          s.apply (UnpackedFloat.decreaseExponent m e (min k e)).1) (min k e) .positive)
      rw [← hmin]
      exact h

/-- Words that differ in the sign at most. -/
theorem mirrored_packComponents (s t : Sign) (e : BitVec 11) (m : BitVec 52) :
    Mirrored (UnpackedFloat.unpack Format.binary64 (packComponents Format.binary64 s e m))
      (UnpackedFloat.unpack Format.binary64 (packComponents Format.binary64 t e m)) := by
  have he : e.toNat < 2 ^ 11 := e.isLt
  have hm : m.toNat < 2 ^ 52 := m.isLt
  have hfields : ∀ r : Sign, (packComponents Format.binary64 r e m).toNat / 2 ^ 52 % 2 ^ 11 = e.toNat ∧
      (packComponents Format.binary64 r e m).toNat % 2 ^ 52 = m.toNat := by
    intro r
    rw [toNat_packComponents]
    omega
  obtain ⟨hes, hms⟩ := hfields s
  obtain ⟨het, hmt⟩ := hfields t
  have hs := fields_unpack (packComponents Format.binary64 s e m)
  have ht := fields_unpack (packComponents Format.binary64 t e m)
  generalize packComponents Format.binary64 s e m = v at *
  generalize packComponents Format.binary64 t e m = w at *
  generalize UnpackedFloat.unpack Format.binary64 v = a at hs
  generalize UnpackedFloat.unpack Format.binary64 w = b at ht
  cases hs with
  | infinity hs hsf =>
    cases ht with
    | infinity => exact .infinity _ _
    | _ => omega
  | notANumber hs hsf =>
    cases ht with
    | notANumber => exact .notANumber
    | _ => omega
  | zero hs hsf =>
    cases ht with
    | zero => exact .zero _ _
    | _ => omega
  | subnormal hs hsf =>
    cases ht with
    | subnormal ht htf =>
      have hfrac : w.toNat % 2 ^ 52 = v.toNat % 2 ^ 52 := hmt.trans hms.symm
      exact (congrArg (Mirrored _) (finite_eq_finite hfrac rfl)).mpr (.finite _ _ _ _ hsf)
    | _ => omega
  | normal hs hsn hsf =>
    cases ht with
    | normal ht htn htf =>
      have hfrac : 2 ^ 52 + w.toNat % 2 ^ 52 = 2 ^ 52 + v.toNat % 2 ^ 52 := by omega
      have hexp : ((w.toNat / 2 ^ 52 % 2 ^ 11 : Nat) : Int) - 1075 =
          (v.toNat / 2 ^ 52 % 2 ^ 11 : Nat) - 1075 := by
        rw [het, hes]
      exact (congrArg (Mirrored _) (finite_eq_finite hfrac hexp)).mpr (.finite _ _ _ _ hsf)
    | _ => omega

/-- What is packed keeps its size. -/
theorem Mirrored.unpack_pack {u v : UnpackedFloat} (h : Mirrored u v) :
    Mirrored (unpack (pack u)) (unpack (pack v)) := by
  cases h with
  | notANumber => constructor
  | infinity s t =>
    rw [unpack_pack_infinity, unpack_pack_infinity]
    constructor
  | zero s t =>
    rw [unpack_pack_zero, unpack_pack_zero]
    constructor
  | finite s t m e hm =>
    show Mirrored
      (UnpackedFloat.unpack Format.binary64 (UInt64.ofBitVec (UnpackedFloat.pack Format.binary64
        (.finite s m e hm))).toBitVec)
      (UnpackedFloat.unpack Format.binary64 (UInt64.ofBitVec (UnpackedFloat.pack Format.binary64
        (.finite t m e hm))).toBitVec)
    rw [UInt64.toBitVec_ofBitVec, UInt64.toBitVec_ofBitVec, pack_finite, pack_finite]
    split
    · exact mirrored_packComponents _ _ _ _
    · split
      · exact mirrored_packComponents _ _ _ _
      · exact mirrored_packComponents _ _ _ _

theorem Mirrored.mul_self {u v : UnpackedFloat} (h : Mirrored u v) :
    UnpackedFloat.mul Format.binary64 u u = .mul Format.binary64 v v := by
  have hsign : ∀ s t : Sign, s * s = t * t := by
    intro s t
    cases s <;> cases t <;> rfl
  cases h with
  | notANumber => rfl
  | infinity s t => exact congrArg UnpackedFloat.infinity (hsign s t)
  | zero s t => exact congrArg UnpackedFloat.zero (hsign s t)
  | finite s t m e hm =>
    exact congrArg (UnpackedFloat.roundWithAccuracy Format.binary64 · (m * m) (e + e) .exact) (hsign s t)

theorem sub_mul_self_comm (x y : Float) : (x - y) * (x - y) = (y - x) * (y - x) :=
  congrArg pack (mirrored_sub (unpack x) (unpack y)).unpack_pack.mul_self

theorem sub_self {x : Float} (hx : Scalar.isFinite x = true) : x - x = 0.0 := by
  show pack (.sub Format.binary64 (unpack x) (unpack x)) = pack (.zero .positive)
  refine congrArg pack ?_
  rcases isFinite_iff.1 hx with ⟨s, hs⟩ | ⟨s, m, e, hm, hs⟩
  · rw [hs]
    cases s <;> rfl
  · rw [hs]
    show UnpackedFloat.normalize Format.binary64 (_ - _) _ .positive = _
    rw [Int.sub_self]
    rfl

/-- Neither finite nor below a number. -/
def Boundless (x : Float) : Prop := unpack x = .notANumber ∨ unpack x = .infinity .positive

theorem boundless_pack {u : UnpackedFloat} (h : u = .notANumber ∨ u = .infinity .positive) :
    Boundless (pack u) := by
  rcases h with rfl | rfl
  · exact .inl unpack_pack_notANumber
  · exact .inr (unpack_pack_infinity _)

theorem boundless_mul_self {x : Float} (hx : ¬ Scalar.isFinite x = true) : Boundless (x * x) := by
  rw [isFinite_iff] at hx
  refine boundless_pack (u := .mul Format.binary64 (unpack x) (unpack x)) ?_
  cases hu : unpack x with
  | notANumber => exact .inl rfl
  | infinity s => cases s <;> exact .inr rfl
  | zero s => exact absurd (.inl ⟨s, hu⟩) hx
  | finite s m e hm => exact absurd (.inr ⟨s, m, e, hm, hu⟩) hx

theorem Boundless.add_right {x : Float} (hx : Boundless x) (y : Float) : Boundless (x + y) := by
  refine boundless_pack (u := .add Format.binary64 (unpack x) (unpack y)) ?_
  rcases hx with hx | hx <;> rw [hx]
  · exact .inl rfl
  · rcases unpack y with s | _ | s | ⟨s, m, e, hm⟩
    · cases s
      · exact .inl rfl
      · exact .inr rfl
    · exact .inl rfl
    · exact .inr rfl
    · exact .inr rfl

theorem Boundless.add_left {x : Float} (hx : Boundless x) (y : Float) : Boundless (y + x) := by
  refine boundless_pack (u := .add Format.binary64 (unpack y) (unpack x)) ?_
  rcases hx with hx | hx <;> rw [hx]
  · rcases unpack y with s | _ | s | ⟨s, m, e, hm⟩ <;> exact .inl rfl
  · rcases unpack y with s | _ | s | ⟨s, m, e, hm⟩
    · cases s
      · exact .inl rfl
      · exact .inr rfl
    · exact .inl rfl
    · exact .inr rfl
    · exact .inr rfl

theorem Boundless.sqrt {x : Float} (hx : Boundless x) : Boundless (Scalar.sqrt x) := by
  refine boundless_pack (u := .sqrt Format.binary64 (unpack x)) ?_
  rcases hx with hx | hx <;> rw [hx]
  · exact .inl rfl
  · exact .inr rfl

theorem Boundless.not_le {x y : Float} (hx : Boundless x) (hy : Scalar.isFinite y = true) : ¬ x ≤ y := by
  rw [le_iff]
  rcases hx with hx | hx <;> rw [hx]
  · nofun
  · rcases isFinite_iff.1 hy with ⟨s, hs⟩ | ⟨s, m, e, hm, hs⟩ <;> rw [hs] <;> nofun

end StencilKit.Binary64

namespace StencilKit.Point

theorem distance_comm (p q : Point Float) : p.distance q = q.distance p := by
  have hx := Binary64.sub_mul_self_comm p.x q.x
  have hy := Binary64.sub_mul_self_comm p.y q.y
  show Scalar.sqrt ((p.x - q.x) * (p.x - q.x) + (p.y - q.y) * (p.y - q.y)) = _
  rw [hx, hy]
  rfl

theorem distance_self {p : Point Float} (hp : p.isFinite = true) : p.distance p = 0.0 := by
  obtain ⟨hx, hy⟩ := Bool.and_eq_true_iff.1 hp
  show Scalar.sqrt ((p.x - p.x) * (p.x - p.x) + (p.y - p.y) * (p.y - p.y)) = _
  rw [Binary64.sub_self hx, Binary64.sub_self hy]
  rfl

theorem isNear_comm (tolerance : Float) (p q : Point Float) : p.isNear tolerance q = q.isNear tolerance p := by
  rw [isNear, isNear, distance_comm]

theorem isNear_self {tolerance : Float} (htolerance : 0 ≤ tolerance) {p : Point Float} (hp : p.isFinite = true) :
    p.isNear tolerance p = true := by
  rw [isNear, distance_self hp]
  exact decide_eq_true htolerance

/-- **What is near to something is finite.** -/
theorem isFinite_of_isNear {tolerance : Float} (htolerance : Scalar.isFinite tolerance = true) {p q : Point Float}
    (h : p.isNear tolerance q = true) : q.isFinite = true := by
  have hle : p.distance q ≤ tolerance := of_decide_eq_true h
  have hx : Scalar.isFinite (p.x - q.x) = true := by
    by_contra hx
    exact ((Binary64.boundless_mul_self hx).add_right _).sqrt.not_le htolerance hle
  have hy : Scalar.isFinite (p.y - q.y) = true := by
    by_contra hy
    exact ((Binary64.boundless_mul_self hy).add_left _).sqrt.not_le htolerance hle
  exact Bool.and_eq_true_iff.2 ⟨(Binary64.isFinite_of_sub hx).2, (Binary64.isFinite_of_sub hy).2⟩

end StencilKit.Point
