/-
Finite doubles, not a number, and the two zeros, as unpacked numbers.

The scalar operations tell these apart by arithmetic (a finite number cancels against itself, not a
number differs from itself); on unpacked numbers they are constructors. The two zeros are equal
numbers but not the same double: `plain` takes the sign from a zero and leaves all else alone.
-/
import StencilKit.Scalar.Double
import StencilKit.Proofs.Binary64.Word

namespace StencilKit.Binary64

open Float.Model (Format)
open Float.Model.UnpackedFloat (Sign)

/-! ## Comparisons -/

theorem beq_eq (x y : Float) : (x == y) = ((unpack x).compare (unpack y) == some .eq) := rfl

theorem lt_iff {x y : Float} : x < y ↔ (unpack x).compare (unpack y) = some .lt := by
  show decide (x.toModel < y.toModel) = true ↔ _
  rw [decide_eq_true_iff]
  exact beq_iff_eq

theorem le_iff {x y : Float} : x ≤ y ↔ ((unpack x).compare (unpack y)).any (·.isLE) = true := by
  show decide (x.toModel ≤ y.toModel) = true ↔ _
  rw [decide_eq_true_iff]
  rfl

@[simp] theorem unpack_zero : unpack 0.0 = .zero .positive := rfl

/-- A number equals itself unless it is not a number. -/
theorem compare_self {u : Float.Model.UnpackedFloat} (h : u ≠ .notANumber) : u.compare u = some .eq := by
  rcases u with s | _ | s | ⟨s, m, e, hm⟩
  · cases s <;> rfl
  · exact absurd rfl h
  · rfl
  · have hfields : (Ord.compare e e).then (Ord.compare m m) = .eq := by
      rw [Std.ReflOrd.compare_self, Std.ReflOrd.compare_self, Ordering.eq_then]
    cases s
    · exact congrArg some (congrArg Ordering.swap hfields)
    · exact congrArg some hfields

theorem beq_self_iff {x : Float} : (x == x) = true ↔ unpack x ≠ .notANumber := by
  rw [beq_eq, beq_iff_eq]
  constructor
  · intro h hn
    rw [hn] at h
    cases h
  · exact compare_self

/-- Only a zero equals zero. -/
theorem beq_zero_iff {x : Float} : (x == 0.0) = true ↔ ∃ s, unpack x = .zero s := by
  rw [beq_eq, unpack_zero, beq_iff_eq]
  rcases unpack x with s | _ | s | ⟨s, m, e, hm⟩
  · constructor
    · intro h
      cases s <;> cases h
    · rintro ⟨_, h⟩
      cases h
  · constructor
    · intro h
      cases h
    · rintro ⟨_, h⟩
      cases h
  · exact iff_of_true rfl ⟨s, rfl⟩
  · constructor
    · intro h
      cases s <;> cases h
    · rintro ⟨_, h⟩
      cases h

theorem not_finite_infinity (s : Sign) : ¬ ((∃ t, Float.Model.UnpackedFloat.infinity s = .zero t) ∨
    ∃ t m e h, Float.Model.UnpackedFloat.infinity s = .finite t m e h) := by
  rintro (⟨_, hz⟩ | ⟨_, _, _, _, hf⟩)
  · cases hz
  · cases hf

theorem not_finite_notANumber : ¬ ((∃ t, Float.Model.UnpackedFloat.notANumber = .zero t) ∨
    ∃ t m e h, Float.Model.UnpackedFloat.notANumber = .finite t m e h) := by
  rintro (⟨_, hz⟩ | ⟨_, _, _, _, hf⟩)
  · cases hz
  · cases hf

/-- A number is finite if it is a zero or has a significand. -/
theorem isFinite_iff {x : Float} : Scalar.isFinite x = true ↔
    (∃ s, unpack x = .zero s) ∨ ∃ s m e h, unpack x = .finite s m e h := by
  show (pack (.sub Format.binary64 (unpack x) (unpack x)) == 0.0) = true ↔ _
  rw [beq_zero_iff]
  rcases unpack x with s | _ | s | ⟨s, m, e, hm⟩
  · have h : Float.Model.UnpackedFloat.sub Format.binary64 (.infinity s) (.infinity s) = .notANumber := by
      cases s <;> rfl
    rw [h, unpack_pack_notANumber]
    exact iff_of_false (fun hz => not_finite_notANumber (.inl hz)) (not_finite_infinity s)
  · have h : Float.Model.UnpackedFloat.sub Format.binary64 .notANumber .notANumber = .notANumber := rfl
    rw [h, unpack_pack_notANumber]
    exact iff_of_false (fun hz => not_finite_notANumber (.inl hz)) not_finite_notANumber
  · have h : Float.Model.UnpackedFloat.sub Format.binary64 (.zero s) (.zero s) = .zero .positive := by
      cases s <;> rfl
    rw [h, unpack_pack_zero]
    exact iff_of_true ⟨_, rfl⟩ (.inl ⟨s, rfl⟩)
  · have h : Float.Model.UnpackedFloat.sub Format.binary64 (.finite s m e hm) (.finite s m e hm) =
        .zero .positive := by
      show Float.Model.UnpackedFloat.normalize Format.binary64 (_ - _) _ .positive = _
      rw [Int.sub_self]
      rfl
    rw [h, unpack_pack_zero]
    exact iff_of_true ⟨_, rfl⟩ (.inr ⟨s, m, e, hm, rfl⟩)

/-- The doubles that are not finite. -/
theorem of_not_isFinite {x : Float} (h : ¬ Scalar.isFinite x = true) :
    x = 0.0 / 0.0 ∨ x = 1.0 / 0.0 ∨ x = -(1.0 / 0.0) := by
  rw [isFinite_iff, not_or, not_exists] at h
  cases hu : unpack x with
  | notANumber => exact .inl (ext_unpack hu)
  | infinity s =>
    cases s with
    | negative => exact .inr (.inr (ext_unpack hu))
    | positive => exact .inr (.inl (ext_unpack hu))
  | zero s => exact absurd hu (h.1 s)
  | finite s m e hm => exact absurd ⟨s, m, e, hm, hu⟩ h.2

/-! ## Zeros -/

/-- The same number; a zero without its sign. -/
def plain (x : Float) : Float := if x == 0.0 then 0.0 else x

theorem plain_of_zero {x : Float} {s : Sign} (h : unpack x = .zero s) : plain x = 0.0 :=
  if_pos (beq_zero_iff.2 ⟨s, h⟩)

theorem plain_of_ne_zero {x : Float} (h : ∀ s, unpack x ≠ .zero s) : plain x = x := by
  refine if_neg ?_
  intro hx
  obtain ⟨s, hs⟩ := beq_zero_iff.1 hx
  exact h s hs

end StencilKit.Binary64
