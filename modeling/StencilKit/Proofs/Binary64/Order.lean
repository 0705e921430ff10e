/-
The total order of doubles, and the reading order of points.

Two doubles have the same rank only if they are the same double, so nothing is left open between points
that have the same place in reading order.
-/
import StencilKit.Plane.Point
import StencilKit.Proofs.Binary64.Word
import StencilKit.Scalar.Double

namespace StencilKit

open Float.Model (Format UnpackedFloat)

/-- Doubles of the same rank are the same. -/
theorem binary64Rank_injective {x y : Float} (h : binary64Rank x = binary64Rank y) : x = y := by
  have hx : x.toBits.toNat < 2 ^ 64 := x.toBits.toNat_lt
  have hy : y.toBits.toNat < 2 ^ 64 := y.toBits.toNat_lt
  have hsize : UInt64.size = 2 ^ 64 := rfl
  have hbits : x.toBits = y.toBits := by
    apply UInt64.toNat_inj.1
    simp only [binary64Rank, hsize] at h
    split at h <;> split at h <;> omega
  refine Binary64.ext_unpack ?_
  show UnpackedFloat.unpack Format.binary64 x.toBits.toBitVec = _
  rw [hbits]
  rfl

theorem binary64Rank_lt (x : Float) : binary64Rank x < 2 ^ 64 := by
  have hx : x.toBits.toNat < 2 ^ 64 := x.toBits.toNat_lt
  have hsize : UInt64.size = 2 ^ 64 := rfl
  simp only [binary64Rank, hsize]
  split <;> omega

namespace Point

/-- The place of a point in reading order. -/
def rank (p : Point Float) : Nat := binary64Rank p.x * 2 ^ 64 + binary64Rank p.y

theorem order_eq_lt_iff {p q : Point Float} : p.order q = .lt ↔ p.rank < q.rank := by
  have hp := binary64Rank_lt p.y
  have hq := binary64Rank_lt q.y
  show (compare (binary64Rank p.x) (binary64Rank q.x)).then (compare (binary64Rank p.y) (binary64Rank q.y)) = .lt ↔ _
  rw [Ordering.then_eq_lt, Nat.compare_eq_lt, Nat.compare_eq_eq, Nat.compare_eq_lt, rank, rank]
  omega

/-- **Points at the same place in reading order are the same.** -/
theorem rank_injective {p q : Point Float} (h : p.rank = q.rank) : p = q := by
  have hp := binary64Rank_lt p.y
  have hq := binary64Rank_lt q.y
  simp only [rank] at h
  have hx : binary64Rank p.x = binary64Rank q.x := by omega
  have hy : binary64Rank p.y = binary64Rank q.y := by omega
  obtain ⟨px, py⟩ := p
  obtain ⟨qx, qy⟩ := q
  rw [Point.mk.injEq]
  exact ⟨binary64Rank_injective hx, binary64Rank_injective hy⟩

end Point

end StencilKit
