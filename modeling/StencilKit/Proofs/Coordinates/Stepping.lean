/-
Where stepping ends.

In exact coordinates a progression that stays below a number has the terms that fall short of it by more than
the slack, and one that goes through it has those that exceed it by no more than the slack, both measured in
steps (`lt_count_below`, `lt_count_through`). So the first one never gets to its end, and the second one may
get past it. The numbers that are stepped through are thereby all told, in their order (`toList_stepped`).
-/
import Mathlib.Data.List.Sort
import StencilKit.Proofs.Coordinates.Arithmetic
import StencilKit.Plane.Progression

namespace StencilKit.Progression

variable {K : Type} [Field K] [LinearOrder K] [IsStrictOrderedRing K] [FloorRing K] [Transcendental K]

omit [IsStrictOrderedRing K] in
theorem mem_toList {p : Progression K} {x : K} : x ∈ p.toList ↔ ∃ k < p.count, p.start + k * p.step = x := by
  rw [toList, List.mem_map]
  exact exists_congr fun k => and_congr_left fun _ => List.mem_range

omit [IsStrictOrderedRing K] in
theorem isProper_iff {start stop step : K} : isProper start stop step = true ↔ 0 < step ∧ start ≤ stop := by
  simp [isProper]

theorem lt_toCount_intCast {k : Nat} {z : ℤ} : k < Scalar.toCount (z : K) ↔ (k : K) < z := by
  show k < ⌊(z : K)⌋.toNat ↔ _
  rw [Int.floor_intCast, Int.lt_toNat]
  exact_mod_cast Iff.rfl

omit [IsStrictOrderedRing K] in
theorem slack_eq : (slack : K) = 1 / 10 ^ 9 := by
  show ((1 : Nat) : K) / 10 ^ 9 = 1 / 10 ^ 9
  rw [Nat.cast_one]

theorem slack_pos : (0 : K) < slack := by
  show (0 : K) < ((1 : Nat) : K) / 10 ^ 9
  positivity

theorem slack_lt_half : (slack : K) < 1 / 2 := by
  show ((1 : Nat) : K) / 10 ^ 9 < 1 / 2
  norm_num

variable {start stop step : K}

omit [IsStrictOrderedRing K] in
theorem wholeSteps_eq : wholeSteps start stop step = (⌊(stop - start) / step + slack⌋ : ℤ) := rfl

/-- There is a last, partial step if the whole steps end short of the span by more than the slack. They never
end past it by more. -/
theorem hasRemainder_iff :
    hasRemainder start stop step = true ↔ wholeSteps start stop step < (stop - start) / step - slack := by
  have hwhole : wholeSteps start stop step ≤ (stop - start) / step + slack := Int.floor_le _
  rw [hasRemainder, decide_eq_true_eq, Scalar.magnitude_eq, lt_abs]
  constructor
  · rintro (h | h) <;> linarith
  · exact fun h => .inl (by linarith)

theorem natCast_le_wholeSteps {k : Nat} :
    (k : K) ≤ wholeSteps start stop step ↔ k ≤ (stop - start) / step + slack := by
  have hfloor : (k : ℤ) ≤ ⌊(stop - start) / step + slack⌋ ↔ ((k : ℤ) : K) ≤ (stop - start) / step + slack :=
    Int.le_floor
  rw [Int.cast_natCast] at hfloor
  rw [← hfloor, wholeSteps_eq]
  exact_mod_cast Iff.rfl

/-- A whole number of steps and one more are more than those up to that number. -/
theorem lt_toCount_wholeSteps_add_one {k : Nat} :
    k < Scalar.toCount (wholeSteps start stop step + 1) ↔ (k : K) ≤ wholeSteps start stop step := by
  have hsucc : wholeSteps start stop step + 1 = ((⌊(stop - start) / step + slack⌋ + 1 : ℤ) : K) := by
    rw [Int.cast_add, Int.cast_one, wholeSteps_eq]
  rw [hsucc, lt_toCount_intCast, wholeSteps_eq]
  exact_mod_cast Int.lt_add_one_iff

/-- **Which terms there are below a number.** -/
theorem lt_count_below (h : isProper start stop step = true) {k : Nat} :
    k < (below start stop step).count ↔ k < (stop - start) / step - slack := by
  have hslack : (0 : K) < slack := slack_pos
  have hhalf : (slack : K) < 1 / 2 := slack_lt_half
  have hwhole : wholeSteps start stop step ≤ (stop - start) / step + slack := Int.floor_le _
  have hcount : (below start stop step).count = Scalar.toCount (if hasRemainder start stop step = true then
      wholeSteps start stop step + 1 else wholeSteps start stop step) := if_pos h
  rw [hcount]
  split
  · rename_i hrest
    rw [hasRemainder_iff] at hrest
    rw [lt_toCount_wholeSteps_add_one]
    exact ⟨fun hk => hk.trans_lt hrest, fun hk => natCast_le_wholeSteps.2 (by linarith)⟩
  · rename_i hrest
    rw [hasRemainder_iff, not_lt] at hrest
    have hlast : (k : K) < wholeSteps start stop step → (k : K) + 1 ≤ wholeSteps start stop step := by
      rw [wholeSteps_eq]
      exact_mod_cast Int.add_one_le_iff.2
    refine lt_toCount_intCast.trans ⟨fun hk => ?_, fun hk => hk.trans_le hrest⟩
    linarith [hlast hk]

theorem lt_length_below (hstep : 0 < step) (hends : start ≤ stop) {k : Nat} :
    k < (below start stop step).toList.length ↔ k * step < stop - start - 1 / 10 ^ 9 * step := by
  rw [toList, List.length_map, List.length_range, lt_count_below (isProper_iff.2 ⟨hstep, hends⟩), slack_eq,
    lt_sub_iff_add_lt, lt_div_iff₀ hstep, add_mul]
  exact lt_sub_iff_add_lt.symm

/-- **Which terms there are through a number.** -/
theorem lt_count_through (h : isProper start stop step = true) {k : Nat} :
    k < (through start stop step).count ↔ k ≤ (stop - start) / step + slack := by
  rw [through, if_pos h, lt_toCount_wholeSteps_add_one, natCast_le_wholeSteps]

/-- What is stepped through below a number lies below it. -/
theorem mem_below {x : K} (h : x ∈ (below start stop step).toList) : start ≤ x ∧ x < stop := by
  obtain ⟨k, hk, rfl⟩ := mem_toList.1 h
  cases hproper : isProper start stop step with
  | false => simp [below, hproper] at hk
  | true =>
    obtain ⟨hstep, -⟩ := isProper_iff.1 hproper
    have hshort : k < (stop - start) / step := ((lt_count_below hproper).1 hk).trans (sub_lt_self _ slack_pos)
    rw [lt_div_iff₀ hstep] at hshort
    exact ⟨le_add_of_nonneg_right (by positivity), by
      show start + k * step < stop
      linarith⟩

/-- Whether a length is short of a whole number of steps, but by so little that it counts as that many. -/
def FallsShort (length step : K) : Prop := ∃ n : Nat, length < n * step ∧ n * step ≤ length + slack * step

/-- **Stepping through a length gets past its end** only if the length falls short of the steps, and by no more
than that. -/
theorem mem_through {length x : K} (h : x ∈ (through 0 length step).toList) :
    0 ≤ x ∧ (length < x → FallsShort length step ∧ x ≤ length + slack * step) := by
  obtain ⟨k, hk, rfl⟩ := mem_toList.1 h
  cases hproper : isProper 0 length step with
  | false => simp [through, hproper] at hk
  | true =>
    obtain ⟨hstep, -⟩ := isProper_iff.1 hproper
    have hlong : k - slack ≤ (length - 0) / step := sub_le_iff_le_add.2 ((lt_count_through hproper).1 hk)
    have hend : k * step ≤ length + slack * step := by
      rw [le_div_iff₀ hstep] at hlong
      linarith
    show 0 ≤ 0 + k * step ∧ (length < 0 + k * step → FallsShort length step ∧ 0 + k * step ≤ length + slack * step)
    rw [zero_add]
    exact ⟨by positivity, fun hpast => ⟨⟨k, hpast, hend⟩, hend⟩⟩

/-! ## The numbers stepped through -/

/-- Whether numbers are `start`, one step more, two steps more, and so on, as long as `within` allows of the way
from `start`, and in increasing order. -/
structure IsStepped (start step : K) (within : K → Prop) (xs : List K) : Prop where
  getElem? : ∀ (k : Nat) (x : K), xs[k]? = some x ↔ within (k * step) ∧ start + k * step = x
  sorted : xs.SortedLT

omit [IsStrictOrderedRing K] in
theorem getElem_toList {p : Progression K} {k : Nat} (h : k < p.toList.length) :
    p.toList[k] = p.start + k * p.step := by
  simp only [toList, List.getElem_map, List.getElem_range]
  rfl

theorem sortedLT_toList {p : Progression K} (h : 0 < p.step) : p.toList.SortedLT := by
  rw [toList, List.sortedLT_iff_pairwise, List.pairwise_map]
  exact List.pairwise_lt_range.imp fun hlt => add_lt_add_right (mul_lt_mul_of_pos_right (Nat.cast_lt.2 hlt) h) _

theorem isStepped_toList (p : Progression K) {within : K → Prop} (hstep : 0 < p.step)
    (hlength : ∀ k : Nat, k < p.toList.length ↔ within (k * p.step)) :
    IsStepped p.start p.step within p.toList where
  getElem? k x := by
    rw [List.getElem?_eq_some_iff, ← hlength k, ← exists_prop]
    exact exists_congr fun h => by rw [getElem_toList h]
  sorted := sortedLT_toList hstep

theorem lt_length_through (hstep : 0 < step) (hends : start ≤ stop) {k : Nat} :
    k < (through start stop step).toList.length ↔ k * step ≤ stop - start + 1 / 10 ^ 9 * step := by
  rw [toList, List.length_map, List.length_range, lt_count_through (isProper_iff.2 ⟨hstep, hends⟩), slack_eq,
    ← sub_le_iff_le_add, le_div_iff₀ hstep, sub_mul, sub_le_iff_le_add]

/-- Whatever the numbers are, there is nothing to step through unless the step is positive and the ends are finite
and in order. -/
theorem toList_eq_nil {α : Type} [Scalar α] {start stop step : α} (h : isProper start stop step = false) :
    (below start stop step).toList = [] ∧ (through start stop step).toList = [] := by
  simp [toList, below, through, h]

/-- **The numbers stepped through**, by a positive step and from `start` to a number that is not before it: below the
end they are those that fall short of it by more than `10 ^ -9` of a step, and through the end those that exceed it
by no more than that. There are none otherwise. -/
theorem toList_stepped (start stop step : K) :
    (start ≤ stop → 0 < step →
      IsStepped start step (· < stop - start - 1 / 10 ^ 9 * step) (below start stop step).toList ∧
      (∀ x ∈ (below start stop step).toList, x < stop) ∧
      IsStepped start step (· ≤ stop - start + 1 / 10 ^ 9 * step) (through start stop step).toList) ∧
    (¬(start ≤ stop ∧ 0 < step) →
      (below start stop step).toList = [] ∧ (through start stop step).toList = []) := by
  refine ⟨fun hends hstep => ⟨?_, fun x hx => (mem_below hx).2, ?_⟩, fun hother => ?_⟩
  · exact isStepped_toList (below start stop step) hstep fun k => lt_length_below hstep hends
  · exact isStepped_toList (through start stop step) hstep fun k => lt_length_through hstep hends
  · exact toList_eq_nil (Bool.eq_false_iff.2 fun hproper => hother (isProper_iff.1 hproper).symm)

/-- An end that is short of the third step by just the slack: the step gets past it and still counts as meeting it. -/
theorem toList_stepped_short :
    let stop : ℚ := 7 - 2 / 10 ^ 9
    (1 ≤ stop ∧ (0 : ℚ) < 2 ∧ ¬((7 : ℚ) ≤ 1 ∧ (0 : ℚ) < 2)) ∧
      (below 1 stop 2).toList = [1, 3, 5] ∧ IsStepped 1 2 (· < 6 - 4 / 10 ^ 9) (below 1 stop 2).toList ∧
      (through 1 stop 2).toList = [1, 3, 5, 7] ∧ IsStepped 1 2 (· ≤ 6) (through 1 stop 2).toList ∧
      (below (7 : ℚ) 1 2).toList = [] ∧ (through (7 : ℚ) 1 2).toList = [] := by
  intro stop
  have hends : 1 ≤ stop := by norm_num [stop]
  have hstep : (0 : ℚ) < 2 := by norm_num
  have hother : ¬((7 : ℚ) ≤ 1 ∧ (0 : ℚ) < 2) := by norm_num
  have hshort : stop - 1 - 1 / 10 ^ 9 * 2 = 6 - 4 / 10 ^ 9 := by norm_num [stop]
  have hlong : stop - 1 + 1 / 10 ^ 9 * 2 = 6 := by norm_num [stop]
  obtain ⟨hbelow, -, hthrough⟩ := (toList_stepped 1 stop 2).1 hends hstep
  rw [hshort] at hbelow
  rw [hlong] at hthrough
  exact ⟨⟨hends, hstep, hother⟩, by decide +kernel, hbelow, by decide +kernel, hthrough,
    (toList_stepped 7 1 2).2 hother⟩

end StencilKit.Progression
