/-
A double is read back from its text.

The text of a finite double is an optional sign and digits around an optional point. It reads as a
decimal that rounds to the magnitude of the double, and so as the double itself (`read_text`). Only
the sign of a zero is lost on the way, since both zeros have one text (`read_numeralChars`).
-/
import Mathlib.Tactic.IntervalCases
import StencilKit.Decimal.Reading
import StencilKit.Proofs.Binary64.Finite
import StencilKit.Proofs.Binary64.Scientific
import StencilKit.Proofs.Decimal.Shortest
import StencilKit.Proofs.Text.Blank

namespace StencilKit.Decimal

open Binary64
open Float.Model.UnpackedFloat (Sign)

/-! ## Digits -/

theorem ofDigits_eq (ds : List Char) : ofDigits ds = Nat.ofDigitChars 10 ds 0 :=
  Nat.ofDigitChars_eq_foldl.symm

theorem isDigit_of_mem_toDigits {c : Char} {n : Nat} (h : c ∈ Nat.toDigits 10 n) : c.isDigit = true :=
  Nat.isDigit_of_mem_toDigits (by decide) (by decide) h

theorem isDigit_of_mem_replicate {c : Char} {n : Nat} (h : c ∈ List.replicate n '0') : c.isDigit = true := by
  rw [List.eq_of_mem_replicate h]
  decide

/-- What holds of the ten digits. -/
theorem of_isDigit {p : Char → Prop} {c : Char} (hc : c.isDigit = true)
    (h : ∀ d ∈ ['0', '1', '2', '3', '4', '5', '6', '7', '8', '9'], p d) : p c := by
  obtain ⟨hlow, hhigh⟩ := Char.isDigit_iff_toNat.1 hc
  have hle : 48 ≤ c.toNat := hlow
  have hge : c.toNat ≤ 57 := hhigh
  have hc' := Char.ofNat_toNat c
  generalize c.toNat = n at hle hge hc'
  subst hc'
  interval_cases n <;> exact h _ (by decide)

/-- Digits are read up to what is none. -/
theorem spanDigits_append {ds : List Char} (hds : ∀ c ∈ ds, c.isDigit = true) (rest : List Char)
    (hrest : ∀ c ∈ rest.head?, c.isDigit = false) : spanDigits (ds ++ rest) = (ds, rest) := by
  unfold spanDigits
  induction ds with
  | nil =>
    cases rest with
    | nil => rfl
    | cons c cs =>
      have hc := hrest c rfl
      simp [hc]
  | cons d ds ih =>
    have hd := hds d List.mem_cons_self
    have := ih fun c hc => hds c (List.mem_cons_of_mem _ hc)
    simp only [Prod.mk.injEq] at this
    simp [hd, this.1, this.2]

/-- Digits around a decimal point. -/
theorem readLiteral_pointed (whole frac : List Char) (hwhole : ∀ c ∈ whole, c.isDigit = true)
    (hfrac : ∀ c ∈ frac, c.isDigit = true) (hne : whole ≠ []) :
    readLiteral (whole ++ '.' :: frac) = some ⟨ofDigits (whole ++ frac), -frac.length⟩ := by
  have h₁ := spanDigits_append hwhole ('.' :: frac) (by simp)
  have h₂ := spanDigits_append hfrac [] (by simp)
  rw [List.append_nil] at h₂
  simp [readLiteral, h₁, h₂, readExponent, hne]

namespace Grid

/-- The text of a decimal reads as a decimal of the same value. -/
theorem readLiteral_text (g : Grid) :
    ∃ l : Literal, readLiteral g.text = some l ∧ (l.coeff * 10 ^ l.exp : ℚ) = g.coeff * 10 ^ g.exp := by
  obtain ⟨c, e⟩ := g
  have hdigits : ∀ d ∈ Nat.toDigits 10 c, d.isDigit = true := fun d hd => isDigit_of_mem_toDigits hd
  have hne : Nat.toDigits 10 c ≠ [] := Nat.toDigits_ne_nil
  unfold text
  dsimp only
  by_cases hplaces : (-e).toNat = 0
  · -- Digits and zeros to the end.
    rw [if_pos hplaces]
    have hall : ∀ d ∈ Nat.toDigits 10 c ++ List.replicate e.toNat '0', d.isDigit = true :=
      fun d hd => (List.mem_append.1 hd).elim (hdigits d) isDigit_of_mem_replicate
    have hspan := spanDigits_append hall [] (by simp)
    rw [List.append_nil] at hspan
    refine ⟨⟨10 ^ e.toNat * c, 0⟩, ?_, ?_⟩
    · simp [readLiteral, hspan, readExponent, ofDigits_eq, Nat.ofDigitChars_append, hne]
    · have he : (10 : ℚ) ^ e = 10 ^ e.toNat := by
        rw [← zpow_natCast, Int.toNat_of_nonneg (by omega)]
      simp only [he, Nat.cast_mul, Nat.cast_pow, Nat.cast_ofNat, zpow_zero, mul_one]
      ring
  · rw [if_neg hplaces]
    have hexp : -(((-e).toNat : Nat) : Int) = e := by omega
    by_cases hlen : (-e).toNat < (Nat.toDigits 10 c).length
    · -- A point among the digits.
      rw [if_pos hlen]
      have hread := readLiteral_pointed
        ((Nat.toDigits 10 c).take ((Nat.toDigits 10 c).length - (-e).toNat))
        ((Nat.toDigits 10 c).drop ((Nat.toDigits 10 c).length - (-e).toNat))
        (fun d hd => hdigits d (List.mem_of_mem_take hd)) (fun d hd => hdigits d (List.mem_of_mem_drop hd))
        (by simp [hne]; omega)
      refine ⟨_, hread, ?_⟩
      have hfrac : (Nat.toDigits 10 c).length - ((Nat.toDigits 10 c).length - (-e).toNat) = (-e).toNat := by omega
      rw [List.take_append_drop, ofDigits_eq, Nat.ofDigitChars_ten_toDigits, List.length_drop, hfrac, hexp]
    · -- Zeros in front of the digits.
      rw [if_neg hlen]
      have hread := readLiteral_pointed ['0']
        (List.replicate ((-e).toNat - (Nat.toDigits 10 c).length) '0' ++ Nat.toDigits 10 c)
        (by simp) (fun d hd => (List.mem_append.1 hd).elim isDigit_of_mem_replicate (hdigits d)) (by simp)
      refine ⟨_, hread, ?_⟩
      have hcoeff : ofDigits (['0'] ++ (List.replicate ((-e).toNat - (Nat.toDigits 10 c).length) '0' ++
          Nat.toDigits 10 c)) = c := by
        rw [ofDigits_eq, Nat.ofDigitChars_append, Nat.ofDigitChars_append]
        simp [Nat.ofDigitChars_cons]
      have hfrac : (-e).toNat - (Nat.toDigits 10 c).length + (Nat.toDigits 10 c).length = (-e).toNat := by omega
      rw [hcoeff, List.length_append, List.length_replicate, hfrac, hexp]

/-- The text of a decimal begins with a digit, and holds only digits and a point. -/
theorem text_head (g : Grid) : ∃ d cs, g.text = d :: cs ∧ d.isDigit = true := by
  obtain ⟨c, e⟩ := g
  obtain ⟨d, ds, hd⟩ := List.exists_cons_of_ne_nil (Nat.toDigits_ne_nil : Nat.toDigits 10 c ≠ [])
  have hdigit : d.isDigit = true := isDigit_of_mem_toDigits (hd ▸ List.mem_cons_self)
  unfold text
  dsimp only
  split
  · exact ⟨d, ds ++ List.replicate e.toNat '0', by rw [hd, List.cons_append], hdigit⟩
  · split
    · rename_i hlen
      obtain ⟨n, hn⟩ := Nat.exists_eq_succ_of_ne_zero (Nat.sub_pos_of_lt hlen).ne'
      exact ⟨d, ds.take n ++ '.' :: (Nat.toDigits 10 c).drop (n + 1), by rw [hn, hd]; rfl, hdigit⟩
    · exact ⟨'0', _, rfl, by decide⟩

theorem of_mem_text {g : Grid} {c : Char} (h : c ∈ g.text) : c.isDigit = true ∨ c = '.' := by
  unfold text at h
  dsimp only at h
  split at h
  · rcases List.mem_append.1 h with h | h
    · exact .inl (isDigit_of_mem_toDigits h)
    · exact .inl (isDigit_of_mem_replicate h)
  · split at h
    · rcases List.mem_append.1 h with h | h
      · exact .inl (isDigit_of_mem_toDigits (List.mem_of_mem_take h))
      · rcases List.mem_cons.1 h with rfl | h
        · exact .inr rfl
        · exact .inl (isDigit_of_mem_toDigits (List.mem_of_mem_drop h))
    · simp only [List.mem_cons, List.mem_append] at h
      rcases h with rfl | rfl | h | h
      · exact .inl (by decide)
      · exact .inr rfl
      · exact .inl (isDigit_of_mem_replicate h)
      · exact .inl (isDigit_of_mem_toDigits h)

end Grid

/-! ## Decimals near a double -/

/-- The size of a decimal: a power of ten above it, and the one below. -/
theorem ten_zpow_of_toDigits {c : Nat} (hc : 0 < c) (e : Int) :
    (10 : ℚ) ^ ((Nat.toDigits 10 c).length + e - 1 : Int) ≤ c * 10 ^ e ∧
      (c * 10 ^ e : ℚ) < 10 ^ ((Nat.toDigits 10 c).length + e : Int) := by
  obtain ⟨n, hn⟩ : ∃ n, (Nat.toDigits 10 c).length = n + 1 :=
    ⟨_, (Nat.succ_pred_eq_of_pos Nat.length_toDigits_pos).symm⟩
  have hp : (0 : ℚ) < 10 ^ e := by positivity
  have hhigh : c < 10 ^ (n + 1) := (Nat.length_toDigits_le_iff (by decide) (by omega)).1 hn.le
  have hlow : 10 ^ n ≤ c := by
    rcases Nat.eq_zero_or_pos n with rfl | hpos
    · exact hc
    · exact not_lt.1 fun h => absurd ((Nat.length_toDigits_le_iff (by decide) hpos).2 h) (by omega)
  rw [hn, show ((n + 1 : Nat) + e - 1 : Int) = n + e by omega, zpow_add₀ (by norm_num), zpow_add₀ (by norm_num)]
  constructor
  · exact mul_le_mul_of_nonneg_right (by exact_mod_cast hlow) hp.le
  · exact mul_lt_mul_of_pos_right (by exact_mod_cast hhigh) hp

/-- What rounds to a double is neither too large nor too small to be computed. -/
theorem size_of_nearest {c m : Nat} {e z : Int} (hpos : 0 < c) (hc : Canonical m e)
    (hn : Nearest m e (c * 10 ^ z)) :
    -400 ≤ (Nat.toDigits 10 c).length + z ∧ (Nat.toDigits 10 c).length + z ≤ 400 := by
  obtain ⟨hlow, hhigh⟩ := ten_zpow_of_toDigits hpos z
  have hp : (0 : ℚ) < 2 ^ e := by positivity
  -- Ten to the four hundredth is beyond eight to the four hundredth, and so beyond all doubles.
  have hten : (2 : ℚ) ^ 1200 < 10 ^ 400 := by
    rw [show 1200 = 3 * 400 from rfl, pow_mul]
    exact pow_lt_pow_left₀ (by norm_num) (by norm_num) (by norm_num)
  constructor
  · have hleast : (2 : ℚ) ^ (-1075 : Int) ≤ c * 10 ^ z := by
      have h₁ : (1 : ℚ) ≤ m := by exact_mod_cast hc.pos
      have h₂ : (2 : ℚ) ^ (-1075 + 1 : Int) ≤ 2 ^ e := zpow_le_zpow_right₀ (by norm_num) hc.least
      rw [zpow_add_one₀ (by norm_num)] at h₂
      nlinarith [hn.low]
    have hle : (10 : ℚ) ^ (-400 : Int) ≤ 2 ^ (-1075 : Int) := by
      refine le_trans ?_ (zpow_le_zpow_right₀ (by norm_num) (by norm_num : (-1200 : Int) ≤ -1075))
      rw [show (-400 : Int) = -(400 : Nat) from rfl, show (-1200 : Int) = -(1200 : Nat) from rfl, zpow_neg,
        zpow_neg, zpow_natCast, zpow_natCast]
      exact inv_anti₀ (by positivity) hten.le
    have := (zpow_lt_zpow_iff_right₀ (by norm_num)).1 ((hle.trans hleast).trans_lt hhigh)
    omega
  · have hmost : (c * 10 ^ z : ℚ) ≤ 2 ^ (54 + 971 : Int) := by
      have h₁ : (m : ℚ) + 1 ≤ 2 ^ (53 : Int) := by exact_mod_cast hc.lt
      have h₂ : (2 : ℚ) ^ e ≤ 2 ^ (971 : Int) := zpow_le_zpow_right₀ (by norm_num) hc.most
      have h₃ : (2 : ℚ) ^ (54 : Int) = 2 * 2 ^ (53 : Int) := by norm_num
      rw [zpow_add₀ (by norm_num), h₃]
      calc (c * 10 ^ z : ℚ) ≤ (m + 1 / 2) * 2 ^ e := hn.high
        _ ≤ (2 * 2 ^ (53 : Int)) * 2 ^ (971 : Int) := mul_le_mul (by linarith) h₂ hp.le (by positivity)
    have hlt : (2 : ℚ) ^ (54 + 971 : Int) < 10 ^ (400 : Int) := by
      refine lt_of_le_of_lt (zpow_le_zpow_right₀ (by norm_num) (by norm_num : (54 + 971 : Int) ≤ 1200)) ?_
      rw [show (400 : Int) = (400 : Nat) from rfl, show (1200 : Int) = (1200 : Nat) from rfl, zpow_natCast,
        zpow_natCast]
      exact hten
    have := (zpow_lt_zpow_iff_right₀ (by norm_num)).1 ((hlow.trans hmost).trans_lt hlt)
    omega

/-- A decimal near a positive double is read as it. -/
theorem unpack_toFloat {l : Literal} {m : Nat} {e : Int} (hpos : 0 < l.coeff) (hc : Canonical m e)
    (hn : Nearest m e (l.coeff * 10 ^ l.exp)) : unpack l.toFloat = .finite .positive m e hc.pos := by
  obtain ⟨hlow, hhigh⟩ := size_of_nearest hpos hc hn
  have hlen : (Nat.toDigits 10 l.coeff).length ≤ l.coeff.log2 + 1 := by
    rw [Nat.length_toDigits_le_iff (by decide) (by omega)]
    calc l.coeff < 2 ^ (l.coeff.log2 + 1) := Nat.lt_log2_self
      _ ≤ 10 ^ (l.coeff.log2 + 1) := Nat.pow_le_pow_left (by decide) _
  unfold Literal.toFloat
  dsimp only
  rw [if_neg hpos.ne', if_neg (by omega), if_neg (by omega)]
  by_cases hneg : l.exp < 0
  · rw [if_pos hneg]
    refine unpack_ofScientific hpos hc ?_ ?_
    · rw [if_pos rfl]
      omega
    · rw [if_pos rfl, Int.toNat_of_nonneg (by omega), neg_neg]
      exact hn
  · rw [if_neg hneg]
    refine unpack_ofScientific hpos hc ?_ ?_
    · rw [if_neg Bool.false_ne_true]
      omega
    · rw [if_neg Bool.false_ne_true, Int.toNat_of_nonneg (by omega)]
      exact hn

/-! ## Texts of doubles -/

/-- A text that begins with a digit is no word. -/
theorem readUnsigned_of_isDigit {d : Char} {cs : List Char} (hd : d.isDigit = true) :
    readUnsigned (d :: cs) = (readLiteral (d :: cs)).map Literal.toFloat := by
  have h : d.toLower ≠ 'i' ∧ d.toLower ≠ 'n' :=
    of_isDigit (p := fun d => d.toLower ≠ 'i' ∧ d.toLower ≠ 'n') hd (by decide)
  simp [readUnsigned, h.1, h.2]

/-- What a finite double stands for is its number. -/
theorem ofFloat_of_finite {x : Float} {s : Sign} {m : Nat} {e : Int} {h : 0 < m}
    (hx : unpack x = .finite s m e h) :
    Reading.ofFloat x = .finite (s == .negative) ⟨m, e, decide (m = 2 ^ 52 ∧ -1074 < e)⟩ := by
  have hsign : decide (UInt64.size / 2 ≤ (word x).toNat) =
      (Sign.ofBitVec (Float.Model.UnpackedFloat.unpackSign (word x)) == .negative) := by
    have hn := toNat_unpackSign (word x)
    have hlt : (word x).toNat < 2 ^ 64 := (word x).isLt
    have hsize : UInt64.size / 2 = 2 ^ 63 := rfl
    by_cases hneg : 2 ^ 63 ≤ (word x).toNat
    · have : Float.Model.UnpackedFloat.unpackSign (word x) = 1#1 :=
        BitVec.eq_of_toNat_eq (by rw [hn, BitVec.toNat_ofNat]; omega)
      rw [this, hsize, decide_eq_true hneg]
      rfl
    · have : Float.Model.UnpackedFloat.unpackSign (word x) = 0#1 :=
        BitVec.eq_of_toNat_eq (by rw [hn, BitVec.toNat_ofNat]; omega)
      rw [this, hsize, decide_eq_false hneg]
      rfl
  show Reading.ofBits (word x).toNat = _
  unfold Reading.ofBits leadingBit
  rw [hsign]
  have hfields : Fields (word x) (unpack x) := fields_unpack (word x)
  rw [hx] at hfields
  cases hfields with
  | subnormal he hf =>
    dsimp only
    rw [if_neg (by omega), if_pos (by omega), if_neg (by omega)]
    simp
  | normal he hne hf =>
    dsimp only
    rw [if_neg (by omega), if_neg (by omega)]
    simp only [Reading.finite.injEq, Binary.mk.injEq, true_and]
    refine ⟨by omega, by omega, ?_⟩
    congr 1
    simp only [eq_iff_iff]
    omega

/-- **A finite double is read back from its text**, if it is not zero. -/
theorem read_text {x : Float} {s : Sign} {m : Nat} {e : Int} {h : 0 < m} (hx : unpack x = .finite s m e h) :
    read (Reading.ofFloat x).text = some x := by
  have hc := canonical_of_unpack hx
  obtain ⟨b, hb⟩ : ∃ b : Binary, b = ⟨m, e, decide (m = 2 ^ 52 ∧ -1074 < e)⟩ := ⟨_, rfl⟩
  obtain ⟨hadmits, hpos⟩ := b.admits_shortest (by rw [hb]; exact h)
  obtain ⟨l, hl, hv⟩ := b.shortest.readLiteral_text
  obtain ⟨d, cs, htext, hd⟩ := b.shortest.text_head
  have hn : Nearest m e (l.coeff * 10 ^ l.exp) := by
    have hsig : b.sig = m := by rw [hb]
    have hexp : b.exp = e := by rw [hb]
    have htight : b.sig = 2 ^ 52 ∧ -1074 < b.exp → b.tight = true := by
      rw [hb]
      exact decide_eq_true
    have hnearest := Binary.nearest_of_admits (hsig ▸ h) htight hadmits
    rwa [hv, ← hsig, ← hexp]
  have hlpos : 0 < l.coeff := by
    have : (0 : ℚ) < l.coeff * 10 ^ l.exp := by
      rw [hv]
      have : (0 : ℚ) < b.shortest.coeff := by exact_mod_cast hpos
      positivity
    exact_mod_cast pos_of_mul_pos_left this (by positivity)
  have hunsigned : readUnsigned (d :: cs) = some l.toFloat := by
    rw [readUnsigned_of_isDigit hd, ← htext, hl]
    rfl
  have hfloat := unpack_toFloat hlpos hc hn
  rw [ofFloat_of_finite hx, ← hb]
  show read (signed (s == .negative) b.shortest.text) = _
  rw [htext]
  cases s with
  | negative =>
    have hread : read ('-' :: d :: cs) = some (-l.toFloat) := by
      simp [read, splitSign, hunsigned]
    refine hread.trans (congrArg some (ext_unpack ?_))
    rw [hx]
    show unpack (pack (unpack l.toFloat).neg) = _
    rw [hfloat]
    exact unpack_pack_finite hc
  | positive =>
    have hsplit : splitSign (d :: cs) = (false, d :: cs) :=
      of_isDigit (p := fun d => splitSign (d :: cs) = (false, d :: cs)) hd (by simp [splitSign])
    have hread : read (d :: cs) = some l.toFloat := by
      simp [read, hsplit, hunsigned]
    refine hread.trans (congrArg some (ext_unpack ?_))
    rw [hx, hfloat]

/-- **A double is read back from its numeral**, a zero without its sign. -/
theorem read_numeralChars (x : Float) : read (numeralChars x) = some (plain x) := by
  by_cases hx : Scalar.isFinite x = true
  · unfold numeralChars
    rcases isFinite_iff.1 hx with ⟨s, hs⟩ | ⟨s, m, e, h, hs⟩
    · have hz : (x == 0) = true := beq_zero_iff.2 ⟨s, hs⟩
      rw [if_pos hz, plain_of_zero hs]
      rfl
    · have hne : ∀ t, unpack x ≠ .zero t := by
        intro t ht
        cases hs.symm.trans ht
      have hz : (x == 0.0) ≠ true := by
        intro h
        obtain ⟨t, ht⟩ := beq_zero_iff.1 h
        exact hne t ht
      rw [if_neg (by exact hz), plain_of_ne_zero hne]
      exact read_text hs
  · rcases of_not_isFinite hx with rfl | rfl | rfl <;> decide

/-- The characters of a numeral. -/
theorem of_mem_numeralChars {x : Float} {c : Char} (hc : c ∈ numeralChars x) :
    c.isDigit = true ∨ c ∈ ['.', '-', 'N', 'a', 'i', 'n', 'f'] := by
  by_cases hx : Scalar.isFinite x = true
  · unfold numeralChars at hc
    split at hc
    · rw [List.mem_singleton] at hc
      subst hc
      exact .inl (by decide)
    · rename_i hz
      rcases isFinite_iff.1 hx with ⟨s, hs⟩ | ⟨s, m, e, h, hs⟩
      · exact absurd (beq_zero_iff.2 ⟨s, hs⟩) hz
      · have hpoint : ∀ {c : Char}, c = '.' → c ∈ ['.', '-', 'N', 'a', 'i', 'n', 'f'] := by
          rintro _ rfl
          decide
        rw [ofFloat_of_finite hs] at hc
        simp only [Reading.text, signed] at hc
        split at hc
        · rcases List.mem_cons.1 hc with rfl | hc
          · exact .inr (by decide)
          · exact (Grid.of_mem_text hc).imp_right hpoint
        · exact (Grid.of_mem_text hc).imp_right hpoint
  · have hletter : ∀ {cs : List Char}, (∀ c ∈ cs, c ∈ ['.', '-', 'N', 'a', 'i', 'n', 'f']) → c ∈ cs →
        c.isDigit = true ∨ c ∈ ['.', '-', 'N', 'a', 'i', 'n', 'f'] := fun h hc => .inr (h c hc)
    rcases of_not_isFinite hx with rfl | rfl | rfl <;> exact hletter (by decide) hc

end StencilKit.Decimal
