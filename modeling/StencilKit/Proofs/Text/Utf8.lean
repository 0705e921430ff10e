/-
A text is read back from its UTF-8, and bytes that are read are the UTF-8 of what is read.

The lead byte tells how many bytes follow, and the bits of all bytes together are the code point; so
one character is read back in front of any bytes (`decodeFrom_encodeChar`), and a text by induction.
That no code point is a surrogate matters for one lead byte only (`mayFollow_trail`). Conversely the
bounds that the second byte is held to leave no code point a second, longer spelling (`mayFollow_spec`).
-/
import Mathlib.Tactic.SplitIfs
import StencilKit.Text.Utf8

namespace StencilKit.Utf8

/-! ## Bytes -/

theorem ofNat_lt_iff {n : Nat} {k : UInt8} (h : n < 256) : UInt8.ofNat n < k ↔ n < k.toNat := by
  rw [UInt8.lt_iff_toNat_lt, UInt8.toNat_ofNat', Nat.mod_eq_of_lt h]

theorem ofNat_eq_iff {n : Nat} {k : UInt8} (h : n < 256) : UInt8.ofNat n = k ↔ n = k.toNat := by
  rw [← UInt8.toNat_inj, UInt8.toNat_ofNat', Nat.mod_eq_of_lt h]

theorem toNat_trail (n : Nat) : (trail n).toNat = 128 + n % 64 := by
  rw [trail, UInt8.toNat_ofNat']
  omega

theorem bits_trail (n : Nat) : bits (trail n) = n % 64 := by
  rw [bits, toNat_trail]
  omega

/-- Bounds of a byte that continues a sequence. -/
theorem trail_between {n : Nat} {lo hi : UInt8} (hlo : lo.toNat ≤ 128 + n % 64)
    (hhi : 128 + n % 64 ≤ hi.toNat) : (decide (lo ≤ trail n) && decide (trail n ≤ hi)) = true := by
  rw [Bool.and_eq_true, decide_eq_true_eq, decide_eq_true_eq, UInt8.le_iff_toNat_le, UInt8.le_iff_toNat_le,
    toNat_trail]
  exact ⟨hlo, hhi⟩

theorem isTrail_trail (n : Nat) : isTrail (trail n) = true := by
  refine trail_between ?_ ?_
  · show 128 ≤ 128 + n % 64
    omega
  · show 128 + n % 64 ≤ 191
    omega

/-- What narrows the second byte of a sequence. -/
theorem mayFollow_trail {k n : Nat} (hk : k < 256) (he0 : k = 0xe0 → 32 ≤ n % 64)
    (hed : k = 0xed → n % 64 < 32) (hf0 : k = 0xf0 → 16 ≤ n % 64) (hf4 : k = 0xf4 → n % 64 < 16) :
    mayFollow (.ofNat k) (trail n) = true := by
  unfold mayFollow
  split
  · rename_i h
    have := he0 ((ofNat_eq_iff hk).1 h)
    exact trail_between (show 160 ≤ 128 + n % 64 by omega) (show 128 + n % 64 ≤ 191 by omega)
  · split
    · rename_i h
      have := hed ((ofNat_eq_iff hk).1 h)
      exact trail_between (show 128 ≤ 128 + n % 64 by omega) (show 128 + n % 64 ≤ 159 by omega)
    · split
      · rename_i h
        have := hf0 ((ofNat_eq_iff hk).1 h)
        exact trail_between (show 144 ≤ 128 + n % 64 by omega) (show 128 + n % 64 ≤ 191 by omega)
      · split
        · rename_i h
          have := hf4 ((ofNat_eq_iff hk).1 h)
          exact trail_between (show 128 ≤ 128 + n % 64 by omega) (show 128 + n % 64 ≤ 143 by omega)
        · exact isTrail_trail n

/-! ## Characters -/

/-- **A character is read back**, whatever bytes follow. -/
theorem decodeFrom_encodeChar (i : Nat) (c : Char) (rest : List UInt8) :
    decodeFrom i (encodeChar c ++ rest) = (decodeFrom (i + (encodeChar c).length) rest).map (c :: ·) := by
  have hvalid : c.toNat < 0xd800 ∨ (0xdfff < c.toNat ∧ c.toNat < 0x110000) := c.valid
  have hc := Char.ofNat_toNat c
  unfold encodeChar
  generalize c.toNat = n at hvalid hc
  dsimp only
  by_cases h₁ : n < 0x80
  · have hlead : (UInt8.ofNat n).toNat = n := UInt8.toNat_ofNat_of_lt' (show n < 256 by omega)
    rw [if_pos h₁, List.singleton_append, decodeFrom.eq_def]
    dsimp only
    rw [if_pos ((ofNat_lt_iff (by omega)).2 h₁), hlead, hc]
    rfl
  rw [if_neg h₁]
  by_cases h₂ : n < 0x800
  · obtain ⟨k, hk⟩ : ∃ k, k = 0xc0 + n / 64 := ⟨_, rfl⟩
    have hsize : k < 256 := by omega
    have hlead : (UInt8.ofNat k).toNat = k := UInt8.toNat_ofNat_of_lt' hsize
    have hvalue : (k - 0xc0) * 64 + n % 64 = n := by omega
    rw [if_pos h₂, ← hk, List.cons_append, List.singleton_append, decodeFrom.eq_def]
    dsimp only
    rw [if_neg, if_neg, if_pos]
    · simp only [isTrail_trail, Bool.not_true, Bool.false_eq_true, if_false, bits_trail, hlead, hvalue, hc]
      rfl
    · exact (ofNat_lt_iff hsize).2 (show k < 224 by omega)
    · exact mt (ofNat_lt_iff hsize).1 (show ¬ k < 194 by omega)
    · exact mt (ofNat_lt_iff hsize).1 (show ¬ k < 128 by omega)
  rw [if_neg h₂]
  by_cases h₃ : n < 0x10000
  · obtain ⟨k, hk⟩ : ∃ k, k = 0xe0 + n / 4096 := ⟨_, rfl⟩
    have hsize : k < 256 := by omega
    have hlead : (UInt8.ofNat k).toNat = k := UInt8.toNat_ofNat_of_lt' hsize
    have hvalue : (k - 0xe0) * 4096 + n / 64 % 64 * 64 + n % 64 = n := by omega
    have hfollow : mayFollow (.ofNat k) (trail (n / 64)) = true :=
      mayFollow_trail hsize (by omega) (by omega) (by omega) (by omega)
    rw [if_pos h₃, ← hk, List.cons_append, List.cons_append, List.singleton_append, decodeFrom.eq_def]
    dsimp only
    rw [if_neg, if_neg, if_neg, if_pos]
    · simp only [hfollow, isTrail_trail, Bool.not_true, Bool.false_eq_true, if_false, bits_trail, hlead, hvalue, hc]
      rfl
    · exact (ofNat_lt_iff hsize).2 (show k < 240 by omega)
    · exact mt (ofNat_lt_iff hsize).1 (show ¬ k < 224 by omega)
    · exact mt (ofNat_lt_iff hsize).1 (show ¬ k < 194 by omega)
    · exact mt (ofNat_lt_iff hsize).1 (show ¬ k < 128 by omega)
  rw [if_neg h₃]
  obtain ⟨k, hk⟩ : ∃ k, k = 0xf0 + n / 262144 := ⟨_, rfl⟩
  have hsize : k < 256 := by omega
  have hlead : (UInt8.ofNat k).toNat = k := UInt8.toNat_ofNat_of_lt' hsize
  have hvalue : (k - 0xf0) * 262144 + n / 4096 % 64 * 4096 + n / 64 % 64 * 64 + n % 64 = n := by omega
  have hfollow : mayFollow (.ofNat k) (trail (n / 4096)) = true :=
    mayFollow_trail hsize (by omega) (by omega) (by omega) (by omega)
  rw [← hk, List.cons_append, List.cons_append, List.cons_append, List.singleton_append, decodeFrom.eq_def]
  dsimp only
  rw [if_neg, if_neg, if_neg, if_neg, if_pos]
  · simp only [hfollow, isTrail_trail, Bool.not_true, Bool.false_eq_true, if_false, bits_trail, hlead, hvalue, hc]
    rfl
  · exact (ofNat_lt_iff hsize).2 (show k < 245 by omega)
  · exact mt (ofNat_lt_iff hsize).1 (show ¬ k < 240 by omega)
  · exact mt (ofNat_lt_iff hsize).1 (show ¬ k < 224 by omega)
  · exact mt (ofNat_lt_iff hsize).1 (show ¬ k < 194 by omega)
  · exact mt (ofNat_lt_iff hsize).1 (show ¬ k < 128 by omega)

theorem decodeFrom_encode (i : Nat) (cs : List Char) : decodeFrom i (encode cs) = .ok cs := by
  induction cs generalizing i with
  | nil => rfl
  | cons c cs ih =>
    have ih := ih (i + (encodeChar c).length)
    rw [encode] at ih
    rw [encode, List.flatMap_cons, decodeFrom_encodeChar, ih]
    rfl

/-- **A text is read back from its bytes.** -/
theorem decode_encode (cs : List Char) : decode (encode cs) = .ok cs := decodeFrom_encode 0 cs

/-! ## What is read -/

theorem toNat_ofNat {n : Nat} (h : n.isValidChar) : (Char.ofNat n).toNat = n := by
  rw [Char.ofNat, dif_pos h]
  rfl

theorem isTrail_iff {b : UInt8} : isTrail b = true ↔ 128 ≤ b.toNat ∧ b.toNat ≤ 191 := by
  rw [isTrail, Bool.and_eq_true, decide_eq_true_eq, decide_eq_true_eq, UInt8.le_iff_toNat_le, UInt8.le_iff_toNat_le]
  exact Iff.rfl

/-- A byte that continues a sequence is told by its six bits. -/
theorem trail_eq {b : UInt8} (h : isTrail b = true) {n : Nat} (hn : n % 64 = bits b) : trail n = b := by
  have hb := isTrail_iff.1 h
  rw [← UInt8.toNat_inj, toNat_trail, hn, bits]
  omega

theorem bits_lt (b : UInt8) : bits b < 64 := Nat.mod_lt _ (by decide)

/-- A second byte continues the sequence, within what its lead leaves. -/
theorem mayFollow_spec {a b : UInt8} (h : mayFollow a b = true) :
    isTrail b = true ∧ (a.toNat = 0xe0 → 32 ≤ bits b) ∧ (a.toNat = 0xed → bits b < 32) ∧
      (a.toNat = 0xf0 → 16 ≤ bits b) ∧ (a.toNat = 0xf4 → bits b < 16) := by
  have hne : ∀ {k : UInt8}, a ≠ k → a.toNat ≠ k.toNat := fun h => mt UInt8.toNat_inj.1 h
  have hbetween : ∀ {lo hi : UInt8}, (decide (lo ≤ b) && decide (b ≤ hi)) = true → lo.toNat ≤ b.toNat ∧ b.toNat ≤ hi.toNat := by
    intro lo hi h
    rwa [Bool.and_eq_true, decide_eq_true_eq, decide_eq_true_eq, UInt8.le_iff_toNat_le, UInt8.le_iff_toNat_le] at h
  rw [isTrail_iff, bits]
  unfold mayFollow at h
  split_ifs at h with he0 hed hf0 hf4
  · have hb : 160 ≤ b.toNat ∧ b.toNat ≤ 191 := hbetween h
    have ha : a.toNat = 0xe0 := congrArg UInt8.toNat he0
    omega
  · have hb : 128 ≤ b.toNat ∧ b.toNat ≤ 159 := hbetween h
    have ha : a.toNat = 0xed := congrArg UInt8.toNat hed
    omega
  · have hb : 144 ≤ b.toNat ∧ b.toNat ≤ 191 := hbetween h
    have ha : a.toNat = 0xf0 := congrArg UInt8.toNat hf0
    omega
  · have hb : 128 ≤ b.toNat ∧ b.toNat ≤ 143 := hbetween h
    have ha : a.toNat = 0xf4 := congrArg UInt8.toNat hf4
    omega
  · have hb := isTrail_iff.1 h
    exact ⟨hb, fun ha => absurd ha (hne he0), fun ha => absurd ha (hne hed), fun ha => absurd ha (hne hf0),
      fun ha => absurd ha (hne hf4)⟩

theorem encodeChar_single {a : UInt8} (ha : a.toNat < 128) : encodeChar (.ofNat a.toNat) = [a] := by
  rw [encodeChar, toNat_ofNat (.inl (by omega))]
  rw [if_pos ha, UInt8.ofNat_toNat]

theorem encodeChar_pair {a b : UInt8} (ha : 194 ≤ a.toNat) (ha' : a.toNat < 224) (hb : isTrail b = true) :
    encodeChar (.ofNat ((a.toNat - 0xc0) * 64 + bits b)) = [a, b] := by
  have hbits := bits_lt b
  rw [encodeChar, toNat_ofNat (.inl (by omega))]
  rw [if_neg (by omega), if_pos (by omega), trail_eq hb (by omega),
    show 0xc0 + ((a.toNat - 0xc0) * 64 + bits b) / 64 = a.toNat by omega, UInt8.ofNat_toNat]

theorem encodeChar_triple {a b c : UInt8} (ha : 224 ≤ a.toNat) (ha' : a.toNat < 240) (hb : mayFollow a b = true)
    (hc : isTrail c = true) :
    encodeChar (.ofNat ((a.toNat - 0xe0) * 4096 + bits b * 64 + bits c)) = [a, b, c] := by
  obtain ⟨hb, he0, hed, -, -⟩ := mayFollow_spec hb
  have hbits := bits_lt b
  have hbits' := bits_lt c
  rw [encodeChar, toNat_ofNat (show _ ∨ _ by omega)]
  rw [if_neg (by omega), if_neg (by omega), if_pos (by omega), trail_eq hb (by omega), trail_eq hc (by omega),
    show 0xe0 + ((a.toNat - 0xe0) * 4096 + bits b * 64 + bits c) / 4096 = a.toNat by omega, UInt8.ofNat_toNat]

theorem encodeChar_quadruple {a b c d : UInt8} (ha : 240 ≤ a.toNat) (ha' : a.toNat < 245) (hb : mayFollow a b = true)
    (hc : isTrail c = true) (hd : isTrail d = true) :
    encodeChar (.ofNat ((a.toNat - 0xf0) * 262144 + bits b * 4096 + bits c * 64 + bits d)) = [a, b, c, d] := by
  obtain ⟨hb, -, -, hf0, hf4⟩ := mayFollow_spec hb
  have hbits := bits_lt b
  have hbits' := bits_lt c
  have hbits'' := bits_lt d
  rw [encodeChar, toNat_ofNat (show _ ∨ _ by omega)]
  rw [if_neg (by omega), if_neg (by omega), if_neg (by omega), trail_eq hb (by omega), trail_eq hc (by omega),
    trail_eq hd (by omega),
    show 0xf0 + ((a.toNat - 0xf0) * 262144 + bits b * 4096 + bits c * 64 + bits d) / 262144 = a.toNat by omega,
    UInt8.ofNat_toNat]

/-- What is read after the bytes of a character is read in front of what follows. -/
theorem encode_cons_of_map {c : Char} {bytes rest : List UInt8} {cs : List Char} {r : Except Fault (List Char)}
    (hc : encodeChar c = bytes) (hr : ∀ ds, r = .ok ds → encode ds = rest) (h : r.map (c :: ·) = .ok cs) :
    encode cs = bytes ++ rest := by
  cases r with
  | error f => cases h
  | ok ds =>
    cases h
    have hrest := hr ds rfl
    rw [encode] at hrest
    rw [encode, List.flatMap_cons, hc, hrest]

theorem encode_of_decodeFrom {i : Nat} {bs : List UInt8} {cs : List Char} (h : decodeFrom i bs = .ok cs) :
    encode cs = bs := by
  have hlt : ∀ {a k : UInt8}, ¬ a < k → k.toNat ≤ a.toNat := fun h => Nat.le_of_not_lt (mt UInt8.lt_iff_toNat_lt.2 h)
  have htrue : ∀ {p : Bool}, ¬ (!p) = true → p = true := fun h => by simpa using h
  fun_induction decodeFrom i bs generalizing cs with
  | case1 =>
    cases h
    rfl
  | case2 i a rest ha ih => exact encode_cons_of_map (encodeChar_single (UInt8.lt_iff_toNat_lt.1 ha)) (fun _ => ih) h
  | case6 i a _ hlo hhi b rest hb ih =>
    exact encode_cons_of_map (encodeChar_pair (hlt hlo) (UInt8.lt_iff_toNat_lt.1 hhi) (htrue hb)) (fun _ => ih) h
  | case11 i a _ _ hlo hhi b hb c rest hc ih =>
    exact encode_cons_of_map (encodeChar_triple (hlt hlo) (UInt8.lt_iff_toNat_lt.1 hhi) (htrue hb) (htrue hc))
      (fun _ => ih) h
  | case18 i a _ _ _ hlo hhi b hb c hc d rest hd ih =>
    have := encodeChar_quadruple (hlt hlo) (UInt8.lt_iff_toNat_lt.1 hhi) (htrue hb) (htrue hc) (htrue hd)
    exact encode_cons_of_map this (fun _ => ih) h
  | _ => cases h

/-- **Bytes that are a text are its UTF-8**: there is no second spelling. -/
theorem encode_of_decode {bs : List UInt8} {cs : List Char} (h : decode bs = .ok cs) : encode cs = bs :=
  encode_of_decodeFrom h

theorem encode_injective {cs ds : List Char} (h : encode cs = encode ds) : cs = ds := by
  have hread := decode_encode cs
  rw [h, decode_encode] at hread
  exact (Except.ok.inj hread).symm

end StencilKit.Utf8
