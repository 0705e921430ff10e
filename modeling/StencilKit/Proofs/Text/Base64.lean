/-
Bytes are read back from their base64, and what is read is the base64 of what it is read as.

Bytes fall into full groups of three and a last group of one to three. Full groups are written as four
symbols each without padding, and are read as they were written; only the last group may be padded,
and its bits that no byte takes up were written as zeros. Reading asks for that padding and for those
zeros, so nothing is read that was not written (`encode_of_decode`).
-/
import Mathlib.Data.List.Basic
import StencilKit.Text.Base64
import StencilKit.Text.Utf8

namespace StencilKit.Base64

/-! ## Symbols -/

/-- The byte of a symbol. -/
def code (n : Nat) : UInt8 := .ofNat (symbol n).toNat

theorem value?_code : ∀ n < 64, value? (code n) = some n := by decide

theorem code_ne_pad : ∀ n < 64, code n ≠ pad := by decide

theorem encodeChar_symbol : ∀ n < 64, Utf8.encodeChar (symbol n) = [code n] := by decide

theorem utf8_symbols {ns : List Nat} (h : ∀ n ∈ ns, n < 64) : Utf8.encode (ns.map symbol) = ns.map code := by
  induction ns with
  | nil => rfl
  | cons n ns ih =>
    have ih := ih fun m hm => h m (List.mem_cons_of_mem _ hm)
    rw [Utf8.encode] at ih
    rw [List.map_cons, Utf8.encode, List.flatMap_cons, encodeChar_symbol n (h n List.mem_cons_self), ih]
    rfl

theorem values_code {ns : List Nat} (h : ∀ n ∈ ns, n < 64) (i : Nat) : values i (ns.map code) = .ok ns := by
  induction ns generalizing i with
  | nil => rfl
  | cons n ns ih =>
    rw [List.map_cons, values, value?_code n (h n List.mem_cons_self)]
    simp only [ih (fun m hm => h m (List.mem_cons_of_mem _ hm)), Except.map]

/-- What holds of the symbols and of the padding mark holds of the characters of base64. -/
theorem of_mem_encode {p : Char → Prop} (hsymbol : ∀ n < 64, p (symbol n)) (hpad : p '=') (bs : List UInt8) :
    ∀ c ∈ encode bs, p c := by
  fun_induction encode bs with
  | case1 => simp
  | case2 a =>
    have ha := a.toNat_lt
    have hp := hsymbol (a.toNat / 4) (by omega)
    have hq := hsymbol (a.toNat % 4 * 16) (by omega)
    simpa only [List.forall_mem_cons] using ⟨hp, hq, hpad, hpad, List.forall_mem_nil _⟩
  | case3 a b =>
    have ha := a.toNat_lt
    have hb := b.toNat_lt
    have hp := hsymbol (a.toNat / 4) (by omega)
    have hq := hsymbol (a.toNat % 4 * 16 + b.toNat / 16) (by omega)
    have hr := hsymbol (b.toNat % 16 * 4) (by omega)
    simpa only [List.forall_mem_cons] using ⟨hp, hq, hr, hpad, List.forall_mem_nil _⟩
  | case4 a b c rest ih =>
    have ha := a.toNat_lt
    have hb := b.toNat_lt
    have hc := c.toNat_lt
    have hp := hsymbol (a.toNat / 4) (by omega)
    have hq := hsymbol (a.toNat % 4 * 16 + b.toNat / 16) (by omega)
    have hr := hsymbol (b.toNat % 16 * 4 + c.toNat / 64) (by omega)
    have hs := hsymbol (c.toNat % 64) (by omega)
    simpa only [List.forall_mem_cons] using ⟨hp, hq, hr, hs, ih⟩

/-! ## Full groups -/

/-- The numbers of the symbols of full groups. -/
def sextets : List UInt8 → List Nat
  | a :: b :: c :: rest =>
    a.toNat / 4 :: (a.toNat % 4 * 16 + b.toNat / 16) :: (b.toNat % 16 * 4 + c.toNat / 64) :: c.toNat % 64 ::
      sextets rest
  | _ => []

theorem sextets_lt (bs : List UInt8) : ∀ n ∈ sextets bs, n < 64 := by
  fun_induction sextets bs with
  | case1 a b c rest ih =>
    have ha := a.toNat_lt
    have hb := b.toNat_lt
    have hc := c.toNat_lt
    simp only [List.forall_mem_cons]
    exact ⟨by omega, by omega, by omega, by omega, ih⟩
  | case2 => simp

theorem encode_append {body : List UInt8} (h : body.length % 3 = 0) (last : List UInt8) :
    encode (body ++ last) = (sextets body).map symbol ++ encode last := by
  fun_induction sextets body with
  | case1 a b c rest ih =>
    have hrest : rest.length % 3 = 0 := by
      simp only [List.length_cons] at h
      omega
    simp only [List.cons_append, encode, List.map_cons, ih hrest]
  | case2 body hbody =>
    match body, hbody, h with
    | [], _, _ => rfl
    | a :: b :: c :: rest, hbody, _ => exact absurd rfl (hbody a b c rest)

theorem length_sextets {body : List UInt8} (h : body.length % 3 = 0) :
    (sextets body).length = body.length / 3 * 4 := by
  fun_induction sextets body with
  | case1 a b c rest ih =>
    simp only [List.length_cons] at h ⊢
    rw [ih (by omega)]
    omega
  | case2 body hbody =>
    match body, hbody, h with
    | [], _, _ => rfl
    | a :: b :: c :: rest, hbody, _ => exact absurd rfl (hbody a b c rest)

/-- Eight bits put together again. -/
theorem ofNat_eq {n : Nat} {a : UInt8} (h : n = a.toNat) : UInt8.ofNat n = a := by
  rw [h, UInt8.ofNat_toNat]

theorem join_sextets {body : List UInt8} (h : body.length % 3 = 0) : join (sextets body) = body := by
  fun_induction sextets body with
  | case1 a b c rest ih =>
    have hb := b.toNat_lt
    have hc := c.toNat_lt
    have hrest : rest.length % 3 = 0 := by
      simp only [List.length_cons] at h
      omega
    rw [join, ih hrest, ofNat_eq (show _ = a.toNat by omega), ofNat_eq (show _ = b.toNat by omega),
      ofNat_eq (show _ = c.toNat by omega)]
  | case2 body hbody =>
    match body, hbody, h with
    | [], _, _ => rfl
    | a :: b :: c :: rest, hbody, _ => exact absurd rfl (hbody a b c rest)

/-! ## The last group -/

theorem scanTail_code {n : Nat} (hn : n < 64) (start k : Nat) (tail : Tail) (bs : List UInt8) :
    scanTail start k tail (code n :: bs) =
      scanTail start (k + 1) { tail with numbers := tail.numbers ++ [n], last := code n } bs := by
  rw [scanTail, if_neg (code_ne_pad n hn), value?_code n hn]

theorem encodeChar_pad : Utf8.encodeChar '=' = [pad] := rfl

/-- **The last group is read back**, with the padding that it has. -/
theorem last_readBack (start : Nat) {last : List UInt8} (hpos : 0 < last.length) (hle : last.length ≤ 3) :
    (Utf8.encode (encode last)).length = 4 ∧
      ∃ tail, scanTail start 0 ⟨[], 0, 0⟩ (Utf8.encode (encode last)) = .ok tail ∧
        tail.bytes start = .ok last := by
  match last, hpos, hle with
  | [a], _, _ =>
    have ha := a.toNat_lt
    have hp : a.toNat / 4 < 64 := by omega
    have hq : a.toNat % 4 * 16 < 64 := by omega
    have hcodes : Utf8.encode (encode [a]) = [code (a.toNat / 4), code (a.toNat % 4 * 16), pad, pad] := by
      simp only [encode, Utf8.encode, List.flatMap_cons, List.flatMap_nil, encodeChar_symbol _ hp,
        encodeChar_symbol _ hq, encodeChar_pad]
      rfl
    refine ⟨by rw [hcodes]; rfl, ⟨[a.toNat / 4, a.toNat % 4 * 16], code (a.toNat % 4 * 16), 2⟩, ?_, ?_⟩
    · rw [hcodes, scanTail_code hp, scanTail_code hq]
      rfl
    · have hzero : a.toNat % 4 * 16 % 16 = 0 := by omega
      simp only [Tail.bytes, hzero, ofNat_eq (show a.toNat / 4 * 4 + a.toNat % 4 * 16 / 16 = a.toNat by omega)]
      rfl
  | [a, b], _, _ =>
    have ha := a.toNat_lt
    have hb := b.toNat_lt
    have hp : a.toNat / 4 < 64 := by omega
    have hq : a.toNat % 4 * 16 + b.toNat / 16 < 64 := by omega
    have hr : b.toNat % 16 * 4 < 64 := by omega
    have hcodes : Utf8.encode (encode [a, b]) =
        [code (a.toNat / 4), code (a.toNat % 4 * 16 + b.toNat / 16), code (b.toNat % 16 * 4), pad] := by
      simp only [encode, Utf8.encode, List.flatMap_cons, List.flatMap_nil, encodeChar_symbol _ hp,
        encodeChar_symbol _ hq, encodeChar_symbol _ hr, encodeChar_pad]
      rfl
    refine ⟨by rw [hcodes]; rfl, ⟨[a.toNat / 4, a.toNat % 4 * 16 + b.toNat / 16, b.toNat % 16 * 4],
      code (b.toNat % 16 * 4), 1⟩, ?_, ?_⟩
    · rw [hcodes, scanTail_code hp, scanTail_code hq, scanTail_code hr]
      rfl
    · have hzero : b.toNat % 16 * 4 % 4 = 0 := by omega
      have hfirst : a.toNat / 4 * 4 + (a.toNat % 4 * 16 + b.toNat / 16) / 16 = a.toNat := by omega
      have hsecond : (a.toNat % 4 * 16 + b.toNat / 16) % 16 * 16 + b.toNat % 16 * 4 / 4 = b.toNat := by omega
      simp only [Tail.bytes, hzero, ofNat_eq hfirst, ofNat_eq hsecond]
      rfl
  | [a, b, c], _, _ =>
    have hlt : ∀ n ∈ sextets [a, b, c], n < 64 := sextets_lt _
    have hjoin : join (sextets [a, b, c]) = [a, b, c] := join_sextets (by simp)
    have hcodes : Utf8.encode (encode [a, b, c]) = (sextets [a, b, c]).map code := by
      have henc := encode_append (show [a, b, c].length % 3 = 0 by simp) []
      rw [List.append_nil] at henc
      rw [henc, encode, List.append_nil, utf8_symbols hlt]
    refine ⟨by rw [hcodes]; rfl, ⟨sextets [a, b, c], code (c.toNat % 64), 0⟩, ?_, ?_⟩
    · simp only [sextets, List.forall_mem_cons] at hlt
      obtain ⟨hp, hq, hr, hs, -⟩ := hlt
      simp only [hcodes, sextets, List.map_cons, List.map_nil]
      rw [scanTail_code hp, scanTail_code hq, scanTail_code hr, scanTail_code hs]
      rfl
    · exact congrArg Except.ok hjoin

/-- **Bytes are read back from their base64.** -/
theorem decode_encode (bs : List UInt8) : decode (Utf8.encode (encode bs)) = .ok bs := by
  by_cases hne : bs = []
  · rw [hne]
    rfl
  have hpos := List.length_pos_iff.2 hne
  obtain ⟨n, hn⟩ : ∃ n, n = (bs.length - 1) / 3 * 3 := ⟨_, rfl⟩
  obtain ⟨body, hbody⟩ : ∃ body, body = bs.take n := ⟨_, rfl⟩
  obtain ⟨last, hlast⟩ : ∃ last, last = bs.drop n := ⟨_, rfl⟩
  have hbs : bs = body ++ last := by
    rw [hbody, hlast, List.take_append_drop]
  have hbodyLength : body.length = n := by
    rw [hbody, List.length_take]
    omega
  have hlastLength : last.length = bs.length - n := by
    rw [hlast, List.length_drop]
  have hthirds : body.length % 3 = 0 := by omega
  have hlt := sextets_lt body
  obtain ⟨hfour, tail, hscan, hbytes⟩ := last_readBack ((sextets body).map code).length
    (show 0 < last.length by omega) (show last.length ≤ 3 by omega)
  have hcodes : Utf8.encode (encode bs) = (sextets body).map code ++ Utf8.encode (encode last) := by
    rw [hbs, encode_append hthirds, Utf8.encode, List.flatMap_append, ← Utf8.encode, utf8_symbols hlt, Utf8.encode]
  have hlength : ((sextets body).map code).length = body.length / 3 * 4 := by
    rw [List.length_map, length_sextets hthirds]
  have hall : (Utf8.encode (encode bs)).length = body.length / 3 * 4 + 4 := by
    rw [hcodes, List.length_append, hlength, hfour]
  have hstart : ((Utf8.encode (encode bs)).length - 1) / 4 * 4 = ((sextets body).map code).length := by
    omega
  have hleftover : checkLeftover (Utf8.encode (encode bs)) = .ok () := by
    unfold checkLeftover
    split
    · rfl
    · rw [if_neg]
      rintro ⟨h, -⟩
      omega
  have hnonempty : (Utf8.encode (encode bs)).isEmpty = false := by
    rw [List.isEmpty_eq_false_iff]
    intro h
    rw [h] at hall
    simp at hall
  rw [decode, if_neg (by rw [hnonempty]; exact Bool.false_ne_true), hleftover]
  simp only [hstart, bind, Except.bind, pure, Except.pure]
  rw [hcodes, List.take_left, List.drop_left, values_code hlt, hscan]
  simp only [hbytes, join_sextets hthirds, ← hbs]

/-! ## What is read -/

theorem value?_ofNat : ∀ k < 256, ∀ n ∈ value? (.ofNat k), n < 64 ∧ code n = .ofNat k := by decide +kernel

/-- **A byte with a number is the symbol of that number.** -/
theorem code_of_value? {b : UInt8} {n : Nat} (h : value? b = some n) : n < 64 ∧ code n = b := by
  have hb := value?_ofNat b.toNat b.toNat_lt n
  rw [UInt8.ofNat_toNat] at hb
  exact hb h

theorem code_of_values {i : Nat} {bs : List UInt8} {ns : List Nat} (h : values i bs = .ok ns) :
    (∀ n ∈ ns, n < 64) ∧ bs = ns.map code := by
  induction bs generalizing i ns with
  | nil =>
    cases h
    exact ⟨List.forall_mem_nil _, rfl⟩
  | cons b bs ih =>
    rw [values] at h
    cases hb : value? b with
    | none =>
      rw [hb] at h
      cases h
    | some n =>
      rw [hb] at h
      cases hrest : values (i + 1) bs with
      | error f =>
        simp only [hrest] at h
        cases h
      | ok ms =>
        simp only [hrest] at h
        cases h
        obtain ⟨hn, hcode⟩ := code_of_value? hb
        obtain ⟨hms, rfl⟩ := ih hrest
        exact ⟨List.forall_mem_cons.2 ⟨hn, hms⟩, by rw [List.map_cons, hcode]⟩

/-- The last group is symbols, and after them padding. -/
theorem code_of_scanTail {start k : Nat} {tail tail' : Tail} {bs : List UInt8} (hpads : tail.pads = 0)
    (h : scanTail start k tail bs = .ok tail') :
    ∃ ns, tail'.numbers = tail.numbers ++ ns ∧ (∀ n ∈ ns, n < 64) ∧
      bs = ns.map code ++ List.replicate tail'.pads pad := by
  induction bs generalizing k tail with
  | nil =>
    cases h
    exact ⟨[], (List.append_nil _).symm, List.forall_mem_nil _, by rw [hpads]; rfl⟩
  | cons b bs ih =>
    rw [scanTail] at h
    split at h
    · rename_i hb
      split at h
      · cases h
      · split at h
        · cases h
        · rename_i hsymbol
          cases h
          refine ⟨[], (List.append_nil _).symm, List.forall_mem_nil _, ?_⟩
          have hall : ∀ c ∈ bs, c = pad := by simpa [hasSymbol] using hsymbol
          rw [hb, List.eq_replicate_of_mem hall]
          simp [List.replicate_succ]
    · split at h
      · cases h
      · rename_i n hn
        obtain ⟨ns, hnumbers, hns, hbs⟩ :=
          ih (show Tail.pads { tail with numbers := tail.numbers ++ [n], last := b } = 0 from hpads) h
        obtain ⟨hlt, hcode⟩ := code_of_value? hn
        refine ⟨n :: ns, ?_, List.forall_mem_cons.2 ⟨hlt, hns⟩, ?_⟩
        · rw [hnumbers, List.append_assoc]
          rfl
        · rw [hbs, List.map_cons, hcode]
          rfl

/-- Four numbers below 64 are the numbers of the symbols of the three bytes that they make. -/
theorem sextets_join {ns : List Nat} (hlt : ∀ n ∈ ns, n < 64) (h : ns.length % 4 = 0) :
    (join ns).length % 3 = 0 ∧ sextets (join ns) = ns := by
  have hbyte : ∀ {n : Nat}, n < 256 → (UInt8.ofNat n).toNat = n := fun h => UInt8.toNat_ofNat_of_lt' h
  fun_induction join ns with
  | case1 p q r s rest ih =>
    simp only [List.forall_mem_cons] at hlt
    obtain ⟨hp, hq, hr, hs, hrest⟩ := hlt
    have hfull : rest.length % 4 = 0 := by
      simp only [List.length_cons] at h
      omega
    obtain ⟨hlength, hsextets⟩ := ih hrest hfull
    refine ⟨?_, ?_⟩
    · simp only [List.length_cons]
      omega
    · rw [sextets, hsextets, hbyte (by omega), hbyte (by omega), hbyte (by omega),
        show (p * 4 + q / 16) / 4 = p by omega, show (p * 4 + q / 16) % 4 * 16 + (q % 16 * 16 + r / 4) / 16 = q by omega,
        show (q % 16 * 16 + r / 4) % 16 * 4 + (r % 4 * 64 + s) / 64 = r by omega,
        show (r % 4 * 64 + s) % 64 = s by omega]
  | case2 ns hns =>
    match ns, hns, h with
    | [], _, _ => exact ⟨rfl, rfl⟩
    | p :: q :: r :: s :: rest, hns, _ => exact absurd rfl (hns p q r s rest)

/-- The last group is written as it was read. -/
theorem encode_of_bytes {start : Nat} {tail : Tail} {last : List UInt8} (hlt : ∀ n ∈ tail.numbers, n < 64)
    (h : tail.bytes start = .ok last) :
    Utf8.encode (encode last) = tail.numbers.map code ++ List.replicate tail.pads pad := by
  have hbyte : ∀ {n : Nat}, n < 256 → (UInt8.ofNat n).toNat = n := fun h => UInt8.toNat_ofNat_of_lt' h
  obtain ⟨numbers, lastByte, pads⟩ := tail
  rw [Tail.bytes] at h
  dsimp only at h hlt ⊢
  split at h
  · cases h
  rename_i hlength
  split at h
  · cases h
  rename_i hfour
  split at h
  · rename_i p q
    simp only [List.forall_mem_cons] at hlt
    obtain ⟨hp, hq, -⟩ := hlt
    split at h
    · cases h
    · rename_i hzero
      cases h
      have hpads : pads = 2 := by
        simp only [List.length_cons, List.length_nil] at hfour
        omega
      simp only [encode, hbyte (show p * 4 + q / 16 < 256 by omega), show (p * 4 + q / 16) / 4 = p by omega,
        show (p * 4 + q / 16) % 4 * 16 = q by omega, Utf8.encode, List.flatMap_cons, List.flatMap_nil,
        encodeChar_symbol p hp, encodeChar_symbol q hq, encodeChar_pad, hpads]
      rfl
  · rename_i p q r
    simp only [List.forall_mem_cons] at hlt
    obtain ⟨hp, hq, hr, -⟩ := hlt
    split at h
    · cases h
    · rename_i hzero
      cases h
      have hpads : pads = 1 := by
        simp only [List.length_cons, List.length_nil] at hfour
        omega
      simp only [encode, hbyte (show p * 4 + q / 16 < 256 by omega), hbyte (show q % 16 * 16 + r / 4 < 256 by omega),
        show (p * 4 + q / 16) / 4 = p by omega, show (p * 4 + q / 16) % 4 * 16 + (q % 16 * 16 + r / 4) / 16 = q by omega,
        show (q % 16 * 16 + r / 4) % 16 * 4 = r by omega, Utf8.encode, List.flatMap_cons, List.flatMap_nil,
        encodeChar_symbol p hp, encodeChar_symbol q hq, encodeChar_symbol r hr, encodeChar_pad, hpads]
      rfl
  · rename_i hpair htriple
    cases h
    have hfull : numbers.length = 4 := by
      rcases numbers with _ | ⟨p, _ | ⟨q, _ | ⟨r, _ | ⟨s, _ | _⟩⟩⟩⟩
      · exact absurd (by decide) hlength
      · exact absurd (by simp) hlength
      · exact absurd rfl (hpair p q)
      · exact absurd rfl (htriple p q r)
      · rfl
      · simp only [List.length_cons] at hfour
        omega
    have hpads : pads = 0 := by omega
    obtain ⟨hthirds, hsextets⟩ := sextets_join hlt (by omega)
    have henc := encode_append hthirds []
    rw [List.append_nil, encode, List.append_nil, hsextets] at henc
    rw [henc, utf8_symbols hlt, hpads]
    simp

/-- **Reading accepts only what writing produces**: bytes that are base64 are the base64 of what is read. -/
theorem encode_of_decode {bs bytes : List UInt8} (h : decode bs = .ok bytes) : Utf8.encode (encode bytes) = bs := by
  unfold decode at h
  split at h
  · rename_i hempty
    cases h
    rw [List.isEmpty_iff.1 hempty]
    rfl
  rename_i hne
  obtain ⟨start, hstart⟩ : ∃ start, start = (bs.length - 1) / 4 * 4 := ⟨_, rfl⟩
  rw [← hstart] at h
  simp only [bind, Except.bind, pure, Except.pure] at h
  split at h
  · cases h
  split at h
  · cases h
  rename_i ns hvalues
  split at h
  · cases h
  rename_i tail hscan
  split at h
  · cases h
  rename_i last hlast
  cases h
  obtain ⟨hns, htake⟩ := code_of_values hvalues
  obtain ⟨ms, hnumbers, hms, hdrop⟩ := code_of_scanTail rfl hscan
  rw [List.nil_append] at hnumbers
  have hquads : ns.length % 4 = 0 := by
    have hlength := congrArg List.length htake
    rw [List.length_take, List.length_map] at hlength
    omega
  obtain ⟨hthirds, hsextets⟩ := sextets_join hns hquads
  calc Utf8.encode (encode (join ns ++ last))
      = Utf8.encode (ns.map symbol) ++ Utf8.encode (encode last) := by
        rw [encode_append hthirds, hsextets, Utf8.encode, List.flatMap_append]
        rfl
    _ = ns.map code ++ (ms.map code ++ List.replicate tail.pads pad) := by
        rw [utf8_symbols hns, encode_of_bytes (hnumbers ▸ hms) hlast, hnumbers]
    _ = bs.take start ++ bs.drop start := by rw [← htake, ← hdrop]
    _ = bs := List.take_append_drop start bs

end StencilKit.Base64
