/-
The names that are read as a tag.

A tag is read from its text, and not from its text alone. The number may have a plus sign before it and zeros
before its digits, and a slash may stand at the end although no label comes after it: a name is read as a tag
just if it is spelled with these, and it is the tag's text just if it is spelled without (`read_iff_spelled`). So
it is not only its own names that the reader knows: an attachment point that somebody else named `area-07` is
taken for a sample of an area, and passed over when the stencil is taken apart.
-/
import Mathlib.Data.List.Induction
import StencilKit.Decomposition
import StencilKit.Proofs.Stencil.Tags

namespace StencilKit

/-! ## Digits -/

namespace Decimal

theorem digitChar_of_isDigit {c : Char} (hc : c.isDigit = true) : Nat.digitChar (c.toNat - '0'.toNat) = c :=
  of_isDigit (p := fun c => Nat.digitChar (c.toNat - '0'.toNat) = c) hc (by decide)

theorem ofDigits_concat (ds : List Char) (c : Char) :
    ofDigits (ds ++ [c]) = 10 * ofDigits ds + (c.toNat - '0'.toNat) := by
  rw [ofDigits, List.foldl_append]
  rfl

/-- Zeros before the digits of a number do not change it. -/
theorem ofDigits_replicate_append (zeros n : Nat) :
    ofDigits (List.replicate zeros '0' ++ Nat.toDigits 10 n) = n := by
  rw [ofDigits_eq, Nat.ofDigitChars_append, Nat.ofDigitChars_replicate_zero, Nat.mul_zero,
    Nat.ofDigitChars_ten_toDigits]

/-- A row of digits is the digits of a number after some zeros. -/
theorem exists_eq_replicate_append {ds : List Char} (hne : ds ≠ []) (hds : ∀ c ∈ ds, c.isDigit = true) :
    ∃ zeros, ds = List.replicate zeros '0' ++ Nat.toDigits 10 (ofDigits ds) := by
  -- The last digit is the last digit of the number, and the digits before it are those of a tenth of it.
  induction ds using List.reverseRecOn with
  | nil => exact absurd rfl hne
  | append_singleton ds c ih =>
    have hc := hds c (List.mem_append_right _ List.mem_cons_self)
    have hlt : c.toNat - '0'.toNat < 10 := of_isDigit (p := fun c => c.toNat - '0'.toNat < 10) hc (by decide)
    have hlast : Nat.toDigits 10 (c.toNat - '0'.toNat) = [c] := by
      rw [Nat.toDigits_of_lt_base hlt, digitChar_of_isDigit hc]
    rw [ofDigits_concat]
    rcases Nat.eq_zero_or_pos (ofDigits ds) with hzero | hpos
    · rw [hzero, Nat.mul_zero, Nat.zero_add, hlast]
      by_cases hempty : ds = []
      · exact ⟨0, by rw [hempty, List.replicate_zero]⟩
      · obtain ⟨zeros, hzeros⟩ := ih hempty fun d hd => hds d (List.mem_append_left _ hd)
        rw [hzero, Nat.toDigits_zero] at hzeros
        exact ⟨zeros + 1, by rw [List.replicate_succ', ← hzeros]⟩
    · have hempty : ds ≠ [] := by
        rintro rfl
        exact Nat.lt_irrefl 0 hpos
      obtain ⟨zeros, hzeros⟩ := ih hempty fun d hd => hds d (List.mem_append_left _ hd)
      refine ⟨zeros, ?_⟩
      rw [← Nat.toDigits_append_toDigits (by decide) hpos hlt, hlast, ← List.append_assoc, ← hzeros]

end Decimal

/-! ## Names -/

/-- What a name may hold besides the text of the tag that it is read as: a plus sign before the number, zeros before
its digits, and a slash at the end although there is no label. -/
structure Spelling where
  plus : Bool
  zeros : Nat
  slash : Bool

namespace Tag

/-- A number with or without a plus sign, and zeros before its digits. -/
def spelledId (plus : Bool) (zeros n : Nat) : List Char :=
  (if plus then ['+'] else []) ++ (List.replicate zeros '0' ++ Nat.toDigits 10 n)

/-- A label after a slash, or the end of a name without a label. -/
def spelledLabel (slash : Bool) (label : String) : List Char :=
  if label = "" then (if slash then ['/'] else []) else '/' :: label.toList

/-- The name of a tag in a spelling. -/
def spelled (t : Tag) (s : Spelling) : String :=
  .ofList (t.kind.word.toList ++ '-' :: spelledId s.plus s.zeros t.id.toNat ++ spelledLabel s.slash t.label)

/-- A number is read from each of its spellings. -/
theorem readId_eq_some_iff_spelledId {cs : List Char} {id : UInt32} :
    readId cs = some id ↔ ∃ plus zeros, cs = spelledId plus zeros id.toNat := by
  rw [readId_eq_some_iff]
  constructor
  · rintro ⟨ds, hcs, hne, hds, hvalue⟩
    obtain ⟨zeros, hzeros⟩ := Decimal.exists_eq_replicate_append hne hds
    rw [hvalue] at hzeros
    rcases hcs with rfl | rfl
    · exact ⟨false, zeros, hzeros⟩
    · exact ⟨true, zeros, congrArg ('+' :: ·) hzeros⟩
  · rintro ⟨plus, zeros, rfl⟩
    refine ⟨List.replicate zeros '0' ++ Nat.toDigits 10 id.toNat, ?_, ?_, ?_, Decimal.ofDigits_replicate_append _ _⟩
    · cases plus
      · exact .inl rfl
      · exact .inr rfl
    · exact List.append_ne_nil_of_right_ne_nil _ Nat.toDigits_ne_nil
    · intro c hc
      rcases List.mem_append.1 hc with hc | hc
      · exact Decimal.isDigit_of_mem_replicate hc
      · exact Decimal.isDigit_of_mem_toDigits hc

/-- No slash stands in a number. -/
theorem not_mem_spelledId (plus : Bool) (zeros n : Nat) : '/' ∉ spelledId plus zeros n := by
  intro h
  rcases List.mem_append.1 h with h | h
  · cases plus
    · cases h
    · exact absurd h (by decide)
  · rcases List.mem_append.1 h with h | h
    · cases Decimal.isDigit_of_mem_replicate h
    · cases Decimal.isDigit_of_mem_toDigits h

/-- **The names that are read as a tag** are its spellings. -/
theorem exists_spelled_iff {name : String} {t : Tag} : (∃ s, t.spelled s = name) ↔ read name = some t := by
  rw [read_eq_some_iff]
  constructor
  · rintro ⟨⟨plus, zeros, slash⟩, rfl⟩
    refine ⟨t.kind.word.toList ++ '-' :: spelledId plus zeros t.id.toNat, ?_, ?_, ?_⟩
    · rw [List.mem_append, List.mem_cons]
      rintro (h | h | h)
      · exact t.kind.not_mem_word.2 h
      · cases h
      · exact not_mem_spelledId plus zeros t.id.toNat h
    · exact readHead_eq_some_iff.2 ⟨_, rfl, readId_eq_some_iff_spelledId.2 ⟨plus, zeros, rfl⟩⟩
    · rw [spelled, String.toList_ofList, spelledLabel]
      by_cases hlabel : t.label = ""
      · rw [if_pos hlabel]
        cases slash
        · exact .inl ⟨List.append_nil _, hlabel⟩
        · exact .inr (by rw [hlabel]; rfl)
      · exact .inr (by rw [if_neg hlabel])
  · rintro ⟨head, -, hhead, hname⟩
    obtain ⟨ds, rfl, hid⟩ := readHead_eq_some_iff.1 hhead
    obtain ⟨plus, zeros, rfl⟩ := readId_eq_some_iff_spelledId.1 hid
    rcases hname with ⟨hname, hlabel⟩ | hname
    · refine ⟨⟨plus, zeros, false⟩, ?_⟩
      rw [← String.toList_inj, spelled, String.toList_ofList, spelledLabel, if_pos hlabel, hname]
      exact List.append_nil _
    · refine ⟨⟨plus, zeros, true⟩, ?_⟩
      rw [← String.toList_inj, spelled, String.toList_ofList, spelledLabel, hname]
      split
      · rename_i hlabel
        rw [hlabel]
        rfl
      · rfl

theorem text_eq_spelled (t : Tag) : t.text = t.spelled ⟨false, 0, false⟩ := by
  rw [← String.toList_inj, text, spelled, String.toList_ofList, String.toList_ofList, chars, spelledId, spelledLabel]
  simp

theorem length_spelledId (plus : Bool) (zeros n : Nat) :
    (spelledId plus zeros n).length = plus.toNat + zeros + (Nat.toDigits 10 n).length := by
  rw [spelledId, List.length_append, List.length_append, List.length_replicate, Nat.add_assoc]
  cases plus <;> rfl

theorem length_spelledLabel (slash : Bool) (label : String) :
    (spelledLabel slash label).length =
      (spelledLabel false label).length + if label = "" then slash.toNat else 0 := by
  by_cases hlabel : label = ""
  · rw [spelledLabel, spelledLabel, if_pos hlabel, if_pos hlabel, if_pos hlabel]
    cases slash <;> rfl
  · rw [spelledLabel, spelledLabel, if_neg hlabel, if_neg hlabel, if_neg hlabel, Nat.add_zero]

/-- A tag's text is the shortest of its spellings. -/
theorem text_eq_spelled_iff {t : Tag} {s : Spelling} :
    t.text = t.spelled s ↔ s.plus = false ∧ s.zeros = 0 ∧ (s.slash = false ∨ t.label ≠ "") := by
  obtain ⟨plus, zeros, slash⟩ := s
  constructor
  · intro h
    rw [text_eq_spelled, spelled, spelled, String.ofList_inj] at h
    have hlength := congrArg List.length h
    simp only [List.length_append, List.length_cons, length_spelledId, Bool.toNat_false] at hlength
    rw [length_spelledLabel slash] at hlength
    have hextra : plus.toNat + zeros + (if t.label = "" then slash.toNat else 0) = 0 := by omega
    obtain ⟨hid, hslash⟩ := Nat.add_eq_zero_iff.1 hextra
    obtain ⟨hplus, hzeros⟩ := Nat.add_eq_zero_iff.1 hid
    refine ⟨Bool.toNat_eq_zero.1 hplus, hzeros, ?_⟩
    by_cases hlabel : t.label = ""
    · rw [if_pos hlabel] at hslash
      exact .inl (Bool.toNat_eq_zero.1 hslash)
    · exact .inr hlabel
  · rintro ⟨rfl, rfl, hslash⟩
    have hlabel : spelledLabel slash t.label = spelledLabel false t.label := by
      rcases hslash with rfl | hlabel
      · rfl
      · rw [spelledLabel, spelledLabel, if_neg hlabel, if_neg hlabel]
    rw [text_eq_spelled, spelled, spelled, hlabel]

end Tag

/-- An attachment point is passed over if its name is read as that of a sample. -/
theorem Bench.spot?_eq_none_iff {α : Type} [Scalar α] {bench : Bench α} {a : Anchor α} :
    bench.spot? a = none ↔ ∃ t, Tag.read a.name = some t ∧ t.kind ≠ .point := by
  rw [spot?, Option.map_eq_none_iff, spotLabel?]
  cases hread : Tag.read a.name with
  | none => simp
  | some t => simp

namespace Tag

/-- **Which names are read as a tag**: its spellings, of which one is its text. So a point that somebody else named is
passed over like a sample, if its name is a spelling of a sample's tag. -/
theorem read_iff_spelled (name : String) :
    (∀ t, read name = some t ↔ ∃ s : Spelling, t.spelled s = name ∧
      (t.text = name ↔ s.plus = false ∧ s.zeros = 0 ∧ (s.slash = false ∨ t.label ≠ ""))) ∧
    ∀ {α : Type} [Scalar α] (bench : Bench α) (x y : α), bench.spot? ⟨x, y, name⟩ = none ↔
      ∃ (t : Tag) (s : Spelling), t.kind ≠ .point ∧ t.spelled s = name := by
  constructor
  · intro t
    rw [← exists_spelled_iff]
    constructor
    · rintro ⟨s, rfl⟩
      exact ⟨s, rfl, text_eq_spelled_iff⟩
    · rintro ⟨s, hname, -⟩
      exact ⟨s, hname⟩
  · intro α _ bench x y
    rw [Bench.spot?_eq_none_iff]
    constructor
    · rintro ⟨t, hread, hkind⟩
      obtain ⟨s, hname⟩ := exists_spelled_iff.2 hread
      exact ⟨t, s, hkind, hname⟩
    · rintro ⟨t, s, hkind, hname⟩
      exact ⟨t, exists_spelled_iff.1 ⟨s, hname⟩, hkind⟩

/-- A name with a zero before the number is read as a tag that has another text, and its point is passed over. -/
theorem not_text_of_zero_before :
    read "area-07" = some ⟨.area, 7, ""⟩ ∧ text ⟨.area, 7, ""⟩ ≠ "area-07" ∧
      ({ w := 8, h := 8, connections := [.anchor ⟨0.5, 0.5, "area-07"⟩] } : Stencil Float).decompose .standard
        ⟨0, 0, 8, 8⟩ = ⟨[], []⟩ := by
  refine ⟨by decide, by decide, ?_⟩
  decide +kernel

example : read "line-+007/" = some ⟨.line, 7, ""⟩ := by decide

end Tag

end StencilKit
