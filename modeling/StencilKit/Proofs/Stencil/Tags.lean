/-
A tag is told from the name that it is.

The name of a tag holds three parts, and none of the marks between them can stand in the part before:
a kind is a word of letters and an id a row of digits, while a label, which comes last, may hold
anything. So the first hyphen and the first slash are those that the name was put together with, and
no two tags have one name (`read_text_unique`).
-/
import StencilKit.Proofs.Decimal.RoundTrip
import StencilKit.Proofs.Text.Blank
import StencilKit.Stencil.Tag

namespace StencilKit

theorem splitAtFirst_eq_none {mark : Char} {cs : List Char} : splitAtFirst mark cs = none ↔ mark ∉ cs := by
  rw [Option.eq_none_iff_forall_ne_some]
  constructor
  · intro h hmem
    obtain ⟨before, after, hcs, hbefore⟩ := List.eq_append_cons_of_mem hmem
    exact h (before, after) (splitAtFirst_eq_some.2 ⟨hcs, hbefore⟩)
  · rintro h ⟨before, after⟩ hsplit
    rw [(splitAtFirst_eq_some.1 hsplit).1] at h
    exact h (List.mem_append_right before List.mem_cons_self)

namespace TagKind

theorem ofWord?_eq_some_iff {cs : List Char} {kind : TagKind} : ofWord? cs = some kind ↔ cs = kind.word.toList := by
  constructor
  · intro h
    have hword := List.find?_some h
    exact (of_decide_eq_true hword).symm
  · rintro rfl
    cases kind <;> decide

/-- The marks of a tag stand in no word for its kind. -/
theorem not_mem_word (kind : TagKind) : '-' ∉ kind.word.toList ∧ '/' ∉ kind.word.toList := by
  cases kind <;> decide

end TagKind

namespace Tag

/-- A number is read from a row of digits, with a plus sign before it or without. -/
theorem readId_eq_some_iff {cs : List Char} {id : UInt32} :
    readId cs = some id ↔ ∃ ds, (cs = ds ∨ cs = '+' :: ds) ∧ ds ≠ [] ∧ (∀ c ∈ ds, c.isDigit = true) ∧
      Decimal.ofDigits ds = id.toNat := by
  have hdigits : ∀ ds : List Char,
      (if ds.isEmpty || !ds.all Char.isDigit || decide (UInt32.size ≤ Decimal.ofDigits ds) then none
        else some (UInt32.ofNat (Decimal.ofDigits ds))) = some id ↔
      ds ≠ [] ∧ (∀ c ∈ ds, c.isDigit = true) ∧ Decimal.ofDigits ds = id.toNat := by
    intro ds
    have hid : Decimal.ofDigits ds < UInt32.size ∧ UInt32.ofNat (Decimal.ofDigits ds) = id ↔
        Decimal.ofDigits ds = id.toNat := by
      constructor
      · rintro ⟨hlt, rfl⟩
        exact (UInt32.toNat_ofNat_of_lt' hlt).symm
      · intro h
        exact ⟨h ▸ id.toNat_lt_size, by rw [h, UInt32.ofNat_toNat]⟩
    rw [← hid]
    simp [Option.ite_none_left_eq_some, and_assoc]
  unfold readId
  split
  · rename_i ds
    refine (hdigits ds).trans ⟨fun h => ⟨ds, .inr rfl, h⟩, ?_⟩
    rintro ⟨ds', hcs | hcs, h⟩
    · -- No digit is a sign.
      have hplus := h.2.1 '+' (hcs ▸ List.mem_cons_self)
      cases hplus
    · obtain rfl := (List.cons.inj hcs).2
      exact h
  · rename_i hcs
    refine (hdigits cs).trans ⟨fun h => ⟨cs, .inl rfl, h⟩, ?_⟩
    rintro ⟨ds, rfl | hplus, h⟩
    · exact h
    · exact absurd hplus (hcs ds)

theorem readId_toDigits (id : UInt32) : readId (Nat.toDigits 10 id.toNat) = some id := by
  refine readId_eq_some_iff.2 ⟨_, .inl rfl, Nat.toDigits_ne_nil, fun c hc => Decimal.isDigit_of_mem_toDigits hc, ?_⟩
  rw [Decimal.ofDigits_eq, Nat.ofDigitChars_ten_toDigits]

/-- What a tag's text holds before its label. -/
def head (t : Tag) : List Char := t.kind.word.toList ++ '-' :: Nat.toDigits 10 t.id.toNat

/-- A kind and an id are read from the word for the kind and a number after a hyphen. -/
theorem readHead_eq_some_iff {cs : List Char} {kind : TagKind} {id : UInt32} :
    readHead cs = some (kind, id) ↔ ∃ ds, cs = kind.word.toList ++ '-' :: ds ∧ readId ds = some id := by
  constructor
  · intro h
    obtain ⟨⟨word, ds⟩, hsplit, h⟩ := Option.bind_eq_some_iff.1 h
    obtain ⟨kind', hkind, h⟩ := Option.bind_eq_some_iff.1 h
    obtain ⟨id', hid, h⟩ := Option.bind_eq_some_iff.1 h
    cases h
    exact ⟨ds, TagKind.ofWord?_eq_some_iff.1 hkind ▸ (splitAtFirst_eq_some.1 hsplit).1, hid⟩
  · rintro ⟨ds, rfl, hid⟩
    rw [readHead, splitAtFirst_append kind.not_mem_word.1]
    simp [TagKind.ofWord?_eq_some_iff.2 rfl, hid]

theorem readHead_head (t : Tag) : readHead t.head = some (t.kind, t.id) :=
  readHead_eq_some_iff.2 ⟨_, rfl, readId_toDigits t.id⟩

theorem not_mem_head (t : Tag) : '/' ∉ t.head := by
  intro h
  rcases List.mem_append.1 h with h | h
  · exact t.kind.not_mem_word.2 h
  · rcases List.mem_cons.1 h with h | h
    · cases h
    · cases Decimal.isDigit_of_mem_toDigits h

/-- A tag is read from what its kind and id are read from, and its label after a slash, which may be missing where
there is no label. -/
theorem read_eq_some_iff {name : String} {t : Tag} :
    read name = some t ↔ ∃ head, '/' ∉ head ∧ readHead head = some (t.kind, t.id) ∧
      (name.toList = head ∧ t.label = "" ∨ name.toList = head ++ '/' :: t.label.toList) := by
  constructor
  · intro h
    cases hsplit : splitAtFirst '/' name.toList with
    | none =>
      rw [read, hsplit] at h
      obtain ⟨⟨kind, id⟩, hhead, rfl⟩ := Option.map_eq_some_iff.1 h
      exact ⟨name.toList, splitAtFirst_eq_none.1 hsplit, hhead, .inl ⟨rfl, rfl⟩⟩
    | some parts =>
      obtain ⟨hname, hslash⟩ := splitAtFirst_eq_some.1 hsplit
      rw [read, hsplit] at h
      obtain ⟨⟨kind, id⟩, hhead, rfl⟩ := Option.map_eq_some_iff.1 h
      exact ⟨parts.1, hslash, hhead, .inr (hname.trans (by rw [String.toList_ofList]))⟩
  · rintro ⟨head, hslash, hhead, ⟨hname, hlabel⟩ | hname⟩
    · rw [read, hname, splitAtFirst_eq_none.2 hslash]
      simp only [Option.getD_none, hhead, Option.map_some]
      exact congrArg some (congrArg (Tag.mk t.kind t.id) hlabel.symm)
    · rw [read, hname, splitAtFirst_append hslash]
      simp only [Option.getD_some, hhead, Option.map_some, String.ofList_toList]

/-- **A tag is read from its text**, whatever its label holds. -/
theorem read_text (t : Tag) : read t.text = some t := by
  have hchars : t.text.toList = t.head ++ if t.label.isEmpty then [] else '/' :: t.label.toList :=
    String.toList_ofList
  refine read_eq_some_iff.2 ⟨t.head, t.not_mem_head, t.readHead_head, ?_⟩
  by_cases hlabel : t.label = ""
  · exact .inl ⟨by rw [hchars, if_pos (by simp [hlabel]), List.append_nil], hlabel⟩
  · exact .inr (by rw [hchars, if_neg (by simpa using hlabel)])

theorem text_injective : Function.Injective text := by
  intro t u h
  have hread := congrArg read h
  rw [read_text, read_text] at hread
  exact Option.some.inj hread

theorem labelOf_text (t : Tag) : labelOf t.text = t.label := by
  rw [labelOf, read_text]
  rfl

/-- A name spells out the word for the kind, a hyphen and the number in decimal, and a label after a slash. -/
theorem text_eq (t : Tag) :
    t.text = t.kind.word ++ "-" ++ toString t.id.toNat ++ (if t.label = "" then "" else "/" ++ t.label) := by
  rw [← String.toList_inj]
  by_cases hlabel : t.label = ""
  · simp [text, chars, hlabel]
  · simp [text, chars, hlabel]

/-- **Whatever a tag holds**, it is told from the name that spells it out, and no other tag has that name. -/
theorem read_text_unique (kind : TagKind) (id : UInt32) (label : String) :
    let name := text ⟨kind, id, label⟩
    name = kind.word ++ "-" ++ toString id.toNat ++ (if label = "" then "" else "/" ++ label) ∧
      read name = some ⟨kind, id, label⟩ ∧ ∀ t : Tag, t.text = name ↔ t = ⟨kind, id, label⟩ :=
  ⟨text_eq _, read_text _, fun _ => text_injective.eq_iff⟩

example : read "area-40/left/arm-2" = some ⟨.area, 40, "left/arm-2"⟩ := by decide

end Tag

end StencilKit
