/-
A start tag is read back from its text.

Attribute values are written with references for the characters that mean something to a reader, and
the reader turns these back. What it does not keep are line ends and tabs that are written as such
(`expand_escape`), so a value keeps every character only if it has none of these (`isLiteral`). Names are
written as they are; a name without a colon has no prefix, and so no namespace is looked up.
-/
import Mathlib.Data.List.TakeWhile
import StencilKit.Proofs.Text.Blank
import StencilKit.Xml.Element
import StencilKit.Xml.StartTag

namespace StencilKit.Xml

/-- The characters that an attribute value keeps as they are: those that a document may hold, other
than tab, line feed and return. -/
def isLiteral (c : Char) : Bool := isChar c && c != '\t' && c != '\n' && c != '\r'

/-- Whether a document may hold a text. -/
def IsText (cs : List Char) : Prop := ∀ c ∈ cs, isChar c = true

instance (cs : List Char) : Decidable (IsText cs) := inferInstanceAs (Decidable (∀ c ∈ cs, isChar c = true))

@[simp] theorem isText_nil : IsText [] := List.forall_mem_nil _

@[simp] theorem isText_cons {c : Char} {cs : List Char} : IsText (c :: cs) ↔ isChar c = true ∧ IsText cs :=
  List.forall_mem_cons

@[simp] theorem isText_append {cs ds : List Char} : IsText (cs ++ ds) ↔ IsText cs ∧ IsText ds :=
  List.forall_mem_append

/-- Whether a text is a name without a prefix. -/
def isWord (word : List Char) : Bool := isPlainName word && word.all isNameChar

/-! ## Values -/

/-- A value in the text, between its quotation marks. -/
def escape (cs : List Char) : List Char := cs.flatMap escapeChar

/-- A value as it is read where it stands in a text as it is: a return in front of a line feed is left
out, and what remains of tabs, line feeds and returns are spaces. -/
def respace : List Char → List Char
  | [] => []
  | c :: cs =>
    if c = '\r' ∧ cs.head? = some '\n' then respace cs
    else if c = '\n' ∨ c = '\r' ∨ c = '\t' then ' ' :: respace cs
    else c :: respace cs

/-- `respace` for strings. -/
def respaced (value : String) : String := .ofList (respace value.toList)

theorem isLiteral_isChar {c : Char} (h : isLiteral c = true) : isChar c = true := by
  simp only [isLiteral, Bool.and_eq_true] at h
  exact h.1.1.1

theorem isText_of_isLiteral {cs : List Char} (h : ∀ c ∈ cs, isLiteral c = true) : IsText cs :=
  fun c hc => isLiteral_isChar (h c hc)

theorem isLiteral_iff {c : Char} : isLiteral c = true ↔ isChar c = true ∧ ¬ (c = '\n' ∨ c = '\r' ∨ c = '\t') := by
  simp only [isLiteral, Bool.and_eq_true, bne_iff_ne, ne_eq]
  tauto

/-- What has no tabs and line ends is read as it is. -/
theorem respace_eq_self {cs : List Char} (h : ∀ c ∈ cs, isLiteral c = true) : respace cs = cs := by
  induction cs with
  | nil => rfl
  | cons c cs ih =>
    have hc := (isLiteral_iff.1 (h c List.mem_cons_self)).2
    rw [respace, if_neg fun h => hc (.inr (.inl h.1)), if_neg hc, ih fun d hd => h d (List.mem_cons_of_mem c hd)]

theorem respaced_eq_self {value : String} (h : ∀ c ∈ value.toList, isLiteral c = true) : respaced value = value := by
  rw [respaced, respace_eq_self h, String.ofList_toList]

/-- What has been read so has no tabs and line ends. -/
theorem isLiteral_of_mem_respace {cs : List Char} (h : IsText cs) : ∀ c ∈ respace cs, isLiteral c = true := by
  induction cs with
  | nil => exact List.forall_mem_nil _
  | cons c cs ih =>
    obtain ⟨hc, hcs⟩ := isText_cons.1 h
    rw [respace]
    split_ifs with h₁ h₂
    · exact ih hcs
    · exact List.forall_mem_cons.2 ⟨by decide, ih hcs⟩
    · exact List.forall_mem_cons.2 ⟨isLiteral_iff.2 ⟨hc, h₂⟩, ih hcs⟩

theorem isLiteral_of_mem_respaced {value : String} (h : IsText value.toList) :
    ∀ c ∈ (respaced value).toList, isLiteral c = true := by
  rw [respaced, String.toList_ofList]
  exact isLiteral_of_mem_respace h

theorem expand_of_reference {after rest : List Char} {c : Char} (cs : List Char)
    (h : readReference cs = some (.char c, rest)) :
    expand after ('&' :: cs) = (expand after rest).map (c :: ·) := by
  rw [expand, if_pos rfl]
  split
  · rename_i h'
    rw [h] at h'
    cases h'
    rfl
  · rename_i h'
    rw [h] at h'
    cases h'
  · rename_i h'
    rw [h] at h'
    cases h'

/-- A character stands for itself in a value, or a reference does. -/
theorem escapeChar_cases (c : Char) :
    (escapeChar c = [c] ∧ c ≠ '&' ∧ c ≠ '<' ∧ c ≠ '\x22') ∨
      ∃ name, escapeChar c = '&' :: name ∧ isLiteral c = true ∧
        (name.all fun d => isChar d && d != '<' && d != '\x22') = true ∧
        ∀ rest, readReference (name ++ rest) = some (.char c, rest) := by
  unfold escapeChar
  split_ifs with h₁ h₂ h₃ h₄ h₅
  · exact .inr ⟨"lt;".toList, rfl, by rw [h₁]; decide, by decide, fun rest => by rw [h₁]; rfl⟩
  · exact .inr ⟨"gt;".toList, rfl, by rw [h₂]; decide, by decide, fun rest => by rw [h₂]; rfl⟩
  · exact .inr ⟨"amp;".toList, rfl, by rw [h₃]; decide, by decide, fun rest => by rw [h₃]; rfl⟩
  · exact .inr ⟨"quot;".toList, rfl, by rw [h₄]; decide, by decide, fun rest => by rw [h₄]; rfl⟩
  · exact .inr ⟨"apos;".toList, rfl, by rw [h₅]; decide, by decide, fun rest => by rw [h₅]; rfl⟩
  · exact .inl ⟨rfl, h₃, h₁, h₄⟩

theorem head?_escape {cs : List Char} : (escape cs).head? = some '\n' ↔ cs.head? = some '\n' := by
  cases cs with
  | nil => rfl
  | cons c cs =>
    rw [escape, List.flatMap_cons]
    rcases escapeChar_cases c with ⟨hc, -⟩ | ⟨name, hname, hc, -⟩
    · rw [hc]
      rfl
    · rw [hname]
      refine iff_of_false (by simp) ?_
      rintro ⟨⟩
      cases hc

/-- **A value is read from its text**, and keeps all but tabs and line ends. -/
theorem expand_escape (after value : List Char) : expand after (escape value) = .ok (respace value) := by
  induction value with
  | nil => rw [escape, List.flatMap_nil, expand, respace]
  | cons c cs ih =>
    rw [escape, List.flatMap_cons, ← escape]
    rcases escapeChar_cases c with ⟨hc, hne, -⟩ | ⟨name, hname, hc, -, hread⟩
    · rw [hc, List.singleton_append, expand, if_neg hne, respace, ih]
      simp only [head?_escape]
      split_ifs <;> rfl
    · have hspace := (isLiteral_iff.1 hc).2
      rw [hname, List.cons_append, expand_of_reference _ (hread _), ih, respace,
        if_neg fun h => hspace (.inr (.inl h.1)), if_neg hspace]
      rfl

/-- The text of a value has neither quotation marks nor angle brackets. -/
theorem of_mem_escape {value : List Char} (h : IsText value) {d : Char} (hd : d ∈ escape value) :
    isChar d = true ∧ d ≠ '\x22' ∧ d ≠ '<' := by
  obtain ⟨c, hc, hd⟩ := List.mem_flatMap.1 hd
  rcases escapeChar_cases c with ⟨hself, -, hopen, hquote⟩ | ⟨name, hname, -, hall, -⟩
  · rw [hself, List.mem_singleton] at hd
    subst hd
    exact ⟨h d hc, hquote, hopen⟩
  · rw [hname] at hd
    rcases List.mem_cons.1 hd with rfl | hd
    · decide
    · have hplain := List.all_eq_true.1 hall d hd
      simp only [Bool.and_eq_true, bne_iff_ne, ne_eq] at hplain
      exact ⟨hplain.1.1, hplain.2, hplain.1.2⟩

/-- A document can hold a value only as its characters, but for those that have references. -/
theorem isText_escape {value : List Char} : IsText (escape value) ↔ IsText value := by
  constructor
  · intro h c hc
    rcases escapeChar_cases c with ⟨hself, -⟩ | ⟨_, -, hliteral, -⟩
    · exact h c (List.mem_flatMap.2 ⟨c, hc, by rw [hself]; exact List.mem_singleton_self c⟩)
    · exact isLiteral_isChar hliteral
  · exact fun h d hd => (of_mem_escape h hd).1

/-! ## Names -/

theorem isWord_iff {word : List Char} : isWord word = true ↔
    (∃ c cs, word = c :: cs ∧ isNameStart c = true) ∧ ':' ∉ word ∧ ∀ c ∈ word, isNameChar c = true := by
  unfold isWord isPlainName
  cases word with
  | nil => simp
  | cons c cs => simp [and_assoc]

theorem splitColon_of_not_mem {word : List Char} (h : ':' ∉ word) : splitColon word = ([], word) := by
  have : word.dropWhile (· != ':') = [] := by
    rw [List.dropWhile_eq_nil_iff]
    intro c hc
    simp only [bne_iff_ne, ne_eq]
    rintro rfl
    exact h hc
  unfold splitColon
  rw [this]

/-- A name without a prefix is read up to the first character that no name has. -/
theorem readQName_append {word : List Char} (hword : isWord word = true) (rest : List Char)
    (hrest : ∀ c ∈ rest.head?, isNameChar c = false) :
    readQName (word ++ rest) = .ok (⟨"", .ofList word⟩, rest) := by
  obtain ⟨-, hcolon, hchars⟩ := isWord_iff.1 hword
  have hplain : isPlainName word = true := (Bool.and_eq_true_iff.1 hword).1
  obtain ⟨htake, hdrop⟩ := span_append hchars hrest
  unfold readQName
  rw [htake, hdrop, splitColon_of_not_mem hcolon]
  simp [hplain]

/-- What no name begins with. -/
theorem ne_of_isNameStart {c d : Char} (hc : isNameStart c = true) (hd : isNameStart d = false) : c ≠ d := by
  rintro rfl
  rw [hc] at hd
  cases hd

theorem isSpace_of_isNameStart {c : Char} (hc : isNameStart c = true) : isSpace c = false := by
  have hne := fun d hd => ne_of_isNameStart (d := d) hc hd
  simp [isSpace, hne ' ' (by decide), hne '\t' (by decide), hne '\n' (by decide), hne '\r' (by decide)]

theorem skipSpaces_cons {c : Char} {cs : List Char} (hc : isSpace c = false) :
    skipSpaces (c :: cs) = c :: cs := by
  rw [skipSpaces, List.dropWhile_cons_of_neg (by simp [hc])]

/-! ## Attributes -/

/-- The text of an attribute, without the space before it. -/
def attributeText (name value : List Char) : List Char :=
  name ++ '=' :: '\x22' :: escape value ++ ['\x22']

/-- Text is read up to where it has to stop. -/
theorem readUntil_append {stop : List Char → Bool} {text rest : List Char}
    (htext : ∀ c ∈ text, isChar c = true ∧ ∀ cs, stop (c :: cs) = false)
    (hrest : ∃ c cs, rest = c :: cs ∧ isChar c = true ∧ stop rest = true) :
    readUntil stop (text ++ rest) = .ok (text, rest) := by
  induction text with
  | nil =>
    obtain ⟨c, cs, rfl, hc, hs⟩ := hrest
    simp [readUntil, hc, hs]
  | cons c cs ih =>
    obtain ⟨hc, hs⟩ := htext c List.mem_cons_self
    have ih := ih fun d hd => htext d (List.mem_cons_of_mem _ hd)
    simp [readUntil, hc, hs, ih, Except.map]

theorem readAttribute_append {name value : List Char} (hname : isWord name = true) (hvalue : IsText value)
    (rest : List Char) :
    readAttribute (attributeText name value ++ rest) =
      .ok (⟨⟨"", .ofList name⟩, .ofList (respace value), attributeText name value ++ rest⟩, rest) := by
  have hq : readQName (attributeText name value ++ rest) =
      .ok (⟨"", .ofList name⟩, '=' :: '\x22' :: (escape value ++ '\x22' :: rest)) := by
    have := readQName_append hname ('=' :: '\x22' :: (escape value ++ '\x22' :: rest)) (by simp; decide)
    simpa [attributeText] using this
  have hu : readUntil (fun cs => cs.head? == some '\x22' || cs.head? == some '<') (escape value ++ '\x22' :: rest) =
      .ok (escape value, '\x22' :: rest) := by
    refine readUntil_append ?_ ⟨'\x22', rest, rfl, by decide, by simp⟩
    intro c hc
    obtain ⟨h₁, h₂, h₃⟩ := of_mem_escape hvalue hc
    exact ⟨h₁, fun cs => by simp [h₂, h₃]⟩
  have hpair : readPair (attributeText name value ++ rest) =
      .ok (⟨⟨"", .ofList name⟩, escape value, '\x22'⟩, rest) := by
    simp only [readPair, hq, bind, Except.bind]
    rw [skipSpaces_cons (by decide), expect, if_pos rfl]
    simp only
    rw [skipSpaces_cons (by decide), readQuote, if_pos (.inl rfl)]
    simp only
    rw [hu]
    simp only
    rw [expect, if_pos rfl]
    rfl
  simp only [readAttribute, hpair, bind, Except.bind, expand_escape]
  rfl

/-- Attributes under names without a prefix, each of them once. -/
structure WellNamed (attributes : List (String × String)) : Prop where
  words : ∀ a ∈ attributes, isWord a.1.toList = true ∧ a.1 ≠ "xmlns"
  distinct : (attributes.map (·.1)).Nodup

theorem WellNamed.tail {a : String × String} {attributes : List (String × String)}
    (h : WellNamed (a :: attributes)) : WellNamed attributes where
  words b hb := h.words b (List.mem_cons_of_mem _ hb)
  distinct := (List.nodup_cons.1 h.distinct).2

/-- Attributes with the values that are read for theirs. -/
def respaceValues (attributes : List (String × String)) : List (String × String) :=
  attributes.map fun a => (a.1, respaced a.2)

@[simp] theorem respaceValues_nil : respaceValues [] = [] := rfl

@[simp] theorem respaceValues_cons (name value : String) (attributes : List (String × String)) :
    respaceValues ((name, value) :: attributes) = (name, respaced value) :: respaceValues attributes := rfl

@[simp] theorem respaceValues_append (as bs : List (String × String)) :
    respaceValues (as ++ bs) = respaceValues as ++ respaceValues bs := List.map_append

/-- One more attribute. -/
theorem readAttributes_cons {as as' : Attributes} {a : Attribute} {c : Char} {cs rest : List Char}
    (hc : isNameStart c = true) (hr : readAttribute (c :: cs) = .ok (a, rest)) (ha : as.add a = .ok as') :
    readAttributes as (' ' :: c :: cs) = readAttributes as' rest := by
  have hskip : skipSpaces (' ' :: c :: cs) = c :: cs := by
    rw [skipSpaces, List.dropWhile_cons_of_pos (by decide)]
    exact skipSpaces_cons (isSpace_of_isNameStart hc)
  have hslash := ne_of_isNameStart (d := '/') hc (by decide)
  have hclose := ne_of_isNameStart (d := '>') hc (by decide)
  rw [readAttributes, if_neg (by simp)]
  split
  · rename_i h
    rw [hskip] at h
    cases h
  · rename_i h
    rw [hskip] at h
    cases h
    exact absurd rfl hslash
  · rename_i h
    rw [hskip] at h
    cases h
    exact absurd rfl hclose
  · rw [if_pos (by simp [isSpace])]
    split
    · rename_i h
      rw [hskip, hr] at h
      cases h
    · rename_i h
      rw [hskip, hr] at h
      cases h
      rw [ha]

theorem readAttributes_opening (as : Attributes) (rest : List Char) :
    readAttributes as ('>' :: rest) = .ok (as, .opening, rest) := by
  have hskip : skipSpaces ('>' :: rest) = '>' :: rest := skipSpaces_cons (by decide)
  rw [readAttributes, if_neg (by simp)]
  split
  · rename_i h
    rw [hskip] at h
    cases h
  · rename_i h
    rw [hskip] at h
    cases h
  · rename_i h
    rw [hskip] at h
    cases h
    rfl
  · rename_i hne h
    rw [hskip] at h
    cases h
    exact absurd rfl hne

theorem readAttributes_whole (as : Attributes) (rest : List Char) :
    readAttributes as ('/' :: '>' :: rest) = .ok (as, .whole, rest) := by
  have hskip : skipSpaces ('/' :: '>' :: rest) = '/' :: '>' :: rest := skipSpaces_cons (by decide)
  rw [readAttributes, if_neg (by simp)]
  split
  · rename_i h
    rw [hskip] at h
    cases h
  · rename_i h
    rw [hskip] at h
    cases h
    rfl
  · rename_i h
    rw [hskip] at h
    cases h
  · rename_i hne _ h
    rw [hskip] at h
    cases h
    exact absurd rfl hne

/-- **Attributes are read in order**, in front of anything that ends a tag. -/
theorem readAttributes_render {attributes : List (String × String)} (h : WellNamed attributes)
    (htext : ∀ a ∈ attributes, IsText a.2.toList) {tagEnd : TagEnd} {tail rest : List Char}
    (hend : ∀ as, readAttributes as tail = .ok (as, tagEnd, rest)) (as : Attributes) :
    ∃ plain : List Attribute, plain.map (fun a => (a.name.name, a.value)) = respaceValues attributes ∧
      (∀ a ∈ plain, a.name.space = "") ∧
      readAttributes as (attributes.flatMap renderAttribute ++ tail) =
        .ok ({ as with plain := as.plain ++ plain }, tagEnd, rest) := by
  induction attributes generalizing as with
  | nil => exact ⟨[], rfl, by simp, by simp [hend]⟩
  | cons a attributes ih =>
    obtain ⟨hword, hxmlns⟩ := h.words a List.mem_cons_self
    obtain ⟨hvalue, hvalues⟩ := List.forall_mem_cons.1 htext
    obtain ⟨⟨c, cs, hname, hc⟩, -⟩ := isWord_iff.1 hword
    have hr := readAttribute_append hword hvalue (attributes.flatMap renderAttribute ++ tail)
    rw [String.ofList_toList, ← respaced] at hr
    obtain ⟨source, hsource⟩ : ∃ source, source = attributeText a.1.toList a.2.toList ++
      (attributes.flatMap renderAttribute ++ tail) := ⟨_, rfl⟩
    have hadd : as.add ⟨⟨"", a.1⟩, respaced a.2, source⟩ =
        .ok { as with plain := as.plain ++ [⟨⟨"", a.1⟩, respaced a.2, source⟩] } := by
      simp [Attributes.add, hxmlns]
    obtain ⟨plain, hplain, hspace, hrest⟩ :=
      ih h.tail hvalues { as with plain := as.plain ++ [⟨⟨"", a.1⟩, respaced a.2, source⟩] }
    refine ⟨⟨⟨"", a.1⟩, respaced a.2, source⟩ :: plain, by simp [hplain, respaceValues], by simpa using hspace, ?_⟩
    have htext : (a :: attributes).flatMap renderAttribute ++ tail = ' ' :: source := by
      simp [hsource, renderAttribute, attributeText, escape]
    rw [← hsource] at hr
    obtain ⟨cs', hcs⟩ : ∃ cs', source = c :: cs' := ⟨_, by rw [hsource, attributeText, hname]; rfl⟩
    rw [htext, hcs, readAttributes_cons hc (by rw [← hcs]; exact hr) hadd, hrest]
    simp [hcs]

/-! ## Start tags -/

theorem checkAttributes_of_nodup {scope : Scope} {plain : List Attribute}
    (hspace : ∀ a ∈ plain, a.name.space = "") (hnodup : (plain.map (·.name.name)).Nodup)
    (seen : List (Option String × String)) (hseen : ∀ a ∈ plain, (none, a.name.name) ∉ seen) :
    checkAttributes scope seen plain = .ok () := by
  induction plain generalizing seen with
  | nil => rfl
  | cons a plain ih =>
    rw [List.map_cons, List.nodup_cons] at hnodup
    have huri : a.uri? scope = .ok none := by
      simp [Attribute.uri?, hspace a List.mem_cons_self]
    have hnew : seen.contains (none, a.name.name) = false := by
      simpa using hseen a List.mem_cons_self
    simp only [checkAttributes, huri, bind, Except.bind, hnew]
    refine ih (fun b hb => hspace b (List.mem_cons_of_mem _ hb)) hnodup.2 _ ?_
    intro b hb
    rw [List.mem_cons, not_or]
    refine ⟨fun h => hnodup.1 ?_, hseen b (List.mem_cons_of_mem _ hb)⟩
    rw [← (Prod.mk.inj h).2]
    exact List.mem_map_of_mem hb

/-- **A start tag is read from its text**, in front of anything that ends it. -/
theorem readStartTag_render (outer : Scope) {tag : String} {attributes : List (String × String)}
    (htag : isWord tag.toList = true) (h : WellNamed attributes) (htext : ∀ a ∈ attributes, IsText a.2.toList)
    {tagEnd : TagEnd} (hne : tagEnd ≠ .absent) {tail rest : List Char}
    (hhead : ∀ c ∈ tail.head?, isNameChar c = false)
    (hend : ∀ as, readAttributes as tail = .ok (as, tagEnd, rest)) :
    readStartTag outer (tag.toList ++ attributes.flatMap renderAttribute ++ tail) =
      .ok (some (⟨⟨"", tag⟩, respaceValues attributes, outer⟩, tagEnd), rest) := by
  have hq : readQName (tag.toList ++ attributes.flatMap renderAttribute ++ tail) =
      .ok (⟨"", tag⟩, attributes.flatMap renderAttribute ++ tail) := by
    rw [List.append_assoc, readQName_append htag _, String.ofList_toList]
    cases attributes with
    | nil => simpa using hhead
    | cons a attributes => simp [renderAttribute]; decide
  obtain ⟨plain, hplain, hspace, hr⟩ := readAttributes_render h htext hend ⟨[], []⟩
  have hnodup : (plain.map (·.name.name)).Nodup := by
    have : plain.map (·.name.name) = attributes.map (·.1) := by
      have hnames := congrArg (List.map Prod.fst) hplain
      rwa [respaceValues, List.map_map, List.map_map] at hnames
    rw [this]
    exact h.distinct
  have hcheck : checkAttributes outer [] plain = .ok () := checkAttributes_of_nodup hspace hnodup [] (by simp)
  have hfilter : plain.filter (·.name.space.isEmpty) = plain := by
    rw [List.filter_eq_self]
    intro a ha
    rw [hspace a ha]
    rfl
  simp only [readStartTag, hq, bind, Except.bind]
  rw [if_neg (by decide)]
  simp only [hr, List.nil_append]
  rw [if_neg hne]
  simp [StartTag.of, hcheck, hfilter, hplain, bind, Except.bind, Except.map, pure, Except.pure]

end StencilKit.Xml
