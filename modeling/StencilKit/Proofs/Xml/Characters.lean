/-
A document holds nothing but the characters of XML.

Whatever a reader goes over it has looked at: what it takes for a mark, a name or white space is made of
such characters, and all other text is read by `readUntil`, which stops at any other character. So if what
a reader leaves is text, then what it was given is text. References are no way around this, since a
character that is named by a number has to be one that could stand there itself; so the values of the
tree that is read are text as well (`isText_of_readDocument`). With this it is known of every tree whether
what is written of it can be read, and as what (`readDocument_render_eq_ok`).
-/
import StencilKit.Proofs.Xml.Documents

namespace StencilKit.Xml

variable {cs rest : List Char}

/-! ## Classes of characters -/

theorem isChar_of_isSpace {c : Char} (h : isSpace c = true) : isChar c = true := by
  simp only [isSpace, Bool.or_eq_true, beq_iff_eq] at h
  rcases h with ((rfl | rfl) | rfl) | rfl <;> decide

theorem isChar_of_isNameChar {c : Char} (h : isNameChar c = true) : isChar c = true := by
  by_contra hc
  have hnumber : c.toNat < 0x20 ∨ c.toNat = 0xfffe ∨ c.toNat = 0xffff := by
    by_contra hnot
    rw [isChar, if_neg (by omega)] at hc
    simp only [Bool.and_eq_true, bne_iff_ne] at hc
    omega
  rw [← Char.ofNat_toNat c] at h
  rcases hnumber with hlow | heq | heq
  · have hnone : ∀ n < 0x20, isNameChar (.ofNat n) = false := by decide
    rw [hnone _ hlow] at h
    cases h
  · rw [heq] at h
    cases h
  · rw [heq] at h
    cases h

theorem isText_of_dropWhile {p : Char → Bool} (hp : ∀ {c}, p c = true → isChar c = true)
    (h : IsText (cs.dropWhile p)) : IsText cs := by
  rw [← List.takeWhile_append_dropWhile (p := p) (l := cs), isText_append]
  exact ⟨fun c hc => hp (List.mem_takeWhile_imp hc), h⟩

theorem isText_of_skipSpaces (h : IsText (skipSpaces cs)) : IsText cs := isText_of_dropWhile isChar_of_isSpace h

/-! ## What is gone over -/

theorem isText_of_expect {c : Char} (hc : isChar c = true) (h : expect c cs = .ok rest) (hrest : IsText rest) :
    IsText cs := by
  cases cs with
  | nil => cases h
  | cons d ds =>
    rw [expect] at h
    split at h
    · rename_i hd
      cases h
      exact isText_cons.2 ⟨hd ▸ hc, hrest⟩
    · cases h

theorem isText_of_startsWith {text : String} (htext : IsText text.toList) (h : startsWith text cs = true)
    (hrest : IsText (cs.drop text.toList.length)) : IsText cs := by
  rw [← List.prefix_iff_eq_append.1 (List.isPrefixOf_iff_prefix.1 h), isText_append]
  exact ⟨htext, hrest⟩

theorem isText_of_expectText {text : String} (htext : IsText text.toList) (h : expectText text cs = .ok rest)
    (hrest : IsText rest) : IsText cs := by
  rw [expectText] at h
  split at h
  · rename_i hstart
    cases h
    exact isText_of_startsWith htext hstart hrest
  · cases h

theorem isText_of_readQuote {quote : Char} (h : readQuote cs = .ok (quote, rest)) :
    isChar quote = true ∧ (IsText rest → IsText cs) := by
  cases cs with
  | nil => cases h
  | cons c cs =>
    rw [readQuote] at h
    split at h
    · rename_i hc
      cases h
      have hquote : isChar quote = true := by rcases hc with rfl | rfl <;> decide
      exact ⟨hquote, fun hrest => isText_cons.2 ⟨hquote, hrest⟩⟩
    · cases h

/-- Text is read character by character. -/
theorem isText_of_readUntil {stop : List Char → Bool} {text : List Char} (h : readUntil stop cs = .ok (text, rest)) :
    IsText text ∧ (IsText rest → IsText cs) := by
  induction cs generalizing text with
  | nil =>
    cases h
    exact ⟨isText_nil, id⟩
  | cons c cs ih =>
    rw [readUntil] at h
    split at h
    · cases h
    · rename_i hc
      have hc : isChar c = true := by simpa using hc
      split at h
      · cases h
        exact ⟨isText_nil, id⟩
      · obtain ⟨⟨text', rest'⟩, h', heq⟩ := map_eq_ok h
        cases heq
        obtain ⟨htext, hrest⟩ := ih h'
        exact ⟨isText_cons.2 ⟨hc, htext⟩, fun h => isText_cons.2 ⟨hc, hrest h⟩⟩

theorem isText_of_readName {name : List Char} (h : readName cs = .ok (name, rest)) (hrest : IsText rest) :
    IsText cs := by
  cases cs with
  | nil => cases h
  | cons c cs =>
    rw [readName] at h
    split at h
    · cases h
      exact isText_of_dropWhile isChar_of_isNameChar hrest
    · cases h

theorem isText_of_readQName {name : QName} (h : readQName cs = .ok (name, rest)) (hrest : IsText rest) :
    IsText cs := by
  unfold readQName at h
  dsimp only at h
  split at h
  · cases h
    exact isText_of_dropWhile isChar_of_isNameChar hrest
  · cases h

theorem isText_of_readPair {pair : Pair} (h : readPair cs = .ok (pair, rest)) :
    IsText pair.value ∧ (IsText rest → IsText cs) := by
  simp only [readPair, bind_eq_ok, Prod.exists] at h
  obtain ⟨_, r₁, h₁, r₂, h₂, quote, r₃, h₃, value, r₄, h₄, r₅, h₅, h₆⟩ := h
  cases h₆
  obtain ⟨hvalue, hr₃⟩ := isText_of_readUntil h₄
  obtain ⟨hquote, hr₂⟩ := isText_of_readQuote h₃
  refine ⟨hvalue, fun hrest => ?_⟩
  have hafter := isText_of_skipSpaces (hr₂ (hr₃ (isText_of_expect hquote h₅ hrest)))
  exact isText_of_readQName h₁ (isText_of_skipSpaces (isText_of_expect (by decide) h₂ hafter))

theorem isText_of_readComment (hstart : startsWith "<!--" cs = true) (h : readComment cs = .ok rest)
    (hrest : IsText rest) : IsText cs := by
  simp only [readComment, bind_eq_ok, Prod.exists] at h
  obtain ⟨text, r₁, h₁, r₂, h₂, h₃⟩ := h
  split at h₃
  · cases h₃
  · cases h₃
    have hr₁ := isText_of_expectText (by decide) h₂ hrest
    exact isText_of_startsWith (by decide) hstart ((isText_of_readUntil h₁).2 hr₁)

theorem isText_of_readInstruction (hstart : startsWith "<?" cs = true) (h : readInstruction cs = .ok rest)
    (hrest : IsText rest) : IsText cs := by
  rw [readInstruction] at h
  split at h
  · cases h
  · simp only [bind_eq_ok, Prod.exists] at h
    obtain ⟨_, r₁, h₁, _, r₂, h₂, h₃⟩ := h
    have hr₂ := isText_of_expectText (by decide) h₃ hrest
    have hr₁ := isText_of_skipSpaces ((isText_of_readUntil h₂).2 hr₂)
    exact isText_of_startsWith (by decide) hstart (isText_of_readName h₁ hr₁)

theorem isText_of_readSection (hstart : startsWith "<![CDATA[" cs = true) (h : readSection cs = .ok rest)
    (hrest : IsText rest) : IsText cs := by
  simp only [readSection, bind_eq_ok, Prod.exists] at h
  obtain ⟨_, r₁, h₁, h₂⟩ := h
  exact isText_of_startsWith (by decide) hstart ((isText_of_readUntil h₁).2 (isText_of_expectText (by decide) h₂ hrest))

/-! ## Values -/

theorem isChar_of_numberedChar? {base : Nat} {digits : List Char} {c : Char}
    (h : numberedChar? base digits = some c) : isChar c = true := by
  unfold numberedChar? at h
  dsimp only at h
  split at h
  · cases h
  · split at h
    · rename_i hc
      cases h
      exact hc
    · cases h

theorem isChar_of_ofName {name : List Char} {c : Char} (h : Reference.ofName name = .char c) : isChar c = true := by
  unfold Reference.ofName at h
  split_ifs at h <;> cases h <;> decide

theorem endReference_eq_some {r r' : Reference} (h : endReference r cs = some (r', rest)) :
    r' = r ∧ cs = ';' :: rest := by
  unfold endReference at h
  split at h
  · cases h
    exact ⟨rfl, rfl⟩
  · cases h

theorem readName_suffix {name : List Char} (h : readName cs = .ok (name, rest)) : rest.Sublist cs := by
  cases cs with
  | nil => cases h
  | cons c cs =>
    rw [readName] at h
    split at h
    · cases h
      exact List.dropWhile_sublist _
    · cases h

/-- What is named is a character that a document may hold, and so is all that was read. -/
theorem isText_of_readReference {c : Char} (h : readReference cs = some (.char c, rest)) (hcs : IsText cs) :
    isChar c = true ∧ IsText rest := by
  have hnumbered : ∀ {base : Nat} {ds : List Char}, IsText ds → readNumbered base ds = some (.char c, rest) →
      isChar c = true ∧ IsText rest := by
    intro base ds hds h
    simp only [readNumbered, Option.bind_eq_bind, Option.bind_eq_some_iff] at h
    obtain ⟨d, hd, h⟩ := h
    obtain ⟨heq, hrest⟩ := endReference_eq_some h
    cases heq
    have hsub : IsText (ds.dropWhile (isDigitOf base)) := fun d hd => hds d ((List.dropWhile_sublist _).subset hd)
    rw [hrest, isText_cons] at hsub
    exact ⟨isChar_of_numberedChar? hd, hsub.2⟩
  unfold readReference at h
  split at h
  · exact hnumbered (isText_cons.1 (isText_cons.1 hcs).2).2 h
  · exact hnumbered (isText_cons.1 hcs).2 h
  · split at h
    · rename_i name after hname
      obtain ⟨heq, hafter⟩ := endReference_eq_some h
      have hsub : IsText after := fun d hd => hcs d ((readName_suffix hname).subset hd)
      rw [hafter, isText_cons] at hsub
      exact ⟨isChar_of_ofName heq.symm, hsub.2⟩
    · cases h

/-- **What text stands for is text.** -/
theorem isText_of_expand {after value : List Char} (h : expand after cs = .ok value) (hcs : IsText cs) :
    IsText value := by
  fun_induction expand after cs generalizing value with
  | case1 =>
    cases h
    exact isText_nil
  | case2 cs d rest hread _ ih =>
    obtain ⟨v, hv, rfl⟩ := map_eq_ok h
    obtain ⟨hd, hrest⟩ := isText_of_readReference hread (isText_cons.1 hcs).2
    exact isText_cons.2 ⟨hd, ih hv hrest⟩
  | case3 => cases h
  | case4 => cases h
  | case5 c cs _ _ ih => exact ih h (isText_cons.1 hcs).2
  | case6 c cs _ _ _ ih =>
    obtain ⟨v, hv, rfl⟩ := map_eq_ok h
    exact isText_cons.2 ⟨by decide, ih hv (isText_cons.1 hcs).2⟩
  | case7 c cs _ _ _ ih =>
    obtain ⟨v, hv, rfl⟩ := map_eq_ok h
    obtain ⟨hc, hrest⟩ := isText_cons.1 hcs
    exact isText_cons.2 ⟨hc, ih hv hrest⟩

/-! ## Tags -/

theorem isText_of_readAttribute {a : Attribute} (h : readAttribute cs = .ok (a, rest)) :
    IsText a.value.toList ∧ (IsText rest → IsText cs) := by
  simp only [readAttribute, bind_eq_ok, Prod.exists] at h
  obtain ⟨pair, r, hpair, value, hvalue, h⟩ := h
  cases h
  obtain ⟨htext, hrest⟩ := isText_of_readPair hpair
  rw [String.toList_ofList]
  exact ⟨isText_of_expand hvalue htext, hrest⟩

/-- Whether the values of attributes are text. -/
def Attributes.IsText (as : Attributes) : Prop := ∀ a ∈ as.plain, Xml.IsText a.value.toList

theorem Attributes.isText_of_add {as as' : Attributes} {a : Attribute} (h : as.add a = .ok as') (has : as.IsText)
    (ha : Xml.IsText a.value.toList) : as'.IsText := by
  unfold add at h
  dsimp only at h
  split_ifs at h <;> cases h
  · exact has
  · exact has
  · exact has
  · exact List.forall_mem_append.2 ⟨has, List.forall_mem_singleton.2 ha⟩

theorem isText_of_readAttributes {as : Attributes} {r : Attributes × TagEnd × List Char}
    (h : readAttributes as cs = .ok r) (has : as.IsText) : r.1.IsText ∧ (IsText r.2.2 → IsText cs) := by
  fun_induction readAttributes as cs with
  | case1 as cs hempty =>
    cases h
    rw [List.isEmpty_iff.1 hempty]
    exact ⟨has, id⟩
  | case2 => cases h
  | case3 as cs _ rest hskip =>
    obtain ⟨rest', hexpect, rfl⟩ := map_eq_ok h
    refine ⟨has, fun hrest => isText_of_skipSpaces ?_⟩
    rw [hskip]
    exact isText_cons.2 ⟨by decide, isText_of_expect (by decide) hexpect hrest⟩
  | case4 as cs _ rest hskip =>
    cases h
    refine ⟨has, fun hrest => isText_of_skipSpaces ?_⟩
    rw [hskip]
    exact isText_cons.2 ⟨by decide, hrest⟩
  | case5 => cases h
  | case6 => cases h
  | case7 as cs _ _ _ _ _ _ _ a rest hread _ as' hadd ih =>
    obtain ⟨ha, hrest⟩ := isText_of_readAttribute hread
    obtain ⟨has', hr⟩ := ih h (Attributes.isText_of_add hadd has ha)
    exact ⟨has', fun h => isText_of_skipSpaces (hrest (hr h))⟩
  | case8 => cases h

/-- Whether the values of a tag's attributes are text. -/
def StartTag.IsText (tag : StartTag) : Prop := ∀ a ∈ tag.attributes, Xml.IsText a.2.toList

theorem StartTag.isText_of {outer : Scope} {name : QName} {source : List Char} {as : Attributes} {tag : StartTag}
    (h : StartTag.of outer name source as = .ok tag) (has : as.IsText) : tag.IsText := by
  simp only [StartTag.of, bind_eq_ok] at h
  obtain ⟨_, -, h⟩ := h
  split at h
  · cases h
  · cases h
    intro a ha
    obtain ⟨b, hb, rfl⟩ := List.mem_map.1 ha
    exact has b (List.mem_filter.1 hb).1

theorem isText_of_readStartTag {outer : Scope} {found : Option (StartTag × TagEnd)}
    (h : readStartTag outer cs = .ok (found, rest)) :
    (∀ t ∈ found, t.1.IsText) ∧ (IsText rest → IsText cs) := by
  simp only [readStartTag, bind_eq_ok, Prod.exists] at h
  obtain ⟨name, r₁, hname, h⟩ := h
  split at h
  · cases h
  · simp only [bind_eq_ok, Prod.exists] at h
    obtain ⟨as, tagEnd, r₂, has, h⟩ := h
    obtain ⟨hattributes, hr₁⟩ := isText_of_readAttributes has (List.forall_mem_nil _)
    split at h
    · cases h
      refine ⟨?_, fun hrest => isText_of_readQName hname (hr₁ hrest)⟩
      rintro _ ⟨⟩
    · obtain ⟨tag, htag, heq⟩ := map_eq_ok h
      cases heq
      refine ⟨?_, fun hrest => isText_of_readQName hname (hr₁ hrest)⟩
      rintro _ ⟨⟩
      exact StartTag.isText_of htag hattributes

/-! ## Content -/

/-- Whether the values of an open element, and of what has been read in it, are text. -/
def Frame.IsText (f : Frame) : Prop := f.tag.IsText ∧ ∀ e ∈ f.children, e.IsText

/-- Whether the values of all that has been read are text. -/
def Progress.IsText : Progress → Prop
  | .reading top below => ∀ f ∈ top :: below, f.IsText
  | .done root => root.IsText

theorem StartTag.isText_whole {tag : StartTag} (h : tag.IsText) : tag.whole.IsText :=
  Element.isText_node.2 ⟨h, List.forall_mem_nil _⟩

theorem Frame.isText_close {f : Frame} (h : f.IsText) : f.close.IsText :=
  Element.isText_node.2 ⟨h.1, fun e he => h.2 e (List.mem_reverse.1 he)⟩

theorem Progress.isText_close {e : Element} (he : e.IsText) {below : List Frame} (h : ∀ f ∈ below, f.IsText) :
    (Progress.close e below).IsText := by
  cases below with
  | nil => exact he
  | cons f below =>
    obtain ⟨hf, hbelow⟩ := List.forall_mem_cons.1 h
    exact List.forall_mem_cons.2 ⟨⟨hf.1, List.forall_mem_cons.2 ⟨he, hf.2⟩⟩, hbelow⟩

variable {top : Frame} {below : List Frame} {p : Progress}

theorem isText_of_readEndTag (h : readEndTag top below ('<' :: '/' :: cs) = .ok (p, rest)) :
    ((∀ f ∈ top :: below, f.IsText) → p.IsText) ∧ (IsText rest → IsText ('<' :: '/' :: cs)) := by
  simp only [readEndTag, bind_eq_ok, Prod.exists] at h
  obtain ⟨name, r₁, hname, r₂, hexpect, h⟩ := h
  split at h
  · cases h
    constructor
    · intro hframes
      obtain ⟨htop, hbelow⟩ := List.forall_mem_cons.1 hframes
      exact Progress.isText_close (Frame.isText_close htop) hbelow
    · intro hrest
      have hr₁ := isText_of_skipSpaces (isText_of_expect (by decide) hexpect hrest)
      exact isText_cons.2 ⟨by decide, isText_cons.2 ⟨by decide, isText_of_readQName hname hr₁⟩⟩
  · cases h

theorem isText_of_readInnerTag (h : readInnerTag top below ('<' :: cs) = .ok (p, rest)) :
    ((∀ f ∈ top :: below, f.IsText) → p.IsText) ∧ (IsText rest → IsText ('<' :: cs)) := by
  simp only [readInnerTag, bind_eq_ok, Prod.exists] at h
  obtain ⟨found, r, htag, h⟩ := h
  obtain ⟨hfound, hrest⟩ := isText_of_readStartTag htag
  split at h <;> cases h
  · exact ⟨id, fun h => isText_cons.2 ⟨by decide, hrest h⟩⟩
  · exact ⟨fun hframes => Progress.isText_close (StartTag.isText_whole (hfound _ rfl)) hframes,
      fun h => isText_cons.2 ⟨by decide, hrest h⟩⟩
  · exact ⟨fun hframes => List.forall_mem_cons.2 ⟨⟨hfound _ rfl, List.forall_mem_nil _⟩, hframes⟩,
      fun h => isText_cons.2 ⟨by decide, hrest h⟩⟩

theorem isText_of_readText (h : readText cs = .ok rest) (hrest : IsText rest) : IsText cs := by
  simp only [readText, bind_eq_ok, Prod.exists] at h
  obtain ⟨text, r, hread, h⟩ := h
  split at h
  · cases h
  · simp only [bind_eq_ok] at h
    obtain ⟨_, -, h⟩ := h
    cases h
    exact (isText_of_readUntil hread).2 hrest

/-- **A piece of content is text, and so are the values that are read from it.** -/
theorem isText_of_readPiece (h : readPiece top below cs = .ok (p, rest)) :
    ((∀ f ∈ top :: below, f.IsText) → p.IsText) ∧ (IsText rest → IsText cs) := by
  have hskipped : ∀ {read : Except Fault (List Char)}, (∀ r, read = .ok r → IsText r → IsText cs) →
      read.map (fun r => (Progress.reading top below, r)) = .ok (p, rest) →
      ((∀ f ∈ top :: below, f.IsText) → p.IsText) ∧ (IsText rest → IsText cs) := by
    intro read hread h
    obtain ⟨r, hr, heq⟩ := map_eq_ok h
    cases heq
    exact ⟨id, hread _ hr⟩
  unfold readPiece at h
  dsimp only at h
  split at h
  · split at h
    · rename_i hstart
      exact hskipped (fun r hr => isText_of_readComment hstart hr) h
    · split at h
      · rename_i hstart
        exact hskipped (fun r hr => isText_of_readSection hstart hr) h
      · cases h
  · refine hskipped (fun r hr => isText_of_readInstruction ?_ hr) h
    simp [startsWith]
  · exact isText_of_readEndTag h
  · exact isText_of_readInnerTag h
  · cases h
  · exact hskipped (fun r hr => isText_of_readText hr) h

theorem isText_of_readContent {found : Option Element} (h : readContent top below cs = .ok (found, rest)) :
    ((∀ f ∈ top :: below, f.IsText) → ∀ e ∈ found, e.IsText) ∧ (IsText rest → IsText cs) := by
  fun_induction readContent top below cs with
  | case1 =>
    cases h
    exact ⟨fun _ => nofun, id⟩
  | case2 => cases h
  | case3 top below cs _ root rest' hpiece =>
    cases h
    obtain ⟨hroot, hrest⟩ := isText_of_readPiece hpiece
    refine ⟨fun hframes => ?_, hrest⟩
    rintro _ ⟨⟩
    exact hroot hframes
  | case4 top below cs _ top' below' rest' hpiece _ ih =>
    obtain ⟨hframes', hrest⟩ := isText_of_readPiece hpiece
    obtain ⟨hfound, hrest'⟩ := ih h
    exact ⟨fun hframes => hfound (hframes' hframes), fun h => hrest (hrest' h)⟩

/-! ## Documents -/

theorem isText_of_readRoot {root : Root} (h : readRoot ('<' :: cs) = .ok (root, rest)) :
    (∀ e, root = .closed e → e.IsText) ∧ (IsText rest → IsText ('<' :: cs)) := by
  simp only [readRoot, bind_eq_ok, Prod.exists] at h
  obtain ⟨found, r, htag, h⟩ := h
  obtain ⟨hfound, hrest⟩ := isText_of_readStartTag htag
  have hopen : ∀ {r}, IsText r → isChar '<' = true ∧ IsText r := fun h => ⟨by decide, h⟩
  split at h
  · cases h
    refine ⟨?_, fun h => isText_cons.2 (hopen (hrest h))⟩
    rintro _ ⟨⟩
  · cases h
    refine ⟨?_, fun h => isText_cons.2 (hopen (hrest h))⟩
    rintro _ ⟨⟩
    exact StartTag.isText_whole (hfound _ rfl)
  · simp only [bind_eq_ok, Prod.exists] at h
    obtain ⟨inner, r', hcontent, h⟩ := h
    obtain ⟨hinner, hrest'⟩ := isText_of_readContent hcontent
    have hframes := List.forall_mem_singleton.2
      (show Frame.IsText ⟨_, []⟩ from ⟨hfound _ rfl, List.forall_mem_nil _⟩)
    split at h <;> cases h
    · refine ⟨?_, fun h => isText_cons.2 (hopen (hrest (hrest' h)))⟩
      rintro _ ⟨⟩
    · refine ⟨?_, fun h => isText_cons.2 (hopen (hrest (hrest' h)))⟩
      rintro _ ⟨⟩
      exact hinner hframes _ rfl

theorem isText_of_skipMisc (h : skipMisc cs = .ok rest) (hrest : IsText rest) : IsText cs := by
  fun_induction skipMisc cs with
  | case1 cs hnil =>
    refine isText_of_skipSpaces ?_
    rw [hnil]
    exact isText_nil
  | case2 => cases h
  | case3 cs _ hstart r hread _ ih => exact isText_of_skipSpaces (isText_of_readComment hstart hread (ih h))
  | case4 => cases h
  | case5 cs _ _ hstart r hread _ ih => exact isText_of_skipSpaces (isText_of_readInstruction hstart hread (ih h))
  | case6 =>
    cases h
    exact isText_of_skipSpaces hrest

theorem isText_of_endPart (h : endPart cs = .ok rest) (hrest : IsText rest) : IsText cs := by
  unfold endPart at h
  split at h
  · exact isText_nil
  · split at h
    · cases h
      exact isText_of_skipSpaces hrest
    · split at h
      · cases h
        exact hrest
      · cases h

theorem isText_of_readDeclaration (hstart : startsWith "<?xml " cs = true) (h : readDeclaration cs = .ok rest)
    (hrest : IsText rest) : IsText cs := by
  have hend : ∀ {ds : List Char}, expectText "?>" (skipSpaces ds) = .ok rest → IsText ds :=
    fun h => isText_of_skipSpaces (isText_of_expectText (by decide) h hrest)
  have hstandalone : ∀ {ds : List Char},
      (if startsWith "standalone" ds = true then readPair ds >>= fun r => pure r.2 >>= fun ds =>
          expectText "?>" (skipSpaces ds)
        else pure ds >>= fun ds => expectText "?>" (skipSpaces ds)) = .ok rest → IsText ds := by
    intro ds h
    split at h
    · simp only [bind_eq_ok] at h
      obtain ⟨⟨pair, r⟩, hpair, _, hr, h⟩ := h
      cases hr
      exact (isText_of_readPair hpair).2 (hend h)
    · exact hend h
  rw [readDeclaration] at h
  dsimp only at h
  split at h
  · cases h
  · simp only [bind_eq_ok] at h
    obtain ⟨⟨pair, r⟩, hversion, ds, hpart, h⟩ := h
    have hds : IsText ds := by
      split at h
      · obtain ⟨⟨pair', r'⟩, hencoding, h⟩ := bind_eq_ok.1 h
        obtain ⟨ds', hpart', h⟩ := bind_eq_ok.1 h
        exact (isText_of_readPair hencoding).2 (isText_of_endPart hpart' (hstandalone h))
      · exact hstandalone h
    have hafter := isText_of_skipSpaces ((isText_of_readPair hversion).2 (isText_of_endPart hpart hds))
    have hprefix : startsWith "<?xml" cs = true :=
      List.isPrefixOf_iff_prefix.2 (List.IsPrefix.trans (by decide) (List.isPrefixOf_iff_prefix.1 hstart))
    exact isText_of_startsWith (by decide) hprefix hafter

/-- What a document comes to when its root has been read up to the given rest. -/
def conclude (root : Root) (rest : List Char) : Except Fault Element := do
  let rest ← skipMisc rest
  if !rest.isEmpty then .error (fault .unknownToken rest)
  match root with
  | .absent => .error Cause.noRoot.fault
  | .unclosed => .error Cause.rootNotClosed.fault
  | .closed e => .ok e

/-- A document without a byte order mark and a declaration. -/
def readBody (cs : List Char) : Except Fault Element := do
  let cs ← skipMisc cs
  if startsWith "<!DOCTYPE" cs then .error Cause.documentType.fault
  let (root, rest) ← if cs.head? == some '<' then readRoot cs else pure (.absent, cs)
  conclude root rest

theorem readDocument_eq (cs : List Char) :
    readDocument cs =
      let cs := if cs.head? == some '\ufeff' then cs.drop 1 else cs
      (if startsWith "<?xml " cs then readDeclaration cs else pure cs) >>= readBody := by
  rw [readDocument]
  dsimp only
  split <;> split <;> rfl

theorem isText_of_conclude {root : Root} {e : Element} (h : conclude root rest = .ok e) :
    IsText rest ∧ root = .closed e := by
  simp only [conclude, bind_eq_ok] at h
  obtain ⟨ds, hskip, h⟩ := h
  split at h
  · cases h
  · rename_i hempty
    obtain rfl : ds = [] := by simpa using hempty
    refine ⟨isText_of_skipMisc hskip isText_nil, ?_⟩
    split at h <;> cases h
    rfl

theorem isText_of_readBody {e : Element} (h : readBody cs = .ok e) : IsText cs ∧ e.IsText := by
  simp only [readBody, bind_eq_ok] at h
  obtain ⟨ds, hskip, h⟩ := h
  suffices hds : IsText ds ∧ e.IsText from ⟨isText_of_skipMisc hskip hds.1, hds.2⟩
  split at h
  · cases h
  · split at h
    · rename_i hhead
      obtain ⟨ds, rfl⟩ := List.head?_eq_some_iff.1 (by simpa using hhead)
      obtain ⟨⟨root, rest⟩, hroot, h⟩ := bind_eq_ok.1 h
      obtain ⟨hrest, rfl⟩ := isText_of_conclude h
      obtain ⟨hvalues, hds⟩ := isText_of_readRoot hroot
      exact ⟨hds hrest, hvalues e rfl⟩
    · rw [pure_bind] at h
      obtain ⟨-, habsent⟩ := isText_of_conclude h
      cases habsent

/-- **A document that can be read is text, and so are the values in it.** -/
theorem isText_of_readDocument {e : Element} (h : readDocument cs = .ok e) : IsText cs ∧ e.IsText := by
  have hmark : ∀ {ds : List Char}, IsText (if ds.head? == some '\ufeff' then ds.drop 1 else ds) → IsText ds := by
    intro ds h
    split at h
    · rename_i hhead
      obtain ⟨ds, rfl⟩ := List.head?_eq_some_iff.1 (by simpa using hhead)
      exact isText_cons.2 ⟨by decide, h⟩
    · exact h
  rw [readDocument_eq] at h
  obtain ⟨ds, hdeclaration, h⟩ := bind_eq_ok.1 h
  obtain ⟨hds, hvalues⟩ := isText_of_readBody h
  refine ⟨hmark ?_, hvalues⟩
  generalize (if cs.head? == some '\ufeff' then cs.drop 1 else cs) = whole at hdeclaration ⊢
  split at hdeclaration
  · rename_i hstart
    exact isText_of_readDeclaration hstart hdeclaration hds
  · cases hdeclaration
    exact hds

theorem isText_renderAll {holds : String → Bool} {es : List Element} (h : IsText (renderAll holds es)) :
    ∀ e ∈ es, IsText (e.render holds) := by
  induction es with
  | nil => exact List.forall_mem_nil _
  | cons e es ih =>
    rw [renderAll, isText_append] at h
    exact List.forall_mem_cons.2 ⟨h.1, ih h.2⟩

/-- The values of a tree are text if its text is. -/
theorem Element.isText_of_render {holds : String → Bool} {e : Element} (h : e.WellNamed holds)
    (htext : Xml.IsText (e.render holds)) : e.IsText := by
  have hstart : ∀ {tag : String} {attributes : List (String × String)}, Xml.IsText (renderStart tag attributes) →
      ∀ a ∈ attributes, Xml.IsText a.2.toList := by
    intro tag attributes hstart a ha
    rw [renderStart, isText_append] at hstart
    have hattribute : Xml.IsText (renderAttribute a) :=
      fun c hc => hstart.2 c (List.mem_flatMap.2 ⟨a, ha, hc⟩)
    simp only [renderAttribute, isText_append, isText_cons] at hattribute
    exact isText_escape.1 hattribute.1.2.2.2
  induction h with
  | node hname hattrs hheld hchildren ih =>
    rename_i tag attributes children
    rw [Element.isText_node]
    rw [Element.render] at htext
    split at htext
    · simp only [isText_append, isText_cons] at htext
      exact ⟨hstart htext.1.1.1, fun e he => ih e he (isText_renderAll htext.1.1.2.2 e he)⟩
    · rename_i hholds
      rw [isText_append] at htext
      obtain rfl := hheld (by simpa using hholds)
      exact ⟨hstart htext.1, List.forall_mem_nil _⟩

/-- **A tree is read from its text just when its values are text.** -/
theorem readDocument_render_eq_ok {holds : String → Bool} {e e' : Element} (h : e.WellNamed holds) :
    readDocument (e.render holds) = .ok e' ↔ e.IsText ∧ e' = e.respaced := by
  constructor
  · intro hread
    have htext := e.isText_of_render h (isText_of_readDocument hread).1
    exact ⟨htext, Except.ok.inj (hread.symm.trans (readDocument_render h htext))⟩
  · rintro ⟨htext, rfl⟩
    exact readDocument_render h htext

end StencilKit.Xml
