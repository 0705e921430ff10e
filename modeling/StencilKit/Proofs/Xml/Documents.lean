/-
An element tree is read back from its text.

The reader keeps the open elements as frames, so what is proved by induction on a tree is what its text
does to the frames around it: the innermost one has one more child, and nothing else changes
(`readContent_render`). For that the text may be followed by anything, and the frames may be any. What is
read is the tree but for the tabs and line ends in its values (`readDocument_render`).
-/
import StencilKit.Proofs.Xml.Attributes
import StencilKit.Xml.Document

namespace StencilKit.Xml

mutual

/-- A tree with the values that are read for its values. -/
def Element.respaced : Element → Element
  | .node tag attributes children => .node tag (respaceValues attributes) (respacedAll children)

/-- Trees in a row with the values that are read for theirs. -/
def respacedAll : List Element → List Element
  | [] => []
  | e :: es => e.respaced :: respacedAll es

end

mutual

/-- The values of all attributes in a tree. -/
def Element.values : Element → List String
  | .node _ attributes children => attributes.map (·.2) ++ valuesAll children

/-- The values of all attributes in trees in a row. -/
def valuesAll : List Element → List String
  | [] => []
  | e :: es => e.values ++ valuesAll es

end

theorem respacedAll_eq_map (es : List Element) : respacedAll es = es.map Element.respaced := by
  induction es with
  | nil => rfl
  | cons e es ih => rw [respacedAll, ih, List.map_cons]

theorem valuesAll_eq_flatMap (es : List Element) : valuesAll es = es.flatMap Element.values := by
  induction es with
  | nil => rfl
  | cons e es ih => rw [valuesAll, ih, List.flatMap_cons]

/-- The trees that can be written: names without prefixes, and children only in elements that are written
with an end tag. -/
inductive Element.WellNamed (holds : String → Bool) : Element → Prop where
  | node {tag : String} {attributes : List (String × String)} {children : List Element}
      (name : isWord tag.toList = true) (names : Xml.WellNamed attributes)
      (held : holds tag = false → children = [])
      (children_wellNamed : ∀ e ∈ children, Element.WellNamed holds e) :
      Element.WellNamed holds (.node tag attributes children)

/-- Whether a document may hold the values of a tree. -/
def Element.IsText (e : Element) : Prop := ∀ v ∈ e.values, Xml.IsText v.toList

theorem Element.isText_node {tag : String} {attributes : List (String × String)} {children : List Element} :
    (Element.node tag attributes children).IsText ↔
      (∀ a ∈ attributes, Xml.IsText a.2.toList) ∧ ∀ e ∈ children, e.IsText := by
  have hvalues : (Element.node tag attributes children).values =
      attributes.map (·.2) ++ children.flatMap Element.values := by
    rw [Element.values, valuesAll_eq_flatMap]
  simp only [Element.IsText, hvalues, List.forall_mem_append, List.forall_mem_map, List.mem_flatMap,
    forall_exists_index, and_imp]
  exact and_congr_right fun _ => ⟨fun h e he v hv => h v e he hv, fun h v e he hv => h e he v hv⟩

/-! ## Pieces of content -/

theorem ok_bind {ε β γ : Type} (b : β) (f : β → Except ε γ) : (Except.ok b >>= f) = f b := rfl

/-- What a piece leaves open is read on. -/
theorem readContent_of_reading {top top' : Frame} {below below' : List Frame} {cs rest : List Char}
    (h : readPiece top below cs = .ok (.reading top' below', rest)) (hcs : cs ≠ []) :
    readContent top below cs = readContent top' below' rest := by
  rw [readContent, dif_neg hcs]
  split
  · rename_i h'
    rw [h] at h'
    cases h'
  · rename_i h'
    rw [h] at h'
    cases h'
  · rename_i h'
    rw [h] at h'
    cases h'
    rfl

theorem readContent_of_done {top : Frame} {below : List Frame} {root : Element} {cs rest : List Char}
    (h : readPiece top below cs = .ok (.done root, rest)) (hcs : cs ≠ []) :
    readContent top below cs = .ok (some root, rest) := by
  rw [readContent, dif_neg hcs]
  split
  · rename_i h'
    rw [h] at h'
    cases h'
  · rename_i h'
    rw [h] at h'
    cases h'
    rfl
  · rename_i h'
    rw [h] at h'
    cases h'

/-- A bracket and a name begin a tag. -/
theorem readPiece_tag {top : Frame} {below : List Frame} {c : Char} {cs : List Char}
    (hc : isNameStart c = true) :
    readPiece top below ('<' :: c :: cs) = readInnerTag top below ('<' :: c :: cs) := by
  have hbang := ne_of_isNameStart (d := '!') hc (by decide)
  have hask := ne_of_isNameStart (d := '?') hc (by decide)
  have hslash := ne_of_isNameStart (d := '/') hc (by decide)
  unfold readPiece
  split
  · rename_i h
    cases h
    exact absurd rfl hbang
  · rename_i h
    cases h
    exact absurd rfl hask
  · rename_i h
    cases h
    exact absurd rfl hslash
  · rfl
  · rename_i h
    cases h
  · rename_i hne _
    exact absurd rfl (hne c cs)

variable {holds : String → Bool} {tag : String} {attributes : List (String × String)}

theorem readPiece_renderStart (htag : isWord tag.toList = true) (top : Frame) (below : List Frame)
    (tail : List Char) :
    readPiece top below (renderStart tag attributes ++ tail) =
      readInnerTag top below ('<' :: (tag.toList ++ attributes.flatMap renderAttribute ++ tail)) := by
  obtain ⟨⟨c, cs, hname, hc⟩, -⟩ := isWord_iff.1 htag
  rw [renderStart, hname]
  exact readPiece_tag hc

/-- A start tag opens a frame. -/
theorem readPiece_opening (htag : isWord tag.toList = true) (h : WellNamed attributes)
    (htext : ∀ a ∈ attributes, IsText a.2.toList) (top : Frame) (below : List Frame) (rest : List Char) :
    readPiece top below (renderStart tag attributes ++ '>' :: rest) =
      .ok (.reading ⟨⟨⟨"", tag⟩, respaceValues attributes, top.tag.scope⟩, []⟩ (top :: below), rest) := by
  have hr := readStartTag_render top.tag.scope htag h htext (by decide) (by simp; decide)
    fun as => readAttributes_opening as rest
  rw [readPiece_renderStart htag, readInnerTag, List.drop_one, List.tail_cons, hr]
  rfl

/-- An element without an end tag is a child of the innermost frame. -/
theorem readPiece_whole (htag : isWord tag.toList = true) (h : WellNamed attributes)
    (htext : ∀ a ∈ attributes, IsText a.2.toList) (top : Frame) (below : List Frame) (rest : List Char) :
    readPiece top below (renderStart tag attributes ++ '/' :: '>' :: rest) =
      .ok (.reading { top with children := .node tag (respaceValues attributes) [] :: top.children } below, rest) := by
  have hr := readStartTag_render top.tag.scope htag h htext (by decide) (by simp; decide)
    fun as => readAttributes_whole as rest
  rw [readPiece_renderStart htag, readInnerTag, List.drop_one, List.tail_cons, hr]
  rfl

theorem readPiece_slash (top : Frame) (below : List Frame) (cs : List Char) :
    readPiece top below ('<' :: '/' :: cs) = readEndTag top below ('<' :: '/' :: cs) := by
  unfold readPiece
  split
  · rename_i h
    cases h
  · rename_i h
    cases h
  · rfl
  · rename_i hslash h
    cases h
    exact (hslash rfl).elim
  · rename_i h
    cases h
  · rename_i hslash _ _
    exact (hslash cs rfl).elim

/-- An end tag closes the innermost frame. -/
theorem readPiece_endTag (htag : isWord tag.toList = true) (top : Frame) (htop : top.tag.name = ⟨"", tag⟩)
    (below : List Frame) (rest : List Char) :
    readPiece top below ('<' :: '/' :: (tag.toList ++ '>' :: rest)) = .ok (.close top.close below, rest) := by
  have hq := readQName_append htag ('>' :: rest) (by simp; decide)
  rw [String.ofList_toList] at hq
  have hclose : expect '>' (skipSpaces ('>' :: rest)) = .ok rest := by
    rw [skipSpaces_cons (by decide), expect, if_pos rfl]
  rw [readPiece_slash, readEndTag, List.drop_succ_cons, List.drop_succ_cons, List.drop_zero, hq, ok_bind]
  simp only [hclose, ok_bind, if_pos htop.symm]

/-! ## Trees -/

theorem readContent_renderAll {es : List Element}
    (h : ∀ e ∈ es, ∀ top below rest, readContent top below (e.render holds ++ rest) =
      readContent { top with children := e.respaced :: top.children } below rest)
    (top : Frame) (below : List Frame) (rest : List Char) :
    readContent top below (renderAll holds es ++ rest) =
      readContent { top with children := (respacedAll es).reverse ++ top.children } below rest := by
  induction es generalizing top with
  | nil => rw [renderAll]; rfl
  | cons e es ih =>
    rw [renderAll, List.append_assoc, h e List.mem_cons_self, ih fun e' he' => h e' (List.mem_cons_of_mem _ he')]
    simp [respacedAll]

/-- **The text of a tree adds the tree to the innermost frame.** -/
theorem readContent_render {e : Element} (h : e.WellNamed holds) (htext : e.IsText) :
    ∀ top below rest, readContent top below (e.render holds ++ rest) =
      readContent { top with children := e.respaced :: top.children } below rest := by
  induction h with
  | node hname hattrs hheld hchildren ih =>
    intro top below rest
    rename_i tag attributes children
    obtain ⟨hvalues, hinner⟩ := Element.isText_node.1 htext
    rw [Element.render]
    split
    · have hopen := readPiece_opening hname hattrs hvalues top below
        (renderAll holds children ++ ('<' :: '/' :: (tag.toList ++ '>' :: rest)))
      have hclose := readPiece_endTag hname
        ⟨⟨⟨"", tag⟩, respaceValues attributes, top.tag.scope⟩, (respacedAll children).reverse ++ []⟩ rfl
        (top :: below) rest
      have htext : renderStart tag attributes ++ '>' :: renderAll holds children ++ '<' :: '/' :: tag.toList ++ ['>'] ++
          rest = renderStart tag attributes ++ '>' :: (renderAll holds children ++
            ('<' :: '/' :: (tag.toList ++ '>' :: rest))) := by
        simp
      rw [htext, readContent_of_reading hopen (by simp [renderStart]),
        readContent_renderAll fun e he => ih e he (hinner e he), readContent_of_reading hclose (by simp)]
      simp [Frame.close, Element.respaced]
    · rename_i hb
      have hnone := hheld (by simpa using hb)
      subst hnone
      have hwhole := readPiece_whole hname hattrs hvalues top below rest
      have htext : renderStart tag attributes ++ ['/', '>'] ++ rest =
          renderStart tag attributes ++ '/' :: '>' :: rest := by
        simp
      rw [htext, readContent_of_reading hwhole (by simp [renderStart]), Element.respaced, respacedAll]

/-! ## Documents -/

/-- What begins with other markup than a tag. -/
theorem startsWith_tag {text : String} {c d : Char} {cs ds : List Char} (htext : text.toList = '<' :: d :: ds)
    (hd : isNameStart d = false) (hc : isNameStart c = true) : startsWith text ('<' :: c :: cs) = false := by
  have hne := ne_of_isNameStart hc hd
  rw [startsWith, htext]
  simp [List.isPrefixOf, hne.symm]

/-- Nothing is skipped in front of a tag. -/
theorem skipMisc_tag {c : Char} {cs : List Char} (hc : isNameStart c = true) :
    skipMisc ('<' :: c :: cs) = .ok ('<' :: c :: cs) := by
  have hskip : skipSpaces ('<' :: c :: cs) = '<' :: c :: cs := skipSpaces_cons (by decide)
  rw [skipMisc, dif_neg (by rw [hskip]; exact List.cons_ne_nil _ _), if_neg, if_neg, hskip]
  · rw [hskip, startsWith_tag (d := '?') rfl (by decide) hc]
    exact Bool.false_ne_true
  · rw [hskip, startsWith_tag (d := '!') rfl (by decide) hc]
    exact Bool.false_ne_true

theorem skipMisc_nil : skipMisc [] = .ok [] := by
  have hskip : skipSpaces [] = [] := rfl
  rw [skipMisc, dif_pos hskip]

/-- The root ends where its text ends. -/
theorem readRoot_render {e : Element} (h : e.WellNamed holds) (htext : e.IsText) :
    readRoot (e.render holds) = .ok (.closed e.respaced, []) := by
  obtain ⟨hname, hattrs, hheld, hchildren⟩ := h
  rename_i tag attributes children
  obtain ⟨hvalues, hinner⟩ := Element.isText_node.1 htext
  rw [Element.render]
  split
  · have hstart := readStartTag_render [] hname hattrs hvalues (by decide) (by simp; decide)
      fun as => readAttributes_opening as
      (renderAll holds children ++ ('<' :: '/' :: (tag.toList ++ ['>'])))
    have hclose := readContent_of_done (readPiece_endTag hname
      ⟨⟨⟨"", tag⟩, respaceValues attributes, []⟩, (respacedAll children).reverse ++ []⟩ rfl [] []) (by simp)
    have hcontent : readContent ⟨⟨⟨"", tag⟩, respaceValues attributes, []⟩, []⟩ []
        (renderAll holds children ++ ('<' :: '/' :: (tag.toList ++ ['>']))) =
        .ok (some (Element.node tag attributes children).respaced, []) := by
      rw [readContent_renderAll fun e he => readContent_render (hchildren e he) (hinner e he), hclose]
      simp [Frame.close, Element.respaced]
    have htext : (renderStart tag attributes ++ '>' :: renderAll holds children ++ '<' :: '/' :: tag.toList ++
        ['>']).drop 1 = tag.toList ++ attributes.flatMap renderAttribute ++
          '>' :: (renderAll holds children ++ ('<' :: '/' :: (tag.toList ++ ['>']))) := by
      simp [renderStart]
    rw [readRoot, htext, hstart, ok_bind]
    simp only [hcontent, ok_bind]
  · rename_i hb
    have hnone := hheld (by simpa using hb)
    have hstart := readStartTag_render [] hname hattrs hvalues (by decide) (by simp; decide)
      fun as => readAttributes_whole as []
    have htext : (renderStart tag attributes ++ ['/', '>']).drop 1 =
        tag.toList ++ attributes.flatMap renderAttribute ++ ['/', '>'] := by
      simp [renderStart]
    rw [readRoot, htext, hstart, ok_bind, hnone, Element.respaced, respacedAll]
    rfl

/-- **A tree is read from its text**, its values but for tabs and line ends. -/
theorem readDocument_render {e : Element} (h : e.WellNamed holds) (hvalues : e.IsText) :
    readDocument (e.render holds) = .ok e.respaced := by
  obtain ⟨c, cs, htext, hc⟩ : ∃ c cs, e.render holds = '<' :: c :: cs ∧ isNameStart c = true := by
    obtain ⟨hname, -, -, -⟩ := h
    rename_i tag attributes children
    obtain ⟨⟨c, cs, hcs, hc⟩, -⟩ := isWord_iff.1 hname
    rw [Element.render]
    split
    · exact ⟨c, _, by simp [renderStart, hcs]; rfl, hc⟩
    · exact ⟨c, _, by simp [renderStart, hcs]; rfl, hc⟩
  have hroot := readRoot_render h hvalues
  rw [htext] at hroot ⊢
  have hmark : (('<' :: c :: cs).head? == some '\ufeff') = false := rfl
  have hopen : (('<' :: c :: cs).head? == some '<') = true := rfl
  have hdeclaration : startsWith "<?xml " ('<' :: c :: cs) = false := startsWith_tag (d := '?') rfl (by decide) hc
  have htype : startsWith "<!DOCTYPE" ('<' :: c :: cs) = false := startsWith_tag (d := '!') rfl (by decide) hc
  simp only [readDocument, hmark, Bool.false_eq_true, if_false, hdeclaration, pure_bind, skipMisc_tag hc, ok_bind,
    htype, hopen, if_true, hroot, skipMisc_nil]
  rfl

end StencilKit.Xml
