/-
Documents: one element, with comments, instructions and white space around it, and its content.

Content is read piece by piece. The elements that are open wait as frames, the innermost on top; an
end tag closes the top one and hands its element to the frame below. Where the text simply ends, the
open elements stay open, and only then does the document as a whole turn out to lack a root or to
have left it open.
-/
import StencilKit.Xml.Element
import StencilKit.Xml.StartTag

namespace StencilKit.Xml

/-- An open element, with the children read so far, the last first. -/
structure Frame where
  tag : StartTag
  children : List Element

/-- The element of a frame whose end tag has been read. -/
def Frame.close (f : Frame) : Element := .node f.tag.name.name f.tag.attributes f.children.reverse

/-- An element without content. -/
def StartTag.whole (tag : StartTag) : Element := .node tag.name.name tag.attributes []

/-- What is known of the root: still open with its frames, or closed. -/
inductive Progress where
  | reading (top : Frame) (below : List Frame)
  | done (root : Element)

/-- The progress when an element ends inside the given frames. -/
def Progress.close (e : Element) : List Frame → Progress
  | [] => .done e
  | f :: below => .reading { f with children := e :: f.children } below

/-- An end tag, which has to name the innermost open element. -/
def readEndTag (top : Frame) (below : List Frame) (cs : List Char) :
    Except Fault (Progress × List Char) := do
  let (name, rest) ← readQName (cs.drop 2)
  let rest ← expect '>' (skipSpaces rest)
  if name = top.tag.name then .ok (.close top.close below, rest)
  else .error (fault (.wantedEndTag top.tag.name.text name.text) cs)

/-- A start tag inside an element, with its bracket. -/
def readInnerTag (top : Frame) (below : List Frame) (cs : List Char) :
    Except Fault (Progress × List Char) := do
  let (tag, rest) ← readStartTag top.tag.scope (cs.drop 1)
  match tag with
  | none => .ok (.reading top below, rest)
  | some (tag, .whole) => .ok (.close tag.whole (top :: below), rest)
  | some (tag, _) => .ok (.reading ⟨tag, []⟩ (top :: below), rest)

/-- What is left after character data. -/
def readText (cs : List Char) : Except Fault (List Char) := do
  let (text, rest) ← readUntil (·.head? == some '<') cs
  if occursIn "]]>" text then .error (fault .bracketsInText rest)
  let _ ← expand rest text
  return rest

/-- The next piece of an element's content. -/
def readPiece (top : Frame) (below : List Frame) (cs : List Char) :
    Except Fault (Progress × List Char) :=
  let skipped (read : Except Fault (List Char)) := read.map fun rest => (Progress.reading top below, rest)
  match cs with
  | '<' :: '!' :: _ =>
    if startsWith "<!--" cs then skipped (readComment cs)
    else if startsWith "<![CDATA[" cs then skipped (readSection cs)
    else .error (fault .unknownToken cs)
  | '<' :: '?' :: _ => skipped (readInstruction cs)
  | '<' :: '/' :: _ => readEndTag top below cs
  | '<' :: _ :: _ => readInnerTag top below cs
  | ['<'] => .error (fault .unknownToken cs)
  | _ => skipped (readText cs)

theorem readText_length_lt {cs rest} (hcs : cs.head? ≠ some '<') (hne : cs ≠ [])
    (h : readText cs = .ok rest) : rest.length < cs.length := by
  obtain ⟨c, cs, rfl⟩ := List.exists_cons_of_ne_nil hne
  simp only [readText, bind_eq_ok, Prod.exists] at h
  obtain ⟨text, r, h₁, h⟩ := h
  have hlen := readUntil_length h₁
  have hpos : 0 < text.length := by
    simp only [readUntil] at h₁
    split at h₁
    · simp at h₁
    split at h₁
    · rename_i hs; simp at hs hcs; exact absurd hs hcs
    · cases hr : readUntil (·.head? == some '<') cs with
      | error e => simp [hr, Except.map] at h₁
      | ok p =>
        simp only [hr, Except.map, Except.ok.injEq, Prod.mk.injEq] at h₁
        rw [← h₁.1]; simp
  split at h
  · simp [bind, Except.bind] at h
  · simp only [bind_eq_ok, pure, Except.pure, Except.ok.injEq] at h
    obtain ⟨_, _, h⟩ := h
    rw [← h]; omega

theorem readEndTag_length_lt {top below cs p rest} (hcs : cs ≠ [])
    (h : readEndTag top below cs = .ok (p, rest)) : rest.length < cs.length := by
  simp only [readEndTag, bind_eq_ok, Prod.exists] at h
  obtain ⟨_, r₁, h₁, r₂, h₂, h⟩ := h
  have := List.length_pos_iff.2 hcs
  have := readQName_length_le h₁
  have := skipSpaces_length_le r₁
  have := expect_length_lt h₂
  simp only [List.length_drop] at *
  split at h
  · simp only [Except.ok.injEq, Prod.mk.injEq] at h; rw [← h.2]; omega
  · simp at h

theorem readInnerTag_length_lt {top below cs p rest} (hcs : cs ≠ [])
    (h : readInnerTag top below cs = .ok (p, rest)) : rest.length < cs.length := by
  simp only [readInnerTag, bind_eq_ok, Prod.exists] at h
  obtain ⟨_, r₁, h₁, h⟩ := h
  have := List.length_pos_iff.2 hcs
  have := readStartTag_length_le h₁
  simp only [List.length_drop] at this
  split at h <;> simp only [Except.ok.injEq, Prod.mk.injEq] at h <;> rw [← h.2] <;> omega

theorem map_eq_ok {ε α β : Type} {x : Except ε α} {f : α → β} {b : β} (h : x.map f = .ok b) :
    ∃ a, x = .ok a ∧ f a = b := by
  cases x with
  | error e => simp [Except.map] at h
  | ok a => simp only [Except.map, Except.ok.injEq] at h; exact ⟨a, rfl, h⟩

theorem readPiece_length_lt {top below cs p rest} (hcs : cs ≠ [])
    (h : readPiece top below cs = .ok (p, rest)) : rest.length < cs.length := by
  unfold readPiece at h
  split at h
  · split at h
    · obtain ⟨_, h₁, h₂⟩ := map_eq_ok h
      simp only [Prod.mk.injEq] at h₂
      rw [← h₂.2]; exact readComment_length_lt (by simp) h₁
    · split at h
      · obtain ⟨_, h₁, h₂⟩ := map_eq_ok h
        simp only [Prod.mk.injEq] at h₂
        rw [← h₂.2]; exact readSection_length_lt (by simp) h₁
      · simp at h
  · obtain ⟨_, h₁, h₂⟩ := map_eq_ok h
    simp only [Prod.mk.injEq] at h₂
    rw [← h₂.2]; exact readInstruction_length_lt (by simp) h₁
  · exact readEndTag_length_lt (by simp) h
  · exact readInnerTag_length_lt (by simp) h
  · simp at h
  · rename_i hlt hsingle
    obtain ⟨_, h₁, h₂⟩ := map_eq_ok h
    simp only [Prod.mk.injEq] at h₂
    rw [← h₂.2]
    refine readText_length_lt ?_ hcs h₁
    match cs with
    | [] => simp
    | [c] => intro hc; simp at hc; exact hsingle (by rw [hc])
    | c :: d :: cs => intro hc; simp at hc; exact hlt d cs (by rw [hc])

/-- The content of the root up to its end tag; no element when the text ends before. -/
def readContent (top : Frame) (below : List Frame) (cs : List Char) :
    Except Fault (Option Element × List Char) :=
  if hcs : cs = [] then .ok (none, [])
  else match h : readPiece top below cs with
    | .error e => .error e
    | .ok (.done root, rest) => .ok (some root, rest)
    | .ok (.reading top below, rest) =>
      have _shorter := readPiece_length_lt hcs h
      readContent top below rest
termination_by cs.length

/-- How the reading of the root ended. -/
inductive Root where
  | absent
  | unclosed
  | closed (e : Element)

/-- The root element, with its opening bracket. -/
def readRoot (cs : List Char) : Except Fault (Root × List Char) := do
  let (tag, rest) ← readStartTag [] (cs.drop 1)
  match tag with
  | none => .ok (.absent, rest)
  | some (tag, .whole) => .ok (.closed tag.whole, rest)
  | some (tag, _) =>
    let (root, rest) ← readContent ⟨tag, []⟩ [] rest
    match root with
    | none => .ok (.unclosed, rest)
    | some e => .ok (.closed e, rest)

/-- What is left after white space, comments and instructions. -/
def skipMisc (cs : List Char) : Except Fault (List Char) :=
  if hne : skipSpaces cs = [] then .ok []
  else if startsWith "<!--" (skipSpaces cs) then
    match h : readComment (skipSpaces cs) with
    | .error e => .error e
    | .ok rest =>
      have _shorter := readComment_length_lt hne h
      skipMisc rest
  else if startsWith "<?" (skipSpaces cs) then
    match h : readInstruction (skipSpaces cs) with
    | .error e => .error e
    | .ok rest =>
      have _shorter := readInstruction_length_lt hne h
      skipMisc rest
  else .ok (skipSpaces cs)
termination_by cs.length
decreasing_by
  all_goals
    have := skipSpaces_length_le cs
    omega

/-- What is left after white space, which the end of the declaration or of the text may replace. -/
def endPart (cs : List Char) : Except Fault (List Char) :=
  match cs with
  | [] => .ok []
  | c :: _ =>
    if isSpace c then .ok (skipSpaces cs)
    else if startsWith "?>" cs then .ok cs
    else .error (fault (.wantedSome "a whitespace" (leadByte c)) cs)

/-- What is left after the declaration with which a document may begin: a version, then possibly an
encoding, then possibly whether it stands alone. Their values are not looked at. -/
def readDeclaration (cs : List Char) : Except Fault (List Char) := do
  let cs := skipSpaces (cs.drop 5)
  if !startsWith "version" cs then .error (fault (.wantedText "version") cs)
  let (_, cs) ← readPair cs
  let cs ← endPart cs
  let cs ← if startsWith "encoding" cs then do
      let (_, cs) ← readPair cs
      endPart cs
    else pure cs
  let cs ← if startsWith "standalone" cs then do
      let (_, cs) ← readPair cs
      pure cs
    else pure cs
  expectText "?>" (skipSpaces cs)

/-- The root element of a document. -/
def readDocument (cs : List Char) : Except Fault Element := do
  let cs := if cs.head? == some '\ufeff' then cs.drop 1 else cs
  let cs ← if startsWith "<?xml " cs then readDeclaration cs else pure cs
  let cs ← skipMisc cs
  if startsWith "<!DOCTYPE" cs then .error Cause.documentType.fault
  let (root, rest) ← if cs.head? == some '<' then readRoot cs else pure (.absent, cs)
  let rest ← skipMisc rest
  if !rest.isEmpty then .error (fault .unknownToken rest)
  match root with
  | .absent => .error Cause.noRoot.fault
  | .unclosed => .error Cause.rootNotClosed.fault
  | .closed e => .ok e

end StencilKit.Xml
