/-
Reading what markup is made of: single characters, fixed texts, names, runs of text.

A reader takes the characters that are left and gives what it read with what is then left. None
ever gives back more than it got, and one that reads a thing gives back less; the readers that
repeat others end by that.
-/
import StencilKit.Xml.Fault
import StencilKit.Xml.Name

namespace StencilKit.Xml

/-- What is left after white space. -/
def skipSpaces (cs : List Char) : List Char := cs.dropWhile isSpace

/-- What is left after the given character. -/
def expect (wanted : Char) : List Char → Except Fault (List Char)
  | [] => .error Cause.unexpectedEnd.fault
  | c :: cs => if c = wanted then .ok cs else .error (fault (.wantedChar wanted (leadByte c)) (c :: cs))

/-- What is left after the given text. -/
def expectText (wanted : String) (cs : List Char) : Except Fault (List Char) :=
  if wanted.toList.isPrefixOf cs then .ok (cs.drop wanted.toList.length)
  else .error (fault (.wantedText wanted) cs)

/-- A quotation mark of either kind. -/
def readQuote : List Char → Except Fault (Char × List Char)
  | [] => .error Cause.unexpectedEnd.fault
  | c :: cs =>
    if c = '\x22' ∨ c = '\x27' then .ok (c, cs)
    else .error (fault (.wantedSome "a quote" (leadByte c)) (c :: cs))

/-- The text up to the first place at which `stop` holds of what is left. -/
def readUntil (stop : List Char → Bool) : List Char → Except Fault (List Char × List Char)
  | [] => .ok ([], [])
  | c :: cs =>
    if !isChar c then .error (fault (.notAChar c) (c :: cs))
    else if stop (c :: cs) then .ok ([], c :: cs)
    else (readUntil stop cs).map fun (text, rest) => (c :: text, rest)

/-- Whether what is left begins with the given text. -/
def startsWith (text : String) (cs : List Char) : Bool := text.toList.isPrefixOf cs

/-- Whether the given text occurs anywhere. -/
def occursIn (text : String) : List Char → Bool
  | [] => startsWith text []
  | c :: cs => startsWith text (c :: cs) || occursIn text cs

/-- A name, with or without colons. -/
def readName (cs : List Char) : Except Fault (List Char × List Char) :=
  match cs with
  | [] => .error (fault .notAName cs)
  | c :: _ =>
    if isNameStart c then .ok (cs.takeWhile isNameChar, cs.dropWhile isNameChar)
    else .error (fault .notAName cs)

/-- A name in two parts, of which the first may be empty. -/
structure QName where
  space : String
  name : String
  deriving DecidableEq, Repr

/-- The text of a name. -/
def QName.text (q : QName) : String := if q.space.isEmpty then q.name else s!"{q.space}:{q.name}"

/-- Whether a text without colons is a name. -/
def isPlainName (cs : List Char) : Bool :=
  match cs with
  | [] => false
  | c :: _ => isNameStart c && !cs.contains ':'

/-- The two parts of a word, at its colon if it has one. -/
def splitColon (word : List Char) : List Char × List Char :=
  match word.dropWhile (· != ':') with
  | _ :: name => (word.takeWhile (· != ':'), name)
  | [] => ([], word)

/-- A name in two parts; the part before the colon may be missing or empty. -/
def readQName (cs : List Char) : Except Fault (QName × List Char) :=
  let (space, name) := splitColon (cs.takeWhile isNameChar)
  if (space.isEmpty || isPlainName space) && isPlainName name then
    .ok (⟨.ofList space, .ofList name⟩, cs.dropWhile isNameChar)
  else .error (fault .notAName cs)

/-- A name with a value, as written between a pair of quotation marks. -/
structure Pair where
  name : QName
  value : List Char
  quote : Char
  deriving DecidableEq, Repr

/-- A name in two parts, an equals sign and a quoted value. -/
def readPair (cs : List Char) : Except Fault (Pair × List Char) := do
  let (name, rest) ← readQName cs
  let rest ← expect '=' (skipSpaces rest)
  let (quote, rest) ← readQuote (skipSpaces rest)
  let (value, rest) ← readUntil (fun cs => cs.head? == some quote || cs.head? == some '<') rest
  let rest ← expect quote rest
  return (⟨name, value, quote⟩, rest)

/-- What is left after a comment. -/
def readComment (cs : List Char) : Except Fault (List Char) := do
  let (text, rest) ← readUntil (startsWith "-->") (cs.drop 4)
  let rest ← expectText "-->" rest
  if text.getLast? == some '-' || occursIn "--" text then .error (fault .dashesInComment cs)
  return rest

/-- What is left after a processing instruction. -/
def readInstruction (cs : List Char) : Except Fault (List Char) := do
  if startsWith "<?xml " cs then .error (fault .lateDeclaration cs)
  let (_, rest) ← readName (cs.drop 2)
  let (_, rest) ← readUntil (startsWith "?>") (skipSpaces rest)
  expectText "?>" rest

/-- What is left after a section of literal text. -/
def readSection (cs : List Char) : Except Fault (List Char) := do
  let (_, rest) ← readUntil (startsWith "]]>") (cs.drop 9)
  expectText "]]>" rest

/-! ## What readers leave -/

theorem dropWhile_length_le {p : Char → Bool} (cs : List Char) : (cs.dropWhile p).length ≤ cs.length :=
  (List.dropWhile_sublist p).length_le

theorem skipSpaces_length_le (cs : List Char) : (skipSpaces cs).length ≤ cs.length :=
  dropWhile_length_le cs

theorem expect_length_lt {c cs rest} (h : expect c cs = .ok rest) : rest.length < cs.length := by
  cases cs with
  | nil => simp [expect] at h
  | cons d ds =>
    simp only [expect] at h
    split at h
    · simp only [Except.ok.injEq] at h; subst h; simp
    · simp at h

theorem expectText_length_le {t cs rest} (h : expectText t cs = .ok rest) : rest.length ≤ cs.length := by
  simp only [expectText] at h
  split at h
  · simp only [Except.ok.injEq] at h; subst h; simp
  · simp at h

theorem readQuote_length_lt {cs q rest} (h : readQuote cs = .ok (q, rest)) : rest.length < cs.length := by
  cases cs with
  | nil => simp [readQuote] at h
  | cons d ds =>
    simp only [readQuote] at h
    split at h
    · simp only [Except.ok.injEq, Prod.mk.injEq] at h; simp [h.2]
    · simp at h

theorem readUntil_length {stop cs text rest} (h : readUntil stop cs = .ok (text, rest)) :
    text.length + rest.length = cs.length := by
  induction cs generalizing text rest with
  | nil => simp only [readUntil, Except.ok.injEq, Prod.mk.injEq] at h; simp [← h.1, ← h.2]
  | cons c cs ih =>
    simp only [readUntil] at h
    split at h
    · simp at h
    split at h
    · simp only [Except.ok.injEq, Prod.mk.injEq] at h; simp [← h.1, ← h.2]
    · cases hr : readUntil stop cs with
      | error e => simp [hr, Except.map] at h
      | ok p =>
        simp only [hr, Except.map, Except.ok.injEq, Prod.mk.injEq] at h
        have : p.1.length + p.2.length = cs.length := ih (by rw [hr])
        simp only [← h.1, ← h.2, List.length_cons]
        omega

theorem readName_length_le {cs name rest} (h : readName cs = .ok (name, rest)) :
    rest.length ≤ cs.length := by
  cases cs with
  | nil => simp [readName] at h
  | cons c cs =>
    simp only [readName] at h
    split at h
    · simp only [Except.ok.injEq, Prod.mk.injEq] at h
      rw [← h.2]; exact dropWhile_length_le _
    · simp at h

theorem readQName_length_le {cs q rest} (h : readQName cs = .ok (q, rest)) : rest.length ≤ cs.length := by
  simp only [readQName] at h
  split at h
  · simp only [Except.ok.injEq, Prod.mk.injEq] at h
    rw [← h.2]; exact dropWhile_length_le _
  · simp at h

theorem bind_eq_ok {ε α β : Type} {x : Except ε α} {f : α → Except ε β} {b : β} :
    (x >>= f) = .ok b ↔ ∃ a, x = .ok a ∧ f a = .ok b := by
  cases x with
  | error e => simp [bind, Except.bind]
  | ok a => simp [bind, Except.bind]

theorem readPair_length_lt {cs p rest} (h : readPair cs = .ok (p, rest)) : rest.length < cs.length := by
  simp only [readPair, bind_eq_ok, Prod.exists] at h
  obtain ⟨_, r₁, h₁, r₂, h₂, _, r₃, h₃, _, r₄, h₄, r₅, h₅, h₆⟩ := h
  have := readQName_length_le h₁
  have := skipSpaces_length_le r₁
  have := expect_length_lt h₂
  have := skipSpaces_length_le r₂
  have := readQuote_length_lt h₃
  have := readUntil_length h₄
  have := expect_length_lt h₅
  simp only [pure, Except.pure, Except.ok.injEq, Prod.mk.injEq] at h₆
  rw [← h₆.2]; omega

theorem readComment_length_lt {cs rest} (hcs : cs ≠ []) (h : readComment cs = .ok rest) :
    rest.length < cs.length := by
  simp only [readComment, bind_eq_ok, Prod.exists] at h
  obtain ⟨text, r₁, h₁, r₂, h₂, h₃⟩ := h
  have := List.length_pos_iff.2 hcs
  have := readUntil_length h₁
  have := expectText_length_le h₂
  simp only [List.length_drop] at *
  split at h₃
  · simp [bind, Except.bind] at h₃
  · simp only [pure, Except.pure, Except.ok.injEq] at h₃; rw [← h₃]; omega

theorem readSection_length_lt {cs rest} (hcs : cs ≠ []) (h : readSection cs = .ok rest) :
    rest.length < cs.length := by
  simp only [readSection, bind_eq_ok, Prod.exists] at h
  obtain ⟨text, r₁, h₁, h₂⟩ := h
  have := List.length_pos_iff.2 hcs
  have := readUntil_length h₁
  have := expectText_length_le h₂
  simp only [List.length_drop] at *
  omega

theorem readInstruction_length_lt {cs rest} (hcs : cs ≠ []) (h : readInstruction cs = .ok rest) :
    rest.length < cs.length := by
  simp only [readInstruction] at h
  split at h
  · simp [bind, Except.bind] at h
  · simp only [bind_eq_ok, Prod.exists] at h
    obtain ⟨_, r₁, h₁, _, r₂, h₂, h₃⟩ := h
    have := List.length_pos_iff.2 hcs
    have := readName_length_le h₁
    have := skipSpaces_length_le r₁
    have := readUntil_length h₂
    have := expectText_length_le h₃
    simp only [List.length_drop] at *
    omega

end StencilKit.Xml
