/-
Start tags: a name, attributes, and the namespaces that some of the attributes declare.

Each attribute is judged when it has been read; prefixes are looked up when the tag is complete,
since a tag may use what it declares itself, the attributes before the name. A tag that the text
breaks off after a complete attribute is not an element at all.
-/
import StencilKit.Xml.Reference

namespace StencilKit.Xml

/-- Prefixes with the URIs that they stand for, the nearest declaration first. The default namespace
has no prefix. The prefix `xml` is never among them: it is for attributes alone, and declaring it
changes nothing. -/
abbrev Scope := List (Option String × String)

/-- The name of a reserved namespace: scheme, host and path. -/
def reservedUri (path : String) : String := "http:" ++ "//www.w3.org/" ++ path

/-- The URI of the prefix `xml`. -/
def xmlUri : String := reservedUri "XML/1998/namespace"

/-- The URI of the prefix `xmlns`. -/
def xmlnsUri : String := reservedUri "2000/xmlns/"

/-- An attribute, with the text from its beginning on. -/
structure Attribute where
  name : QName
  value : String
  source : List Char
  deriving DecidableEq, Repr

/-- What has been read of the attributes of a start tag. -/
structure Attributes where
  declared : Scope
  plain : List Attribute
  deriving DecidableEq, Repr

namespace Attributes

/-- Takes one more attribute, unless it declares what must not be declared. -/
def add (as : Attributes) (a : Attribute) : Except Fault Attributes :=
  let wrong (cause : Cause) : Except Fault Attributes := .error (fault cause a.source)
  if a.name.space = "xmlns" then
    if a.value = xmlnsUri then wrong .reservedUri
    else if a.name.name = "xml" ∧ a.value ≠ xmlUri then wrong .wrongXmlUri
    else if a.name.name ≠ "xml" ∧ a.value = xmlUri then wrong .xmlUriElsewhere
    else if (as.declared.lookup (some a.name.name)).isSome then wrong (.repeatedPrefix a.name.name)
    else if a.name.name = "xml" then .ok as
    else .ok { as with declared := as.declared ++ [(some a.name.name, a.value)] }
  else if a.name.name = "xmlns" then
    if a.value = xmlnsUri then wrong .reservedUri
    else if a.value = xmlUri then wrong .xmlUriElsewhere
    else .ok { as with declared := as.declared ++ [(none, a.value)] }
  else .ok { as with plain := as.plain ++ [a] }

end Attributes

/-- The URI of an attribute, which has none without a prefix. -/
def Attribute.uri? (scope : Scope) (a : Attribute) : Except Fault (Option String) :=
  if a.name.space = "xml" then .ok (some xmlUri)
  else if a.name.space.isEmpty then .ok none
  else match scope.lookup (some a.name.space) with
    | some uri => .ok (some uri)
    | none => .error (fault (.unknownPrefix a.name.space) a.source)

/-- No prefix is unknown, and no two attributes have the same URI and name; `seen` are the URIs and
names before. -/
def checkAttributes (scope : Scope) : List (Option String × String) → List Attribute → Except Fault Unit
  | _, [] => .ok ()
  | seen, a :: as => do
    let uri ← a.uri? scope
    if seen.contains (uri, a.name.name) then .error (fault (.repeatedAttribute a.name.name) a.source)
    checkAttributes scope ((uri, a.name.name) :: seen) as

/-- A complete start tag: the name, the attributes without prefix, and the namespaces in force
inside the element. -/
structure StartTag where
  name : QName
  attributes : List (String × String)
  scope : Scope
  deriving DecidableEq, Repr

/-- The start tag with the given name; `source` is the text from the name on. -/
def StartTag.of (outer : Scope) (name : QName) (source : List Char) (as : Attributes) :
    Except Fault StartTag := do
  let scope := as.declared ++ outer
  checkAttributes scope [] as.plain
  if !name.space.isEmpty && (scope.lookup (some name.space)).isNone then
    .error (fault (.unknownPrefix name.space) source)
  let unprefixed := as.plain.filter (·.name.space.isEmpty)
  return ⟨name, unprefixed.map fun a => (a.name.name, a.value), scope⟩

/-- One attribute. -/
def readAttribute (cs : List Char) : Except Fault (Attribute × List Char) := do
  let (pair, rest) ← readPair cs
  let value ← expand (pair.quote :: rest) pair.value
  return (⟨pair.name, .ofList value, cs⟩, rest)

theorem readAttribute_length_lt {cs a rest} (h : readAttribute cs = .ok (a, rest)) :
    rest.length < cs.length := by
  simp only [readAttribute, bind_eq_ok, Prod.exists] at h
  obtain ⟨_, _, h₁, _, _, h₂⟩ := h
  simp only [pure, Except.pure, Except.ok.injEq, Prod.mk.injEq] at h₂
  rw [← h₂.2]; exact readPair_length_lt h₁

/-- How a start tag ends: it opens an element, it is a whole element, or the text ends. -/
inductive TagEnd where
  | opening
  | whole
  | absent
  deriving DecidableEq, Repr

/-- The attributes up to the end of a tag. An attribute needs white space before it. -/
def readAttributes (as : Attributes) (cs : List Char) :
    Except Fault (Attributes × TagEnd × List Char) :=
  if cs.isEmpty then .ok (as, .absent, [])
  else match skipSpaces cs with
    | [] => .error Cause.unexpectedEnd.fault
    | '/' :: rest => (expect '>' rest).map fun rest => (as, .whole, rest)
    | '>' :: rest => .ok (as, .opening, rest)
    | c :: _ =>
      if cs.head?.any isSpace then
        match h : readAttribute (skipSpaces cs) with
        | .error e => .error e
        | .ok (a, rest) =>
          have _shorter := readAttribute_length_lt h
          match as.add a with
          | .error e => .error e
          | .ok as => readAttributes as rest
      else .error (fault (.wantedSome "a whitespace" (leadByte c)) cs)
termination_by cs.length
decreasing_by
  have := skipSpaces_length_le cs
  omega

/-- A start tag, after its opening bracket, with the way in which it ends. -/
def readStartTag (outer : Scope) (cs : List Char) :
    Except Fault (Option (StartTag × TagEnd) × List Char) := do
  let (name, rest) ← readQName cs
  if name.space = "xmlns" then .error (fault .reservedElementPrefix cs)
  let (as, tagEnd, rest) ← readAttributes ⟨[], []⟩ rest
  if tagEnd = .absent then .ok (none, rest)
  else (StartTag.of outer name cs as).map fun tag => (some (tag, tagEnd), rest)

theorem readAttributes_length_le {as cs r} (h : readAttributes as cs = .ok r) :
    r.2.2.length ≤ cs.length := by
  fun_induction readAttributes as cs with
  | case1 => simp only [Except.ok.injEq] at h; simp [← h]
  | case2 => simp at h
  | case3 as cs _ rest hs =>
    have hle := skipSpaces_length_le cs
    cases he : expect '>' rest with
    | error e => simp [he, Except.map] at h
    | ok r' =>
      have := expect_length_lt he
      simp only [he, Except.map, Except.ok.injEq] at h
      simp only [hs, List.length_cons] at hle
      simp only [← h]; omega
  | case4 as cs _ rest hs =>
    have hle := skipSpaces_length_le cs
    simp only [Except.ok.injEq] at h
    simp only [hs, List.length_cons] at hle
    simp only [← h]; omega
  | case5 => simp at h
  | case6 => simp at h
  | case7 as cs _ _ _ _ _ _ _ a rest hr shorter as' _ ih =>
    have := ih h
    have := skipSpaces_length_le cs
    omega
  | case8 => simp at h

theorem readStartTag_length_le {outer cs t rest} (h : readStartTag outer cs = .ok (t, rest)) :
    rest.length ≤ cs.length := by
  simp only [readStartTag, bind_eq_ok, Prod.exists] at h
  obtain ⟨name, r₁, h₁, h⟩ := h
  have := readQName_length_le h₁
  split at h
  · simp [bind, Except.bind] at h
  · simp only [bind_eq_ok, Prod.exists] at h
    obtain ⟨as, tagEnd, r₂, h₂, h⟩ := h
    have := readAttributes_length_le h₂
    split at h
    · simp only [Except.ok.injEq, Prod.mk.injEq] at h
      rw [← h.2]; simp only at *; omega
    · cases ht : StartTag.of outer name cs as with
      | error e => simp [ht, Except.map] at h
      | ok tag =>
        simp only [ht, Except.map, Except.ok.injEq, Prod.mk.injEq] at h
        rw [← h.2]; simp only at *; omega

end StencilKit.Xml
