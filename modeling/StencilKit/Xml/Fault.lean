/-
What can be wrong with the text of an XML document, and where.
-/
import StencilKit.Text.Place
import StencilKit.Text.Quoted
import StencilKit.Text.Utf8

namespace StencilKit.Xml

/-- Why a text is not a document. -/
inductive Cause where
  | unexpectedEnd
  | unknownToken
  | documentType
  | noRoot
  | rootNotClosed
  | lateDeclaration
  | notAName
  | notAChar (c : Char)
  | wantedChar (wanted found : Char)
  | wantedSome (wanted : String) (found : Char)
  | wantedText (wanted : String)
  | wantedEndTag (wanted found : String)
  | dashesInComment
  | bracketsInText
  | badReference
  | unknownEntity (name : String)
  | unknownPrefix (name : String)
  | repeatedAttribute (name : String)
  | repeatedPrefix (name : String)
  | reservedElementPrefix
  | reservedUri
  | xmlUriElsewhere
  | wrongXmlUri
  deriving DecidableEq, Repr

/-- A cause, and the characters that were left where it was found. Causes that concern the document
as a whole have no such place. -/
structure Fault where
  cause : Cause
  rest? : Option (List Char)
  deriving DecidableEq, Repr

/-- A fault found before the given rest of the text. -/
def fault (cause : Cause) (rest : List Char) : Fault := ⟨cause, some rest⟩

/-- A fault of the document as a whole. -/
def Cause.fault (cause : Cause) : Fault := ⟨cause, none⟩

/-- A character is named in messages by its first byte, read as a code point. -/
def leadByte (c : Char) : Char := ((Utf8.encodeChar c).head?.map fun b => .ofNat b.toNat).getD c

/-- The wording of a cause, for a fault at the given place. -/
def Cause.message (place : String) : Cause → String
  | .unexpectedEnd => "unexpected end of stream"
  | .unknownToken => s!"unknown token at {place}"
  | .documentType => "XML with DTD detected"
  | .noRoot => "the document does not have a root node"
  | .rootNotClosed => "the root node was opened but never closed"
  | .lateDeclaration => s!"unexpected XML declaration at {place}"
  | .notAName => s!"invalid name token at {place}"
  | .notAChar c =>
    let shown := Quoted.quoteChar c
    s!"a non-XML character {shown} found at {place}"
  | .wantedChar wanted found => s!"expected '{wanted}' not '{found}' at {place}"
  | .wantedSome wanted found => s!"expected {wanted} not '{found}' at {place}"
  | .wantedText wanted => s!"expected '{wanted}' at {place}"
  | .wantedEndTag wanted found => s!"expected '{wanted}' tag, not '{found}' at {place}"
  | .dashesInComment => s!"comment at {place} contains '--'"
  | .bracketsInText => s!"']]>' at {place} is not allowed inside a character data"
  | .badReference => s!"malformed entity reference at {place}"
  | .unknownEntity name => s!"unknown entity reference '{name}' at {place}"
  | .unknownPrefix name => s!"an unknown namespace prefix '{name}' at {place}"
  | .repeatedAttribute name => s!"attribute '{name}' at {place} is already defined"
  | .repeatedPrefix name => s!"namespace '{name}' at {place} is already defined"
  | .reservedElementPrefix => s!"the 'xmlns' prefix is used at {place}, but it must not be"
  | .reservedUri => s!"the 'xmlns' URI is used at {place}, but it must not be declared"
  | .xmlUriElsewhere => s!"the 'xml' namespace URI is used for not 'xml' prefix at {place}"
  | .wrongXmlUri => s!"'xml' namespace prefix mapped to wrong URI at {place}"

/-- Where in the text a fault was found; the first place when it concerns the whole. -/
def Fault.place (text : List Char) (f : Fault) : Place :=
  match f.rest? with
  | none => .first
  | some rest => .after (text.take (text.length - rest.length))

/-- The wording of a fault in a text. -/
def Fault.message (text : List Char) (f : Fault) : String := f.cause.message (f.place text).text

end StencilKit.Xml
