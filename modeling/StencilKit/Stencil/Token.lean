/-
Tokens: a stencil's text packed into letters, digits and a few marks, so that it can stand inside a
style entry. A token is the base64 of the text's UTF-8; blanks around it are ignored.
-/
import StencilKit.Text.Base64
import StencilKit.Text.Blank
import StencilKit.Text.Utf8

namespace StencilKit.Token

/-- Why a token cannot be unpacked. -/
inductive Fault where
  | base64 (fault : Base64.Fault)
  | utf8 (fault : Utf8.Fault)
  /-- A fault of tokens that are packed in another way. -/
  | other (reason : String)
  deriving DecidableEq, Repr

/-- The wording of a fault. -/
def Fault.message : Fault → String
  | .base64 fault => fault.message
  | .utf8 fault => fault.message
  | .other reason => reason

/-- The token of a text. -/
def pack (text : String) : String := .ofList (Base64.encode (Utf8.encode text.toList))

/-- The text of a token. -/
def unpack (token : String) : Except Fault String := do
  let bytes ← (Base64.decode (Utf8.encode (trimBlanks token.toList))).mapError Fault.base64
  let chars ← (Utf8.decode bytes).mapError Fault.utf8
  return .ofList chars

end StencilKit.Token
