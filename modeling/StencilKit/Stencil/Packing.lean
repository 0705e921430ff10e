/-
Packings: how a stencil gets into a style, and its text out of one again.

The element tree of a stencil is written as text, and the text is packed into a token. A packing need not be able
to write every element tree; the usual one, in base64, is.
-/
import StencilKit.Failure
import StencilKit.Stencil.Markup

namespace StencilKit

/-- How element trees are written, and how texts are packed into tokens. -/
structure Packing where
  /-- The text of an element tree, or the reason why it has none. -/
  write : Xml.Element → Except String String
  pack : String → String
  unpack : String → Except Token.Fault String

/-- The usual packing: every element tree has its text, and tokens are in base64. -/
def Packing.base64 : Packing where
  write e := .ok (.ofList (e.render Markup.holds))
  pack := Token.pack
  unpack := Token.unpack

end StencilKit
