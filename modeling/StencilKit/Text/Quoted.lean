/-
A text quoted for a message: between double quotes, with a backslash before what would end the
quotation or cannot be shown.
-/
import StencilKit.Text.Printable

namespace StencilKit.Quoted

/-- A code point in lower-case hexadecimal, in braces. -/
def codePoint (c : Char) : List Char := ['\\', 'u', '\x7b'] ++ Nat.toDigits 16 c.toNat ++ ['\x7d']

/-- One character of a quotation. -/
def escape (c : Char) : List Char :=
  match c with
  | '\x00' => ['\\', '0']
  | '\t' => ['\\', 't']
  | '\r' => ['\\', 'r']
  | '\n' => ['\\', 'n']
  | '\\' => ['\\', '\\']
  | '\x22' => ['\\', '\x22']
  | c => if isPrintable c then [c] else codePoint c

/-- The quotation of a text. -/
def quote (s : String) : String := .ofList ('\x22' :: s.toList.flatMap escape ++ ['\x22'])

/-- A single character between single quotes, which escapes the single quote and not the double. -/
def quoteChar (c : Char) : String :=
  let inner := if c = '\x22' then [c] else if c = '\x27' then ['\\', c] else escape c
  .ofList ('\x27' :: inner ++ ['\x27'])

end StencilKit.Quoted
