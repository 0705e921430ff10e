/-
The character classes of XML 1.0: what may stand in a document, what separates markup, and what
names are made of (fifth edition).
-/
namespace StencilKit.Xml

/-- The characters that a document may hold. Of the controls these are tab, line feed and return. -/
def isChar (c : Char) : Bool :=
  let n := c.toNat
  if n < 0x20 then n == 9 || n == 10 || n == 13 else n != 0xfffe && n != 0xffff

/-- The white space of markup. -/
def isSpace (c : Char) : Bool := c == ' ' || c == '\t' || c == '\n' || c == '\r'

/-- The characters that a name may begin with. -/
def isNameStart (c : Char) : Bool :=
  let n := c.toNat
  c.isAlpha || c == ':' || c == '_' || (0xc0 ≤ n && n ≤ 0xd6) || (0xd8 ≤ n && n ≤ 0xf6) ||
    (0xf8 ≤ n && n ≤ 0x2ff) || (0x370 ≤ n && n ≤ 0x37d) || (0x37f ≤ n && n ≤ 0x1fff) ||
    (0x200c ≤ n && n ≤ 0x200d) || (0x2070 ≤ n && n ≤ 0x218f) || (0x2c00 ≤ n && n ≤ 0x2fef) ||
    (0x3001 ≤ n && n ≤ 0xd7ff) || (0xf900 ≤ n && n ≤ 0xfdcf) || (0xfdf0 ≤ n && n ≤ 0xfffd) ||
    (0x10000 ≤ n && n ≤ 0xeffff)

/-- The characters that a name may go on with. -/
def isNameChar (c : Char) : Bool :=
  let n := c.toNat
  isNameStart c || c.isDigit || c == '-' || c == '.' || n == 0xb7 || (0x300 ≤ n && n ≤ 0x36f) ||
    (0x203f ≤ n && n ≤ 0x2040)

end StencilKit.Xml
