/-
Places in a text: by row and column for a reader, by byte for a program. Rows end with a line feed,
columns count characters, and both start at one.
-/
namespace StencilKit

/-- A row and a column. -/
structure Place where
  row : Nat
  col : Nat
  deriving DecidableEq, Repr

namespace Place

/-- The place of the first character. -/
def first : Place := ⟨1, 1⟩

/-- The place after one more character. -/
def step (p : Place) (c : Char) : Place := if c = '\n' then ⟨p.row + 1, 1⟩ else ⟨p.row, p.col + 1⟩

/-- The place after a text. -/
def after (cs : List Char) : Place := cs.foldl step first

/-- The number of bytes that a list of characters takes in UTF-8. -/
def byteLength (cs : List Char) : Nat := cs.foldl (fun n c => n + c.utf8Size) 0

/-- The bytes of a row's first `n` characters, at most the whole row with its line feed. -/
def bytesIntoRow : List Char → Nat → Nat
  | _, 0 => 0
  | [], _ + 1 => 0
  | c :: cs, n + 1 => if c = '\n' then c.utf8Size else c.utf8Size + bytesIntoRow cs n

/-- The bytes before the row that lies `rows` below the first one, and that row with what follows;
the whole text and nothing when it has too few rows. -/
def bytesToRow : List Char → Nat → Nat × List Char
  | cs, 0 => (0, cs)
  | [], _ + 1 => (0, [])
  | c :: cs, rows + 1 =>
    let (n, rest) := bytesToRow cs (if c = '\n' then rows else rows + 1)
    (c.utf8Size + n, rest)

/-- The byte at which a place lies: past the end of its row it is the end of the row, and below the
last row it is the end of the text. There is no row zero, so it counts as below. -/
def byteOffset (text : List Char) (p : Place) : Nat :=
  if p.row = 0 then byteLength text
  else
    let (n, rest) := bytesToRow text (p.row - 1)
    n + bytesIntoRow rest (p.col - 1)

/-- The text of a place. -/
def text (p : Place) : String := s!"{p.row}:{p.col}"

end Place

end StencilKit
