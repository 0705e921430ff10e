/-
White space in Unicode's sense, and the two things that attribute values are put through: trimming
at both ends, and splitting into words. A zero-width space is not white space.
-/
namespace StencilKit

/-- The characters with Unicode's property `White_Space`. -/
def isBlank (c : Char) : Bool :=
  let n := c.toNat
  (9 ≤ n && n ≤ 13) || n == 0x20 || n == 0x85 || n == 0xa0 || n == 0x1680 || (0x2000 ≤ n && n ≤ 0x200a) ||
    n == 0x2028 || n == 0x2029 || n == 0x202f || n == 0x205f || n == 0x3000

/-- Without the blanks at both ends. -/
def trimBlanks (cs : List Char) : List Char :=
  ((cs.dropWhile isBlank).reverse.dropWhile isBlank).reverse

/-- The words of a text, given the word that is being read, its last letter first. -/
def wordsFrom : List Char → List Char → List (List Char)
  | word, [] => if word.isEmpty then [] else [word.reverse]
  | word, c :: cs =>
    if isBlank c then
      if word.isEmpty then wordsFrom [] cs else word.reverse :: wordsFrom [] cs
    else wordsFrom (c :: word) cs

/-- The longest runs without a blank, in order. -/
def words (cs : List Char) : List (List Char) := wordsFrom [] cs

/-- The text before the first occurrence of a mark, and the text after it. -/
def splitAtFirst (mark : Char) : List Char → Option (List Char × List Char)
  | [] => none
  | c :: cs => if c = mark then some ([], cs) else (splitAtFirst mark cs).map fun (a, b) => (c :: a, b)

/-- The parts of a text between the occurrences of a mark; one more than there are marks. -/
def splitAtEach (mark : Char) : List Char → List (List Char)
  | [] => [[]]
  | c :: cs =>
    if c = mark then [] :: splitAtEach mark cs
    else match splitAtEach mark cs with
      | [] => [[c]]
      | part :: parts => (c :: part) :: parts

end StencilKit
