/-
Tags: the names of attachment points that a composed stencil generates.

All points that were sampled from one marker share a tag `kind-id` or `kind-id/label`. A name that
is not of this form is somebody else's.
-/
import StencilKit.Text.Blank
import StencilKit.Drawing.Marker

namespace StencilKit

/-- What the tagged points were sampled from. -/
inductive TagKind where
  | point
  | line
  | curve
  | outline
  | area
  deriving DecidableEq, Repr

namespace TagKind

def word : TagKind → String
  | point => "point"
  | line => "line"
  | curve => "curve"
  | outline => "outline"
  | area => "area"

def ofWord? (cs : List Char) : Option TagKind :=
  [point, line, curve, outline, area].find? (·.word.toList = cs)

def ofEdge : EdgeKind → TagKind
  | .line => line
  | .curve => curve

def ofRegion : RegionKind → TagKind
  | .outline => outline
  | .area => area

end TagKind

/-- A kind, a number that no other marker of the stencil has, and the marker's label. -/
structure Tag where
  kind : TagKind
  id : UInt32
  label : String
  deriving DecidableEq, Repr

namespace Tag

/-- A decimal number of at most 32 bits, with an optional plus sign. -/
def readId (cs : List Char) : Option UInt32 :=
  let digits := match cs with
    | '+' :: cs => cs
    | cs => cs
  let n : Nat := digits.foldl (fun n d => 10 * n + (d.toNat - '0'.toNat)) 0
  if digits.isEmpty || !digits.all Char.isDigit || decide (UInt32.size ≤ n) then none else some (.ofNat n)

/-- The kind and id of a tag without its label. -/
def readHead (cs : List Char) : Option (TagKind × UInt32) := do
  let (kind, id) ← splitAtFirst '-' cs
  return (← TagKind.ofWord? kind, ← readId id)

/-- The tag that a name is, if it is one. -/
def read (name : String) : Option Tag :=
  let (head, label) := (splitAtFirst '/' name.toList).getD (name.toList, [])
  (readHead head).map fun (kind, id) => ⟨kind, id, .ofList label⟩

/-- The characters of a tag's text. -/
def chars (t : Tag) : List Char :=
  t.kind.word.toList ++ '-' :: Nat.toDigits 10 t.id.toNat ++
    (if t.label.isEmpty then [] else '/' :: t.label.toList)

/-- The name that a tag is. An empty label is left out. -/
def text (t : Tag) : String := .ofList t.chars

/-- The label of a marker with the given name: the tag's label, or all of a name that is no tag. -/
def labelOf (name : String) : String := ((read name).map (·.label)).getD name

end Tag

end StencilKit
