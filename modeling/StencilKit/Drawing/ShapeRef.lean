/-
Which stencil a shape is drawn by, and how a style names it.

A style is a list of entries `key=value`, each ended by a semicolon. The entry `shape` names one of
the two built-in shapes, or a stencil by its name, or it carries a whole stencil as a token between
`stencil(` and `)`.
-/
import StencilKit.Text.Blank

namespace StencilKit

/-- A reference to a stencil. -/
inductive ShapeRef where
  | rectangle
  | ellipse
  | named (name : String)
  | embedded (token : String)
  deriving DecidableEq, Repr

namespace ShapeRef

/-- What a token is preceded by. -/
def tokenMark : List Char := "stencil(".toList

/-- The token in a shape name of the form `stencil(…)`. -/
def token? (cs : List Char) : Option (List Char) :=
  if tokenMark.isPrefixOf cs && (cs.drop tokenMark.length).getLast? == some ')' then
    some (cs.drop tokenMark.length).dropLast
  else none

/-- The shape that a trimmed name means. -/
def ofTrimmed (cs : List Char) : ShapeRef :=
  if cs = "mxgraph.general.rectangle".toList ∨ cs = "rectangle".toList then .rectangle
  else if cs = "mxgraph.general.circle".toList ∨ cs = "ellipse".toList then .ellipse
  else match token? cs with
    | some token => .embedded (.ofList token)
    | none => .named (.ofList cs)

/-- The shape that a name means; blanks around the name do not count. -/
def ofName (name : String) : ShapeRef := ofTrimmed (trimBlanks name.toList)

/-- The name of a shape. -/
def name : ShapeRef → String
  | rectangle => "mxgraph.general.rectangle"
  | ellipse => "mxgraph.general.circle"
  | named name => name
  | embedded token => .ofList (tokenMark ++ token.toList ++ [')'])

/-- The value of the first entry with the given key. Entries without an equals sign have no key. -/
def valueOf? (key : List Char) (style : List Char) : Option (List Char) :=
  ((splitAtEach ';' style).filterMap (splitAtFirst '=')).findSome? fun (k, value) =>
    if trimBlanks k = key then some value else none

/-- The shape that a style draws, if it says so. -/
def ofStyle? (style : String) : Option ShapeRef :=
  (valueOf? "shape".toList style.toList).map fun value => ofTrimmed (trimBlanks value)

/-- The style that draws a shape. -/
def style (s : ShapeRef) : String := .ofList ("shape=".toList ++ s.name.toList ++ [';'])

end ShapeRef

end StencilKit
