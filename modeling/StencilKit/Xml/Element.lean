/-
Element trees, and their text.

A tree keeps what a stencil is read from: local names, the attributes without a namespace prefix,
and child elements. Character data carries no meaning here, so the text of a tree has none, nor any
white space between elements.
-/
namespace StencilKit.Xml

/-- An element with its attributes in order and its child elements. -/
inductive Element where
  | node (tag : String) (attributes : List (String × String)) (children : List Element)

namespace Element

def tag : Element → String
  | node tag _ _ => tag

def attributes : Element → List (String × String)
  | node _ attributes _ => attributes

def children : Element → List Element
  | node _ _ children => children

/-- An element without children. -/
def leaf (tag : String) (attributes : List (String × String)) : Element := node tag attributes []

/-- The value of an attribute. -/
def get? (e : Element) (name : String) : Option String := e.attributes.lookup name

end Element

/-- A character as it stands in an attribute value. -/
def escapeChar (c : Char) : List Char :=
  if c = '<' then "&lt;".toList
  else if c = '>' then "&gt;".toList
  else if c = '&' then "&amp;".toList
  else if c = '\x22' then "&quot;".toList
  else if c = '\x27' then "&apos;".toList
  else [c]

/-- The text of one attribute, with the space before it. -/
def renderAttribute (a : String × String) : List Char :=
  ' ' :: a.1.toList ++ '=' :: '\x22' :: a.2.toList.flatMap escapeChar ++ ['\x22']

/-- A start tag up to its closing bracket. -/
def renderStart (tag : String) (attributes : List (String × String)) : List Char :=
  '<' :: tag.toList ++ attributes.flatMap renderAttribute

mutual

/-- The text of an element. Where `holds tag` says that elements of this name hold others, the
element has an end tag even when it is empty; any other element is written without one. -/
def Element.render (holds : String → Bool) : Element → List Char
  | .node tag attributes children =>
    if holds tag then
      renderStart tag attributes ++ '>' :: renderAll holds children ++ '<' :: '/' :: tag.toList ++ ['>']
    else renderStart tag attributes ++ ['/', '>']

/-- The text of elements in a row. -/
def renderAll (holds : String → Bool) : List Element → List Char
  | [] => []
  | e :: es => e.render holds ++ renderAll holds es

end

end StencilKit.Xml
