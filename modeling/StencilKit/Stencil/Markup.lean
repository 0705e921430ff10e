/-
Stencils as element trees, and the text of a stencil.

The root element is `shape` with the size; its two sections hold the connections and the foreground.
Entries of unknown meaning are not written.
-/
import StencilKit.Decimal.Shortest
import StencilKit.Stencil.Basic
import StencilKit.Xml.Element

namespace StencilKit

open Decimal (numeral)
open Xml (Element)

namespace Markup

/-- The attributes of a point, under the given names. -/
def pointAttributes (x y : String) (p : Point Float) : List (String × String) :=
  [(x, numeral p.x), (y, numeral p.y)]

/-- The attributes of a box. -/
def boxAttributes (b : Box Float) : List (String × String) :=
  [("x", numeral b.x), ("y", numeral b.y), ("w", numeral b.w), ("h", numeral b.h)]

/-- The characters of a list of points: coordinates parted by commas, points by spaces. -/
def pointsChars : List (Point Float) → List Char
  | [] => []
  | [p] => Decimal.numeralChars p.x ++ ',' :: Decimal.numeralChars p.y
  | p :: ps => Decimal.numeralChars p.x ++ ',' :: Decimal.numeralChars p.y ++ ' ' :: pointsChars ps

/-- The value of a list of points. -/
def pointsText (ps : List (Point Float)) : String := .ofList (pointsChars ps)

/-- The attribute that marks a primitive's own outline. -/
def ownAttributes (own : Bool) : List (String × String) := if own then [("owner", "self")] else []

def edgeTag : EdgeKind → String
  | .line => "lineattack"
  | .curve => "curveattack"

def regionWord : RegionKind → String
  | .outline => "outline"
  | .area => "area"

def ofStep : PathStep Float → Element
  | .move p => .leaf "move" (pointAttributes "x" "y" p)
  | .line p => .leaf "line" (pointAttributes "x" "y" p)
  | .quad control stop => .leaf "quad" (pointAttributes "x1" "y1" control ++ pointAttributes "x2" "y2" stop)
  | .close => .leaf "close" []

def ofConnection? : Connection Float → Option Element
  | .anchor a =>
    some (.leaf "constraint" [("x", numeral a.x), ("y", numeral a.y), ("name", a.name), ("perimeter", "0")])
  | .edge t =>
    some (.leaf (edgeTag t.kind)
      (("name", t.name) :: ownAttributes t.own ++ [("points", pointsText t.points)]))
  | .region t =>
    some (.leaf "areaattack"
      ([("name", t.name), ("kind", regionWord t.kind)] ++ ownAttributes t.own ++
        ("shape", t.shape.name) :: boxAttributes t.box))
  | .unknown _ => none

def ofNode? : Node Float → Option Element
  | .path p => some (.node "path" [] (p.map ofStep))
  | .rect b => some (.leaf "rect" (boxAttributes b))
  | .ellipse b => some (.leaf "ellipse" (boxAttributes b))
  | .reference name b => some (.leaf "include-shape" (("name", name) :: boxAttributes b))
  | .image src b => some (.leaf "image" (("src", src) :: boxAttributes b))
  | .dashed on => some (.leaf "dashed" [("dashed", if on then "1" else "0")])
  | .dashPattern pattern => some (.leaf "dashpattern" [("pattern", pattern)])
  | .strokeWidth width => some (.leaf "strokewidth" [("width", numeral width)])
  | .strokeColor color => some (.leaf "strokecolor" [("color", color)])
  | .fillColor color => some (.leaf "fillcolor" [("color", color)])
  | .stroke => some (.leaf "stroke" [])
  | .fillStroke => some (.leaf "fillstroke" [])
  | .unknown _ => none

/-- The elements that hold others. -/
def holds (tag : String) : Bool :=
  tag == "shape" || tag == "connections" || tag == "foreground" || tag == "path"

end Markup

namespace Stencil

/-- The attributes of the root. -/
def rootAttributes (s : Stencil Float) : List (String × String) :=
  [("h", numeral s.h), ("w", numeral s.w)] ++ (if s.fixed then [("aspect", "fixed")] else []) ++
    [("strokewidth", s.strokeWidth)]

/-- The element tree of a stencil. -/
def toElement (s : Stencil Float) : Element :=
  .node "shape" s.rootAttributes
    [.node "connections" [] (s.connections.filterMap Markup.ofConnection?),
     .node "foreground" [] (s.foreground.filterMap Markup.ofNode?)]

/-- The text of a stencil, as the usual writer has it, which can write every element tree. -/
def text (s : Stencil Float) : String := .ofList (s.toElement.render Markup.holds)

end Stencil

end StencilKit
