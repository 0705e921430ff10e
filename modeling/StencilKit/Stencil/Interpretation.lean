/-
Stencils from element trees, and from texts.

Every number has to be finite and every box of a size that is not negative. Elements of unknown
name are kept as such among the connections and in the foreground, and passed over elsewhere; the
first element in document order that breaks a rule is the one reported, the root before all others.
-/
import StencilKit.Decimal.Reading
import StencilKit.Failure
import StencilKit.Scalar.Double
import StencilKit.Stencil.Basic
import StencilKit.Xml.Document

namespace StencilKit

open Xml (Element)

namespace Interpretation

/-- What reading an element yields. -/
abbrev Result := Except (Failure Float)

/-- The value of an attribute that has to be there. -/
def require (e : Element) (name : String) : Result String :=
  match e.get? name with
  | some value => .ok value
  | none => .error (.missingAttribute e.tag name)

/-- A number that has to be there and has to be finite. Blanks around it do not count. -/
def number (e : Element) (name : String) : Result Float := do
  let raw ← require e name
  match Decimal.read (trimBlanks raw.toList) with
  | none => .error (.invalidAttribute e.tag name raw none)
  | some value => (Scalar.checkFinite value).mapError fun flaw => .invalidAttribute e.tag name raw (some flaw)

def point (e : Element) (x y : String) : Result (Point Float) := do
  return ⟨← number e x, ← number e y⟩

/-- An extent that was read under the given name. -/
def extent (e : Element) (name : String) (value : Float) : Result Unit :=
  match Scalar.checkExtent value with
  | .ok _ => .ok ()
  | .error flaw => .error (.invalidAttribute e.tag name (Decimal.numeral value) (some flaw))

/-- A box. Its size is judged before its origin is read. -/
def box (e : Element) : Result (Box Float) := do
  let w ← number e "w"
  let h ← number e "h"
  extent e "w" w
  extent e "h" h
  return ⟨← number e "x", ← number e "y", w, h⟩

/-- A point written as two numbers with a comma between them. -/
def pair? (word : List Char) : Option (Point Float) := do
  let (x, y) ← splitAtFirst ',' word
  let p : Point Float := ⟨← Decimal.read x, ← Decimal.read y⟩
  if p.isFinite then some p else none

/-- A list of points, parted by blanks. -/
def points (e : Element) : Result (List (Point Float)) := do
  let raw ← require e "points"
  match (words raw.toList).mapM pair? with
  | some ps => .ok ps
  | none => .error (.invalidAttribute e.tag "points" raw none)

def isOwn (e : Element) : Bool := e.get? "owner" == some "self"

def nameOf (e : Element) : String := (e.get? "name").getD ""

def anchor (e : Element) : Result (Connection Float) := do
  return .anchor ⟨← number e "x", ← number e "y", nameOf e⟩

def edgeTrace (kind : EdgeKind) (e : Element) : Result (Connection Float) := do
  return .edge ⟨nameOf e, kind, isOwn e, ← points e⟩

/-- What part of its region a trace means; the area if it does not say. -/
def regionKind (e : Element) : Result RegionKind :=
  match e.get? "kind" with
  | none => .ok .area
  | some word =>
    if word = "area" then .ok .area
    else if word = "outline" then .ok .outline
    else .error (.invalidAttribute e.tag "kind" word none)

def regionTrace (e : Element) : Result (Connection Float) := do
  let kind ← regionKind e
  let shape ← require e "shape"
  return .region ⟨nameOf e, kind, isOwn e, .ofName shape, ← box e⟩

def connection (e : Element) : Result (Connection Float) :=
  match e.tag with
  | "constraint" => anchor e
  | "lineattack" => edgeTrace .line e
  | "curveattack" => edgeTrace .curve e
  | "areaattack" => regionTrace e
  | tag => .ok (.unknown tag)

/-- A step of the pen; an element of another name is none. -/
def step? (e : Element) : Result (Option (PathStep Float)) :=
  match e.tag with
  | "move" => (point e "x" "y").map fun p => some (.move p)
  | "line" => (point e "x" "y").map fun p => some (.line p)
  | "quad" => do
    let control ← point e "x1" "y1"
    let stop ← point e "x2" "y2"
    return some (.quad control stop)
  | "close" => .ok (some .close)
  | _ => .ok none

def path (e : Element) : Result (Path Float) := do
  let steps ← e.children.mapM step?
  return steps.filterMap id

def node (e : Element) : Result (Node Float) :=
  match e.tag with
  | "path" => (path e).map .path
  | "rect" | "roundrect" => (box e).map .rect
  | "ellipse" => (box e).map .ellipse
  | "include-shape" => do
    let name ← require e "name"
    return .reference name (← box e)
  | "image" => do
    let src ← require e "src"
    return .image src (← box e)
  | "dashed" => .ok (.dashed ((e.get? "dashed").any (· != "0")))
  | "dashpattern" => (require e "pattern").map .dashPattern
  | "strokewidth" => (number e "width").map .strokeWidth
  | "strokecolor" => (require e "color").map .strokeColor
  | "fillcolor" => (require e "color").map .fillColor
  | "stroke" => .ok .stroke
  | "fillstroke" => .ok .fillStroke
  | tag => .ok (.unknown tag)

/-- The stencil with one more section of the root. -/
def addSection (s : Stencil Float) (e : Element) : Result (Stencil Float) :=
  match e.tag with
  | "connections" => do
    let cs ← e.children.mapM connection
    return { s with connections := s.connections ++ cs }
  | "foreground" => do
    let ns ← e.children.mapM node
    return { s with foreground := s.foreground ++ ns }
  | _ => .ok s

end Interpretation

open Interpretation in
/-- The stencil that an element tree describes. -/
def Stencil.ofElement (e : Element) : Result (Stencil Float) := do
  if e.tag ≠ "shape" then .error (.unexpectedRoot e.tag)
  let w ← number e "w"
  let h ← number e "h"
  let empty : Stencil Float :=
    { w, h, fixed := e.get? "aspect" == some "fixed", strokeWidth := (e.get? "strokewidth").getD "1" }
  e.children.foldlM addSection empty

/-- The stencil that a text describes. -/
def Stencil.ofText (text : String) : Except (Failure Float) (Stencil Float) :=
  let cs := text.toList
  match Xml.readDocument cs with
  | .ok e => Stencil.ofElement e
  | .error f => .error (.malformedText (f.message cs) (Place.byteOffset cs (f.place cs)))

end StencilKit
