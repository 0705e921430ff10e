/-
Composing a selection of primitives into one stencil.

The stencil has the size of the box around the whole selection, and its coordinates are relative to
that box's origin. Texts count for the box and are not drawn. Every outline and every marker that can
be attached to becomes a block of connections under a tag of its own; the blocks are numbered in the
order of the primitives, a primitive's own outline before its markers.
-/
import StencilKit.Attachment.Sampling
import StencilKit.Chain
import StencilKit.Stencil.Packing
import StencilKit.Stencil.Tag

namespace StencilKit

/-- Whether primitives are filled. -/
inductive Background where
  | filled
  | strokeOnly
  deriving DecidableEq, Repr

/-- Whether every primitive is drawn on its own, or all edges as one path. -/
inductive Arrangement where
  | shapes
  | singlePath
  deriving DecidableEq, Repr

/-- What a selection is composed with. -/
structure Workshop (α : Type) extends Sampling.Scanner α where
  options : ComposeOptions α

/-- A composed selection: the stencil, the box it takes in the drawing, and the texts left out. -/
structure Composition (α : Type) where
  stencil : Stencil α
  bounds : Box α
  texts : List (Primitive α)

/-- What attachment points are sampled from. -/
structure Source (α : Type) where
  /-- Whether it is the outline of a primitive itself and not a marker. -/
  own : Bool
  label : String
  anchorage : Anchorage α

namespace Primitive

variable {α : Type}

/-- The primitive's own outline, if it can be attached to. -/
def ownSource? : Primitive α → Option (Source α)
  | edge e _ true _ => some ⟨true, "", .along e⟩
  | stencil shape box _ true _ => some ⟨true, "", .region .outline shape box⟩
  | _ => none

/-- All that the primitive can be attached at, in the drawing plane. -/
def sources [Scalar α] (p : Primitive α) : List (Source α) :=
  p.ownSource?.toList ++ p.placedMarkers.map fun m => ⟨false, m.label, m.anchorage⟩

end Primitive

/-- What kind of tag an anchorage has. -/
def Anchorage.tagKind {α : Type} : Anchorage α → TagKind
  | spot _ => .point
  | along e => .ofEdge e.kind
  | region kind _ _ => .ofRegion kind

namespace Workshop

variable {α : Type} [Scalar α]

/-- The connections of one source: what is sampled, and then the samples. A spot is its own sample. -/
def block (shop : Workshop α) (frame : Box α) (source : Source α) (k : Nat) :
    Except (Failure α) (List (Connection α)) :=
  let sampling := shop.options.sampling
  let name := Tag.text ⟨source.anchorage.tagKind, .ofNat k, source.label⟩
  let anchors (ps : List (Point α)) := ps.map fun p => Connection.anchor (Sampling.anchor frame name p)
  match source.anchorage with
  | .spot box => .ok (anchors [box.center])
  | .along e =>
    let trace := Connection.edge ⟨name, e.kind, source.own, e.points.map frame.toLocal⟩
    .ok (trace :: anchors (Sampling.edge sampling e.kind e.points))
  | .region kind shape box =>
    let trace := Connection.region ⟨name, kind, source.own, shape, frame.boxToLocal box⟩
    (shop.region sampling kind shape box).map fun ps => trace :: anchors ps

/-- The blocks of all sources, numbered from zero. -/
def connections (shop : Workshop α) (frame : Box α) (sources : List (Source α)) :
    Except (Failure α) (List (Connection α)) := do
  let blocks ← sources.zipIdx.mapM fun (source, k) => shop.block frame source k
  return blocks.flatten

/-- The path of joined edges. -/
def joined (shop : Workshop α) (frame : Box α) (edges : List (Edge α)) : Except (Failure α) (Path α) :=
  Chain.path shop.options.joinTolerance frame.origin edges

/-- The path of one edge; only a line's corners can be rounded. -/
def edgePath (shop : Workshop α) (frame : Box α) (e : Edge α) (style : Style α) : Path α :=
  let ps := e.points.map (· - frame.origin)
  match e.kind with
  | .line => .ofLine (if style.rounded then some shop.options.cornerBlend else none) ps
  | .curve => .ofCurve ps

/-- What draws a primitive; a text is not drawn. -/
def draw (shop : Workshop α) (frame : Box α) : Primitive α → Except (Failure α) (Option (Node α))
  | .edge e style _ _ => .ok (some (.path (shop.edgePath frame e style)))
  | .stencil shape box _ _ _ =>
    let box := frame.boxToLocal box
    match shape with
    | .rectangle => .ok (some (.rect box))
    | .ellipse => .ok (some (.ellipse box))
    | shape => .ok (some (.reference shape.name box))
  | .image src box _ _ => .ok (some (.image src (frame.boxToLocal box)))
  | .group edges _ => (shop.joined frame edges).map fun path => some (.path path)
  | .text _ _ _ => .ok none

end Workshop

/-- The entries that paint what was drawn before them. -/
def Style.nodes {α : Type} (style : Style α) (background : Background) : List (Node α) :=
  (if style.dashed then .dashed true :: (style.pattern?.map .dashPattern).toList else []) ++
    (style.width?.map .strokeWidth).toList ++ [.strokeColor style.stroke] ++
    match background with
    | .filled => (style.fill?.map .fillColor).toList ++ [.fillStroke]
    | .strokeOnly => [.stroke]

namespace Workshop

variable {α : Type} [Scalar α]

/-- Every primitive with its own painting. -/
def drawShapes (shop : Workshop α) (frame : Box α) (background : Background) (body : List (Primitive α)) :
    Except (Failure α) (List (Node α)) := do
  let nodes ← body.mapM fun p =>
    (shop.draw frame p).map fun node => node.toList ++ p.style.nodes background
  return nodes.flatten

/-- The edges of the primitive at position `k`, which has to be made of edges. -/
def edgesOf (p : Primitive α) (k : Nat) : Except (Failure α) (List (Edge α)) :=
  match p with
  | .edge e _ _ _ => .ok [e]
  | .group edges _ => .ok edges
  | _ => .error (.notAnEdge k)

/-- All edges as one filled path. -/
def drawPath (shop : Workshop α) (frame : Box α) (body : List (Primitive α)) :
    Except (Failure α) (List (Node α)) := do
  let edges ← body.zipIdx.mapM fun (p, k) => edgesOf p k
  let path ← shop.joined frame edges.flatten
  return [.path path, .fillStroke]

/-- The box around a selection, which gives the stencil its size and its origin. -/
def frameOf (selection : List (Primitive α)) : Except (Failure α) (Box α) :=
  match Box.around? selection with
  | some frame => .ok frame
  | none => .error .emptySelection

theorem frameOf_eq_ok {selection : List (Primitive α)} {frame : Box α} :
    frameOf selection = .ok frame ↔ Box.around? selection = some frame := by
  unfold frameOf
  cases Box.around? selection <;> simp

/-- The stencil of a selection. There has to be something other than texts, and the box around the
selection has to have an area. -/
def compose (shop : Workshop α) (selection : List (Primitive α)) (background : Background)
    (arrangement : Arrangement) : Except (Failure α) (Composition α) := do
  let body := selection.filter (!·.isText)
  if body.isEmpty then .error .emptySelection
  let frame ← frameOf selection
  if frame.isDegenerate then .error (.degenerateBounds frame.w frame.h)
  let nodes ← match arrangement with
    | .shapes => shop.drawShapes frame background body
    | .singlePath => shop.drawPath frame body
  let connections ← shop.connections frame (body.flatMap (·.sources))
  return {
    stencil := { w := frame.w, h := frame.h, connections, foreground := .fillStroke :: nodes }
    bounds := frame
    texts := selection.filter (·.isText) }

end Workshop

/-- The style of an element drawn by the composed stencil, which has to be written for it. -/
def Composition.style (c : Composition Float) (packing : Packing) : Except (Failure Float) String := do
  let text ← (packing.write c.stencil.toElement).mapError .unwritable
  return ShapeRef.style (.embedded (packing.pack text))

end StencilKit
