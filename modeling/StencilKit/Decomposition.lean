/-
Taking a stencil apart: the primitives that its foreground draws, and the markers that its
connections tell of.

Straight steps in a row are one line, quadratic pieces in a row one curve, and closing a subpath away
from its start is a line back. Painting entries apply to what the nearest drawing entry before them
draws.

Of the connections, a single point becomes a marker; points that were sampled from something are
passed over, since what they were sampled from stands beside them. A trace of a primitive's own
outline is given back to that primitive, the first one that it fits, and becomes a marker only when
it fits none.
-/
import StencilKit.Options
import StencilKit.Stencil.Catalogue
import StencilKit.Stencil.Tag

namespace StencilKit

/-- What a stencil is taken apart into; the markers lie in the drawing plane. -/
structure Parts (α : Type) where
  primitives : List (Primitive α)
  markers : List (Marker α)
  deriving BEq, DecidableEq

/-- Where a stencil's coordinates lie in the drawing plane. -/
structure Placement (α : Type) where
  origin : Point α
  scale : Point α

namespace Placement

variable {α : Type} [Scalar α]

/-- A stencil drawn into a box. -/
def of (s : Stencil α) (b : Box α) : Placement α := ⟨b.origin, s.scaleTo b.size⟩

def point (m : Placement α) (p : Point α) : Point α := m.origin + p * m.scale

def box (m : Placement α) (b : Box α) : Box α :=
  let origin := m.point b.origin
  let size := b.size * m.scale
  ⟨origin.x, origin.y, size.x, size.y⟩

end Placement

/-! ## Runs of a path -/

/-- Consecutive steps of one kind. A run of lines or of quadratic pieces has at least one. -/
inductive Run (α : Type) where
  | move (stop : Point α)
  | lines (first : Point α) (more : List (Point α))
  | quads (first : Point α × Point α) (more : List (Point α × Point α))
  | close
  deriving BEq, DecidableEq

/-- The longest runs of a path, in order. -/
def Path.runs {α : Type} : Path α → List (Run α)
  | [] => []
  | .move p :: rest => .move p :: runs rest
  | .close :: rest => .close :: runs rest
  | .line p :: rest =>
    match runs rest with
    | .lines q more :: rs => .lines p (q :: more) :: rs
    | rs => .lines p [] :: rs
  | .quad control stop :: rest =>
    match runs rest with
    | .quads q more :: rs => .quads (control, stop) (q :: more) :: rs
    | rs => .quads (control, stop) [] :: rs

/-- Where the pen is, and where the current subpath began. -/
structure Pen (α : Type) where
  at? : Option (Point α)
  start? : Option (Point α)
  deriving BEq, DecidableEq

namespace Run

variable {α : Type} [Scalar α]

/-- The control points of a run of quadratic pieces after its first one, where every piece but the
last ends halfway to the next control point. The last control point and the end are given as such. -/
def controls : Point α × Point α → List (Point α × Point α) → List (Point α)
  | _, [] => []
  | _, [(control, _)] => [control]
  | (control, mid), next :: q :: rest => control.beyond mid :: controls next (q :: rest)

/-- The points of the smooth curve that a run of quadratic pieces draws. -/
def curvePoints (start : Point α) (first : Point α × Point α) (more : List (Point α × Point α)) :
    List (Point α) :=
  start :: first.1 :: controls first more ++ [((first :: more).getLast (List.cons_ne_nil _ _)).2]

/-- The points of the edge that a run draws, if it draws one, and the pen afterwards. A line without
a pen position only puts the pen down. -/
def draw (pen : Pen α) : Run α → Option (EdgeKind × List (Point α)) × Pen α
  | move p => (none, ⟨some p, some p⟩)
  | lines p more =>
    match pen.at? with
    | some a => (some (.line, a :: p :: more), ⟨(p :: more).getLast?, pen.start?⟩)
    | none =>
      if more.isEmpty then (none, ⟨some p, some p⟩)
      else (some (.line, p :: more), ⟨more.getLast?, some p⟩)
  | quads first more =>
    let start := pen.at?.getD first.1
    let points := curvePoints start first more
    (some (.curve, points), ⟨points.getLast?, some (pen.start?.getD start)⟩)
  | close =>
    match pen.at?, pen.start? with
    | some a, some start => (if a == start then none else some (.line, [a, start]), ⟨pen.start?, pen.start?⟩)
    | _, _ => (none, ⟨pen.start?, pen.start?⟩)

/-- The edges of a list of runs. -/
def drawAll (pen : Pen α) : List (Run α) → List (EdgeKind × List (Point α))
  | [] => []
  | r :: rs => (r.draw pen).1.toList ++ drawAll (r.draw pen).2 rs

end Run

/-- The edges that a path draws. -/
def Path.edges {α : Type} [Scalar α] (path : Path α) : List (EdgeKind × List (Point α)) :=
  Run.drawAll ⟨none, none⟩ path.runs

/-! ## Foreground -/

/-- A style after one painting entry. -/
def Style.paint {α : Type} (style : Style α) : Node α → Style α
  | .dashed on => { style with dashed := on }
  | .dashPattern pattern => { style with pattern? := some pattern }
  | .strokeWidth width => { style with width? := some width }
  | .strokeColor color => { style with stroke := color }
  | .fillColor color => { style with fill? := some color }
  | _ => style

namespace Placement

variable {α : Type} [Scalar α]

/-- The primitive of an edge that a path draws. -/
def edge? (m : Placement α) (kind : EdgeKind) (ps : List (Point α)) : Option (Primitive α) :=
  (Route.ofPoints? (ps.map m.point)).map fun route => .edge ⟨kind, route⟩ {} false []

/-- What one entry of a foreground draws, unpainted. -/
def drawn (m : Placement α) : Node α → List (Primitive α)
  | .path p => p.edges.filterMap fun (kind, ps) => m.edge? kind ps
  | .rect b => [.stencil .rectangle (m.box b) {} false []]
  | .ellipse b => [.stencil .ellipse (m.box b) {} false []]
  | .reference name b => [.stencil (.ofName name) (m.box b) {} false []]
  | .image src b => [.image src (m.box b) {} []]
  | _ => []

/-- What a foreground draws: each drawing entry, painted by the entries up to the next one. -/
def primitives (m : Placement α) : List (Node α) → List (Primitive α)
  | [] => []
  | node :: rest =>
    if node.draws then
      let painting := rest.takeWhile (!·.draws)
      (m.drawn node).map (·.mapStyle fun style => painting.foldl Style.paint style) ++ m.primitives rest
    else m.primitives rest

end Placement

/-! ## Connections -/

/-- The list with its first member that satisfies `p` changed by `f`, if there is one. -/
def changeFirst? {β : Type} (p : β → Bool) (f : β → β) : List β → Option (List β)
  | [] => none
  | b :: bs => if p b then some (f b :: bs) else (changeFirst? p f bs).map (b :: ·)

namespace Primitive

variable {α : Type} [Scalar α]

/-- Whether a primitive is the edge through the given points. -/
def fitsEdge (tolerance : α) (kind : EdgeKind) (ps : List (Point α)) (p : Primitive α) : Bool :=
  match p.edge? with
  | some e =>
    e.kind == kind && e.points.length == ps.length &&
      (e.points.zip ps).all fun (a, b) => a.isNear tolerance b
  | none => false

/-- Whether a primitive is a stencil of the given shape in the given box. -/
def fitsRegion (tolerance : α) (shape : ShapeRef) (box : Box α) : Primitive α → Bool
  | stencil s b _ _ _ =>
    s == shape && b.origin.isNear tolerance box.origin && b.size.isNear tolerance box.size
  | _ => false

end Primitive

/-- What a stencil is taken apart with, and where it lies. -/
structure Bench (α : Type) where
  options : DecomposeOptions α
  placement : Placement α
  /-- The size of the stencil in its own coordinates. -/
  size : Point α

namespace Bench

variable {α : Type} [Scalar α]

/-- The label of the marker that an anchor stands for; none for one sampled from something. -/
def spotLabel? (name : String) : Option String :=
  match Tag.read name with
  | some tag => if tag.kind = .point then some tag.label else none
  | none => some name

/-- The box around a single attachment point. -/
def spotBox (bench : Bench α) (p : Point α) : Box α :=
  let side := bench.options.spotSize
  ⟨p.x - side / Scalar.two, p.y - side / Scalar.two, side, side⟩

def spot? (bench : Bench α) (a : Anchor α) : Option (Marker α) :=
  (spotLabel? a.name).map fun label =>
    ⟨label, .spot (bench.spotBox (bench.placement.point (⟨a.x, a.y⟩ * bench.size)))⟩

/-- The primitives with the first one that fits given its outline back, or none if none fits. -/
def claim? (fits : Primitive α → Bool) (ps : List (Primitive α)) : Option (List (Primitive α)) :=
  changeFirst? fits Primitive.withOutline ps

/-- The parts after an edge trace. -/
def edge (bench : Bench α) (parts : Parts α) (t : EdgeTrace α) : Parts α :=
  let points := t.points.map bench.placement.point
  let fits := Primitive.fitsEdge bench.options.matchTolerance t.kind points
  match if t.own then claim? fits parts.primitives else none with
  | some primitives => { parts with primitives }
  | none =>
    let marker? := (Route.ofPoints? points).map fun route =>
      (⟨Tag.labelOf t.name, .along ⟨t.kind, route⟩⟩ : Marker α)
    { parts with markers := parts.markers ++ marker?.toList }

/-- The parts after a region trace. -/
def region (bench : Bench α) (parts : Parts α) (t : RegionTrace α) : Parts α :=
  let box := bench.placement.box t.box
  let fits := Primitive.fitsRegion bench.options.matchTolerance t.shape box
  match if t.own ∧ t.kind = .outline then claim? fits parts.primitives else none with
  | some primitives => { parts with primitives }
  | none => { parts with markers := parts.markers ++ [⟨Tag.labelOf t.name, .region t.kind t.shape box⟩] }

/-- The parts after one more connection. -/
def connect (bench : Bench α) (parts : Parts α) : Connection α → Parts α
  | .anchor a => { parts with markers := parts.markers ++ (bench.spot? a).toList }
  | .edge t => bench.edge parts t
  | .region t => bench.region parts t
  | .unknown _ => parts

end Bench

/-- The primitives and markers of a stencil that is drawn into a box. -/
def Stencil.decompose {α : Type} [Scalar α] (s : Stencil α) (options : DecomposeOptions α)
    (placement : Box α) : Parts α :=
  let m := Placement.of s placement
  s.connections.foldl (Bench.connect ⟨options, m, ⟨s.w, s.h⟩⟩) ⟨m.primitives s.foreground, []⟩

/-- The primitives and markers of the stencil that a reference means. -/
def Library.decompose (library : Library) (shape : ShapeRef) (options : DecomposeOptions Float)
    (placement : Box Float) : Except (Failure Float) (Parts Float) :=
  (library.resolve shape).map fun s => s.decompose options placement

end StencilKit
