/-
The markers of a stencil that was composed and taken apart.

What a marker is, apart from where it lies, is its form: its label, whether it is a spot, an edge or a
region, how many points an edge has and of which kind it is, which part of which shape a region means.
A marker comes back in the form that it had, after the outlines that no primitive fits.
-/
import StencilKit.Proofs.Decomposition.Outlines

namespace StencilKit

/-! ## Forms -/

namespace Anchorage

/-- What is known of an anchorage wherever it lies. -/
inductive Form where
  | spot
  | along (kind : EdgeKind) (points : Nat)
  | region (kind : RegionKind) (shape : ShapeRef)
  deriving DecidableEq, Repr

def form {α : Type} : Anchorage α → Form
  | spot _ => .spot
  | along e => .along e.kind e.points.length
  | region kind shape _ => .region kind shape

end Anchorage

namespace Marker

variable {α : Type}

/-- The label of a marker, and what is known of it wherever it lies. -/
def form (m : Marker α) : String × Anchorage.Form := (m.label, m.anchorage.form)

variable [Scalar α]

theorem form_moved (m : Marker α) (d : Point α) : (m.moved d).form = m.form := by
  obtain ⟨label, anchorage⟩ := m
  cases anchorage with
  | along e =>
    simp [moved, Anchorage.moved, form, Anchorage.form, Edge.moved, Edge.points, Route.moved, Route.length_points]
  | _ => rfl

theorem form_recovered (bench : Bench α) (frame : Box α) (m : Marker α) :
    (bench.recovered frame m).form = m.form := by
  obtain ⟨label, anchorage⟩ := m
  cases anchorage with
  | along e => simp [Bench.recovered, form, Anchorage.form, Edge.points]
  | _ => rfl

theorem form_comp_recovered (bench : Bench α) (frame : Box α) : form ∘ bench.recovered frame = form :=
  funext (form_recovered bench frame)

end Marker

theorem Primitive.form_placedMarkers {α : Type} [Scalar α] (p : Primitive α) :
    p.placedMarkers.map Marker.form = p.markers.map Marker.form := by
  rw [placedMarkers, List.map_map]
  exact List.map_congr_left fun m _ => m.form_moved p.markerOrigin

/-! ## Markers -/

/-- **The markers that come back**, and what is done to the primitives meanwhile. Primitive by primitive
of the body a primitive's own outline is given back to the first of the drawn primitives that it fits;
if it fits none, it is a marker without a label. Then come the primitive's markers in their order and
form. There are no others, and nothing changes of the drawn primitives but whose outline can be attached
to. -/
theorem markers_decompose_compose {α : Type} [Scalar α] {shop : Workshop α} {selection : List (Primitive α)}
    {background : Background} {arrangement : Arrangement} {c : Composition α}
    (h : shop.compose selection background arrangement = .ok c) (options : DecomposeOptions α) (placement : Box α) :
    let bench := c.stencil.bench options placement
    let body := selection.filter (!·.isText)
    let drawn := bench.placement.primitives c.stencil.foreground
    let parts := c.stencil.decompose options placement
    ∃ left, Restores (bench.claims c.bounds) body drawn parts.primitives left ∧
      parts.markers.map Marker.form = ((body.zip left).flatMap fun (p, alone) =>
        (if alone then p.outlineMarker?.toList else []) ++ p.markers).map Marker.form ∧
      List.Forall₂ Primitive.SameButOutline drawn parts.primitives := by
  intro bench body drawn parts
  obtain ⟨left, hrestores, hmarkers⟩ := Workshop.restores_decompose h options placement
  refine ⟨left, hrestores, ?_, hrestores.sameButOutline⟩
  rw [hmarkers, List.map_map, Marker.form_comp_recovered, List.map_flatMap, List.map_flatMap]
  congr 1
  funext ⟨p, alone⟩
  rw [List.map_append, List.map_append, p.form_placedMarkers]

/-- A line, a curve of two points and an ellipse that can be attached to, with markers whose labels
look like parts of tags, and a text. -/
def attachable : List (Primitive Float) :=
  [.edge ⟨.line, ⟨⟨0, 0⟩, [], ⟨4, 2⟩⟩⟩ {} true
      [⟨"area-1/a-b", .spot ⟨1, 1, 2, 2⟩⟩, ⟨"", .along ⟨.curve, ⟨⟨0, 0⟩, [⟨1, 2⟩], ⟨2, 0⟩⟩⟩⟩],
    .edge ⟨.curve, ⟨⟨0, 0⟩, [], ⟨4, 0⟩⟩⟩ {} true [],
    .stencil .ellipse ⟨6, 0, 3, 2⟩ {} true [⟨"/", .region .area .rectangle ⟨0, 0, 1, 1⟩⟩],
    .text "caption" ⟨0, 4, 2, 1⟩ {}]

theorem markers_decompose_compose_attachable :
    ∃ c : Composition Float, Workshop.bare.compose attachable .filled .shapes = .ok c ∧
      ∃ left : List Bool, (c.stencil.decompose .standard c.bounds).markers.map Marker.form =
        (((attachable.filter (!·.isText)).zip left).flatMap fun (p, alone) =>
          (if alone then p.outlineMarker?.toList else []) ++ p.markers).map Marker.form := by
  have hok : (Workshop.bare.compose attachable .filled .shapes).toBool = true := by decide +kernel
  obtain ⟨c, hc⟩ := exists_ok_of_toBool hok
  obtain ⟨left, -, hmarkers, -⟩ := markers_decompose_compose hc .standard c.bounds
  exact ⟨c, hc, left, hmarkers⟩

end StencilKit
