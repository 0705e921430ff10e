/-
Which selections can be composed.

There has to be something other than texts, and the box around all has to have an area. The edges of each group
have to join; where all is drawn as one path, there may be nothing but edges, and all of them have to join. At
last, regions are scanned: what a reference means has to be found for that, unless its shape is built in
(`exists_compose_iff`). A stencil is drawn by its name alone, so that an unknown one is no obstacle where nothing is
attached to its outline.
-/
import StencilKit.Proofs.Composition.SinglePath

namespace StencilKit

/-! ## Results of steps -/

theorem exists_ok_bind {ε T U : Type} {x : Except ε T} {f : T → Except ε U} :
    (∃ u, x >>= f = .ok u) ↔ ∃ t, x = .ok t ∧ ∃ u, f t = .ok u := by
  simp only [Xml.bind_eq_ok]
  exact ⟨fun ⟨u, t, ht, hu⟩ => ⟨t, ht, u, hu⟩, fun ⟨t, ht, u, hu⟩ => ⟨u, t, ht, hu⟩⟩

/-- Steps of which only the first can fail. -/
theorem exists_ok_bind_ok {ε T U : Type} {x : Except ε T} {f : T → U} :
    (∃ u, (x >>= fun t => .ok (f t)) = .ok u) ↔ ∃ t, x = .ok t :=
  exists_ok_bind.trans ⟨fun ⟨t, ht, _⟩ => ⟨t, ht⟩, fun ⟨t, ht⟩ => ⟨t, ht, f t, rfl⟩⟩

theorem exists_ok_map {ε T U : Type} {x : Except ε T} {f : T → U} : (∃ u, x.map f = .ok u) ↔ ∃ t, x = .ok t := by
  cases x with
  | error e => exact ⟨fun ⟨_, h⟩ => (nomatch h), fun ⟨_, h⟩ => (nomatch h)⟩
  | ok t => exact ⟨fun _ => ⟨t, rfl⟩, fun _ => ⟨f t, rfl⟩⟩

/-- What runs through a list has a result if it has one at each member. -/
theorem exists_ok_mapM {ε T U : Type} {f : T → Except ε U} {xs : List T} :
    (∃ ys, xs.mapM f = .ok ys) ↔ ∀ x ∈ xs, ∃ y, f x = .ok y := by
  induction xs with
  | nil => exact ⟨fun _ => List.forall_mem_nil _, fun _ => ⟨[], rfl⟩⟩
  | cons x xs ih =>
    rw [List.mapM_cons, exists_ok_bind, List.forall_mem_cons, ← ih]
    constructor
    · rintro ⟨y, hy, hrest⟩
      exact ⟨⟨y, hy⟩, exists_ok_bind_ok.1 hrest⟩
    · rintro ⟨⟨y, hy⟩, hrest⟩
      exact ⟨y, hy, exists_ok_bind_ok.2 hrest⟩

/-! ## What has to be found and what has to join -/

section

variable {α : Type}

/-- Whether a shape needs no stencil to be looked up. -/
def ShapeRef.isBuiltIn : ShapeRef → Bool
  | rectangle | ellipse => true
  | named _ | embedded _ => false

/-- The shape of a region; a spot or an edge has none. -/
def Anchorage.shape? : Anchorage α → Option ShapeRef
  | spot _ | along _ => none
  | region _ shape _ => some shape

/-- The shapes of all regions that a primitive can be attached at: of a stencil whose own outline is marked, and of
markers. -/
def Primitive.regionShapes : Primitive α → List ShapeRef
  | stencil shape _ _ true markers => shape :: markers.filterMap (·.anchorage.shape?)
  | p => p.markers.filterMap (·.anchorage.shape?)

theorem Primitive.shapes_sources [Scalar α] (p : Primitive α) :
    p.sources.filterMap (·.anchorage.shape?) = p.regionShapes := by
  have hmarkers : (p.placedMarkers.map fun m => (⟨false, m.label, m.anchorage⟩ : Source α)).filterMap
      (·.anchorage.shape?) = p.markers.filterMap (·.anchorage.shape?) := by
    rw [placedMarkers, List.map_map, List.filterMap_map]
    refine congrFun (congrArg _ (funext fun m => ?_)) _
    obtain ⟨label, anchorage⟩ := m
    cases anchorage <;> rfl
  rw [sources, List.filterMap_append, hmarkers]
  cases p with
  | edge e style outline markers => cases outline <;> rfl
  | stencil shape b style outline markers => cases outline <;> rfl
  | _ => rfl

/-- Whether edges join to one path. -/
def Chain.Joins [Scalar α] (tolerance : α) (edges : List (Edge α)) : Prop := ∃ ls, links tolerance edges = .ok ls

theorem Chain.Joins.ne_nil [Scalar α] {tolerance : α} {edges : List (Edge α)} (h : Joins tolerance edges) :
    edges ≠ [] := by
  rintro rfl
  obtain ⟨ls, hls⟩ := h
  cases hls

/-- Whether a shape is built in, or else its stencil is found. -/
def Workshop.Finds (shop : Workshop α) (shape : ShapeRef) : Prop :=
  shape.isBuiltIn = false → ∃ s, shop.resolve shape = .ok s

theorem Workshop.finds_of_isBuiltIn {shop : Workshop α} {shape : ShapeRef} (h : shape.isBuiltIn = true) :
    shop.Finds shape := by
  intro hnot
  cases h.symm.trans hnot

end

namespace Workshop

variable {α : Type} [Scalar α] {shop : Workshop α}

/-! ## Sampling -/

/-- A scan takes a silhouette, and nothing else that could fail. -/
theorem scan_iff {options : SamplingOptions α} {kind : RegionKind} {shape : ShapeRef} {b : Box α} :
    (∃ ps, shop.scan options kind shape b = .ok ps) ↔ shop.Finds shape := by
  refine exists_ok_bind_ok.trans ?_
  cases shape with
  | rectangle => exact ⟨fun _ => finds_of_isBuiltIn rfl, fun _ => ⟨_, rfl⟩⟩
  | ellipse => exact ⟨fun _ => finds_of_isBuiltIn rfl, fun _ => ⟨_, rfl⟩⟩
  | named name => exact exists_ok_map.trans ⟨fun h _ => h, fun h => h rfl⟩
  | embedded token => exact exists_ok_map.trans ⟨fun h _ => h, fun h => h rfl⟩

/-- **A region can be sampled** if its shape is built in or is found. -/
theorem region_iff {options : SamplingOptions α} {kind : RegionKind} {shape : ShapeRef} {b : Box α} :
    (∃ ps, shop.region options kind shape b = .ok ps) ↔ shop.Finds shape := by
  match kind, shape with
  | .outline, .rectangle => exact ⟨fun _ => finds_of_isBuiltIn rfl, fun _ => ⟨_, rfl⟩⟩
  | .outline, .ellipse => exact ⟨fun _ => finds_of_isBuiltIn rfl, fun _ => ⟨_, rfl⟩⟩
  | .outline, .named _ => exact scan_iff
  | .outline, .embedded _ => exact scan_iff
  | .area, _ => exact scan_iff

theorem samples_iff {anchorage : Anchorage α} :
    (∃ ps, shop.samples anchorage = .ok ps) ↔ ∀ shape ∈ anchorage.shape?, shop.Finds shape := by
  cases anchorage with
  | spot b => exact ⟨fun _ _ h => (nomatch h), fun _ => ⟨_, rfl⟩⟩
  | along e => exact ⟨fun _ _ h => (nomatch h), fun _ => ⟨_, rfl⟩⟩
  | region kind shape b =>
    refine region_iff.trans ⟨?_, fun h => h shape rfl⟩
    rintro h _ ⟨⟩
    exact h

/-- **Sources have their connections** if each of them can be sampled. -/
theorem connections_iff {frame : Box α} {sources : List (Source α)} :
    (∃ cs, shop.connections frame sources = .ok cs) ↔
      ∀ source ∈ sources, ∃ ps, shop.samples source.anchorage = .ok ps := by
  have hblock : ∀ x ∈ sources.zipIdx, (∃ block, shop.block frame x.1 x.2 = .ok block) ↔
      ∃ ps, shop.samples x.1.anchorage = .ok ps := by
    intro x _
    rw [block_eq]
    exact exists_ok_map
  calc (∃ cs, shop.connections frame sources = .ok cs)
    _ ↔ ∀ x ∈ sources.zipIdx, ∃ block, shop.block frame x.1 x.2 = .ok block :=
      exists_ok_bind_ok.trans exists_ok_mapM
    _ ↔ ∀ x ∈ sources.zipIdx, ∃ ps, shop.samples x.1.anchorage = .ok ps := forall₂_congr hblock
    _ ↔ ∀ source ∈ sources, ∃ ps, shop.samples source.anchorage = .ok ps := by
      rw [← List.forall_mem_map (P := fun source : Source α => ∃ ps, shop.samples source.anchorage = .ok ps),
        List.zipIdx_map_fst]

/-- **Primitives have their connections** if each shape that they can be attached at is built in or found. -/
theorem connections_sources_iff {frame : Box α} {ps : List (Primitive α)} :
    (∃ cs, shop.connections frame (ps.flatMap (·.sources)) = .ok cs) ↔
      ∀ p ∈ ps, ∀ shape ∈ p.regionShapes, shop.Finds shape := by
  simp only [connections_iff, samples_iff, ← Primitive.shapes_sources, List.forall_mem_flatMap]
  refine forall₂_congr fun p _ => ?_
  simp only [List.mem_filterMap]
  constructor
  · rintro h shape ⟨source, hsource, hshape⟩
    exact h source hsource shape hshape
  · intro h source hsource shape hshape
    exact h shape ⟨source, hsource, hshape⟩

/-! ## Drawing -/

theorem joined_iff {frame : Box α} {edges : List (Edge α)} :
    (∃ path, shop.joined frame edges = .ok path) ↔ Chain.Joins shop.options.joinTolerance edges :=
  exists_ok_map

/-- Only a group can fail to be drawn. -/
theorem draw_iff {frame : Box α} {p : Primitive α} :
    (∃ node, shop.draw frame p = .ok node) ↔
      ∀ edges style, p = .group edges style → Chain.Joins shop.options.joinTolerance edges := by
  cases p with
  | edge e style outline markers => exact ⟨fun _ _ _ h => (nomatch h), fun _ => ⟨_, rfl⟩⟩
  | stencil shape b style outline markers =>
    refine ⟨fun _ _ _ h => (nomatch h), fun _ => ?_⟩
    cases shape <;> exact ⟨_, rfl⟩
  | image src b style markers => exact ⟨fun _ _ _ h => (nomatch h), fun _ => ⟨_, rfl⟩⟩
  | text value b style => exact ⟨fun _ _ _ h => (nomatch h), fun _ => ⟨_, rfl⟩⟩
  | group edges style =>
    refine exists_ok_map.trans (joined_iff.trans ⟨?_, fun h => h edges style rfl⟩)
    rintro h _ _ ⟨⟩
    exact h

/-- **A path can be drawn** of edges that join, and of nothing else. -/
theorem drawPath_iff {frame : Box α} {selection : List (Primitive α)} :
    (∃ nodes, shop.drawPath frame (selection.filter (!·.isText)) = .ok nodes) ↔
      (∀ p ∈ selection, p.isBoxed = false) ∧
        Chain.Joins shop.options.joinTolerance (selection.flatMap (·.ownEdges)) := by
  rcases shop.drawPath_cases selection frame with ⟨hedges, hdraw⟩ | ⟨before, p, after, rfl, hp, -, hdraw⟩
  · rw [hdraw, exists_ok_map, joined_iff, and_iff_right hedges]
  · refine ⟨?_, fun h => ?_⟩
    · rintro ⟨nodes, h⟩
      cases hdraw.symm.trans h
    · cases hp.symm.trans (h.1 p (List.mem_append_right _ List.mem_cons_self))

/-- What an arrangement asks of a selection. Drawn on their own, the edges of each group have to join; drawn as one
path, there has to be nothing but edges, and all of them have to join. -/
def CanDraw (shop : Workshop α) (selection : List (Primitive α)) : Arrangement → Prop
  | .shapes => ∀ edges style, .group edges style ∈ selection →
      edges ≠ [] ∧ Chain.Joins shop.options.joinTolerance edges
  | .singlePath => (∀ p ∈ selection, p.isBoxed = false) ∧ selection.flatMap (·.ownEdges) ≠ [] ∧
      Chain.Joins shop.options.joinTolerance (selection.flatMap (·.ownEdges))

/-- **A body can be drawn** if the arrangement can take it. -/
theorem drawBody_iff {frame : Box α} {background : Background} {arrangement : Arrangement}
    {selection : List (Primitive α)} :
    (∃ nodes, shop.drawBody frame background arrangement (selection.filter (!·.isText)) = .ok nodes) ↔
      shop.CanDraw selection arrangement := by
  cases arrangement with
  | shapes =>
    refine (exists_ok_bind_ok.trans exists_ok_mapM).trans ?_
    simp only [exists_ok_map, draw_iff]
    constructor
    · intro h edges style hmem
      have hjoins := h _ (List.mem_filter.2 ⟨hmem, rfl⟩) edges style rfl
      exact ⟨hjoins.ne_nil, hjoins⟩
    · rintro h p hp edges style rfl
      exact (h edges style (List.mem_filter.1 hp).1).2
  | singlePath => exact drawPath_iff.trans (and_congr_right fun _ => (and_iff_right_of_imp Chain.Joins.ne_nil).symm)

/-! ## Composing -/

/-- **Which selections can be composed.** Something in it is not a text, and the box around it has an area; its
edges join as the arrangement asks; and each region that it can be attached at has a shape that is built in, or
one whose stencil is found. -/
theorem exists_compose_iff {selection : List (Primitive α)} {background : Background} {arrangement : Arrangement} :
    (∃ c, shop.compose selection background arrangement = .ok c) ↔
      (∃ p ∈ selection, p.isText = false) ∧
      (∃ frame, frameOf selection = .ok frame ∧ 0 < frame.w ∧ 0 < frame.h) ∧
      shop.CanDraw selection arrangement ∧
      ∀ p ∈ selection, ∀ shape ∈ p.regionShapes, shape.isBuiltIn = false → ∃ s, shop.resolve shape = .ok s := by
  have hregions : ∀ frame, (∃ cs, shop.connections frame ((selection.filter (!·.isText)).flatMap (·.sources)) =
      .ok cs) ↔ ∀ p ∈ selection, ∀ shape ∈ p.regionShapes, shop.Finds shape := by
    intro frame
    refine connections_sources_iff.trans ⟨fun h p hp shape hshape => ?_, fun h p hp => h p (List.mem_filter.1 hp).1⟩
    have htext : p.isText = false := by
      cases p with
      | text value b style => cases hshape
      | _ => rfl
    exact h p (List.mem_filter.2 ⟨hp, by simp [htext]⟩) shape hshape
  constructor
  · rintro ⟨c, hc⟩
    obtain ⟨frame, nodes, connections, hbody, hframe, harea, hnodes, hconnections, -⟩ := compose_eq_ok.1 hc
    obtain ⟨p, hp⟩ := List.exists_mem_of_ne_nil _ hbody
    obtain ⟨hmem, htext⟩ := List.mem_filter.1 hp
    exact ⟨⟨p, hmem, by simpa using htext⟩, ⟨frame, hframe, Box.isDegenerate_eq_false.1 harea⟩,
      drawBody_iff.1 ⟨nodes, hnodes⟩, (hregions frame).1 ⟨connections, hconnections⟩⟩
  · rintro ⟨⟨p, hp, htext⟩, ⟨frame, hframe, harea⟩, hdraw, hfinds⟩
    have hbody : selection.filter (!·.isText) ≠ [] :=
      List.ne_nil_of_mem (List.mem_filter.2 ⟨hp, by simp [htext]⟩)
    obtain ⟨nodes, hnodes⟩ : ∃ nodes, shop.drawBody frame background arrangement (selection.filter (!·.isText)) =
        .ok nodes := drawBody_iff.2 hdraw
    obtain ⟨connections, hconnections⟩ := (hregions frame).2 hfinds
    exact ⟨_, compose_eq_ok.2 ⟨frame, nodes, connections, hbody, hframe, Box.isDegenerate_eq_false.2 harea, hnodes,
      hconnections, rfl⟩⟩

end Workshop

end StencilKit
