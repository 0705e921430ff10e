/-
How the connections of a composed stencil are laid out.

They stand in blocks, one for each thing that can be attached to (`Primitive.outlets`): primitive by
primitive its own outline, where it is marked as one, and then its markers. All entries of a block bear one
name, and it holds the place of the block in the row; so a block can be told from every other one by the name
of any of its entries. What a block was sampled from comes first in it, and says whether it is a primitive
of the stencil itself.
-/
import StencilKit.Proofs.Attachment.Scanning
import StencilKit.Proofs.Composition.Frame
import StencilKit.Proofs.Stencil.Tags

namespace StencilKit

section

variable {α : Type}

/-- The name of an entry; an entry of unknown meaning has none. -/
def Connection.name? : Connection α → Option String
  | anchor a => some a.name
  | edge t => some t.name
  | region t => some t.name
  | unknown _ => none

/-- What is known of something to attach to before it is placed and sampled. -/
structure Outlet where
  /-- Whether it is the outline of a primitive itself and not a marker. -/
  own : Bool
  kind : TagKind
  label : String
  deriving DecidableEq, Repr

def Marker.outlet (m : Marker α) : Outlet := ⟨false, m.anchorage.tagKind, m.label⟩

/-- All that a primitive can be attached at. -/
def Primitive.outlets : Primitive α → List Outlet
  | edge e _ outline markers => (if outline then [⟨true, .ofEdge e.kind, ""⟩] else []) ++ markers.map Marker.outlet
  | stencil _ _ _ outline markers => (if outline then [⟨true, .outline, ""⟩] else []) ++ markers.map Marker.outlet
  | image _ _ _ markers => markers.map Marker.outlet
  | text _ _ _ | group _ _ => []

/-- Whether a list of connections is the block of an outlet: a spot is one anchor, and of an edge or a region
the trace comes first and has only anchors after it. Every entry bears the name. -/
inductive IsBlock (name : String) : Outlet → List (Connection α) → Prop
  | spot {own : Bool} {label : String} (a : Anchor α) :
    a.name = name → IsBlock name ⟨own, .point, label⟩ [.anchor a]
  | edge {label : String} (t : EdgeTrace α) (anchors : List (Anchor α)) :
    t.name = name → (∀ a ∈ anchors, a.name = name) →
    IsBlock name ⟨t.own, .ofEdge t.kind, label⟩ (.edge t :: anchors.map .anchor)
  | region {label : String} (t : RegionTrace α) (anchors : List (Anchor α)) :
    t.name = name → (∀ a ∈ anchors, a.name = name) →
    IsBlock name ⟨t.own, .ofRegion t.kind, label⟩ (.region t :: anchors.map .anchor)

theorem IsBlock.name?_eq {name : String} {outlet : Outlet} {block : List (Connection α)}
    (h : IsBlock name outlet block) : ∀ c ∈ block, c.name? = some name := by
  have hanchors : ∀ {anchors : List (Anchor α)}, (∀ a ∈ anchors, a.name = name) →
      ∀ c ∈ anchors.map Connection.anchor, c.name? = some name := by
    intro anchors hnames c hc
    obtain ⟨a, ha, rfl⟩ := List.mem_map.1 hc
    exact congrArg some (hnames a ha)
  cases h with
  | spot a ha => exact List.forall_mem_singleton.2 (congrArg some ha)
  | edge t anchors ht hnames => exact List.forall_mem_cons.2 ⟨congrArg some ht, hanchors hnames⟩
  | region t anchors ht hnames => exact List.forall_mem_cons.2 ⟨congrArg some ht, hanchors hnames⟩

/-! ## Outlets of sources -/

def Source.outlet (s : Source α) : Outlet := ⟨s.own, s.anchorage.tagKind, s.label⟩

/-- What a source was sampled from, told under a name; a spot is its own sample. -/
def Source.trace? [Scalar α] (frame : Box α) (name : String) (s : Source α) : Option (Connection α) :=
  match s.anchorage with
  | .spot _ => none
  | .along e => some (.edge ⟨name, e.kind, s.own, e.points.map frame.toLocal⟩)
  | .region kind shape b => some (.region ⟨name, kind, s.own, shape, frame.boxToLocal b⟩)

theorem Marker.outlet_moved [Scalar α] (m : Marker α) (d : Point α) : (m.moved d).outlet = m.outlet := by
  obtain ⟨label, anchorage⟩ := m
  cases anchorage <;> rfl

theorem Primitive.outlet_sources [Scalar α] (p : Primitive α) : p.sources.map Source.outlet = p.outlets := by
  have hmarkers : (p.placedMarkers.map fun m => (⟨false, m.label, m.anchorage⟩ : Source α)).map Source.outlet =
      p.markers.map Marker.outlet := by
    rw [placedMarkers, List.map_map, List.map_map]
    exact List.map_congr_left fun m _ => m.outlet_moved p.markerOrigin
  rw [sources, List.map_append, hmarkers]
  cases p with
  | edge e style outline markers => cases outline <;> rfl
  | stencil shape b style outline markers => cases outline <;> rfl
  | _ => rfl

end

/-! ## Names -/

theorem pairwise_zipIdx {T : Type} (xs : List T) : xs.zipIdx.Pairwise fun x y => x.2 < y.2 := by
  rw [List.pairwise_iff_getElem]
  intro i j hi hj hij
  simpa using hij

/-- What tells the members of one list apart tells those apart that they relate to. -/
theorem pairwise_of_forall₂ {T U : Type} {R : T → U → Prop} {S : T → T → Prop} {P : U → U → Prop}
    {xs : List T} {ys : List U} (h : List.Forall₂ R xs ys) (hxs : xs.Pairwise S)
    (hP : ∀ {x x' y y'}, S x x' → R x y → R x' y' → P y y') : ys.Pairwise P := by
  obtain ⟨hlength, hrelated⟩ := List.forall₂_iff_get.1 h
  rw [List.pairwise_iff_getElem] at hxs ⊢
  intro i j hi hj hij
  exact hP (hxs i j (by omega) (by omega) hij) (hrelated i _ hi) (hrelated j _ hj)

/-! ## Blocks of compositions -/

namespace Workshop

variable {α : Type} [Scalar α] {shop : Workshop α}

/-- The points that something can be attached at. -/
def samples (shop : Workshop α) : Anchorage α → Except (Failure α) (List (Point α))
  | .spot b => .ok [b.center]
  | .along e => .ok (Sampling.edge shop.options.sampling e.kind e.points)
  | .region kind shape b => shop.region shop.options.sampling kind shape b

/-- **A block is a trace, except of a spot, and the anchors of the samples.** -/
theorem block_eq (frame : Box α) (source : Source α) (k : Nat) :
    shop.block frame source k =
      let name := Tag.text ⟨source.outlet.kind, .ofNat k, source.outlet.label⟩
      (shop.samples source.anchorage).map fun ps =>
        (source.trace? frame name).toList ++ (ps.map (Sampling.anchor frame name)).map .anchor := by
  obtain ⟨own, label, anchorage⟩ := source
  cases anchorage with
  | spot b => rfl
  | along e =>
    show Except.ok (_ :: List.map _ _) = Except.ok (_ :: List.map _ (List.map _ _))
    rw [List.map_map]
    rfl
  | region kind shape b =>
    show (shop.region _ kind shape b).map _ = (shop.region _ kind shape b).map _
    simp only [List.map_map]
    rfl

theorem isBlock_block {frame : Box α} {source : Source α} {k : Nat} {block : List (Connection α)}
    (h : shop.block frame source k = .ok block) :
    IsBlock (Tag.text ⟨source.outlet.kind, .ofNat k, source.outlet.label⟩) source.outlet block := by
  obtain ⟨own, label, anchorage⟩ := source
  rw [block_eq] at h
  obtain ⟨ps, hps, rfl⟩ := Xml.map_eq_ok h
  have hnames : ∀ name, ∀ a ∈ ps.map (Sampling.anchor frame name), a.name = name := by
    intro name a ha
    obtain ⟨p, -, rfl⟩ := List.mem_map.1 ha
    rfl
  cases anchorage with
  | spot b =>
    cases hps
    exact .spot _ rfl
  | along e => exact .edge ⟨_, e.kind, own, e.points.map frame.toLocal⟩ _ rfl (hnames _)
  | region kind shape b => exact .region ⟨_, kind, own, shape, frame.boxToLocal b⟩ _ rfl (hnames _)

/-- The anchors in a block are those of the samples; what they were sampled from is no anchor. -/
theorem exists_sample_of_mem_block {frame : Box α} {source : Source α} {k : Nat} {block : List (Connection α)}
    (h : shop.block frame source k = .ok block) {a : Anchor α} (ha : .anchor a ∈ block) :
    ∃ ps, shop.samples source.anchorage = .ok ps ∧ ∃ p ∈ ps, ∃ name, Sampling.anchor frame name p = a := by
  rw [block_eq] at h
  obtain ⟨ps, hps, rfl⟩ := Xml.map_eq_ok h
  refine ⟨ps, hps, ?_⟩
  rcases List.mem_append.1 ha with htrace | hanchor
  · obtain ⟨own, label, anchorage⟩ := source
    cases anchorage <;> cases Option.mem_toList.1 htrace
  · obtain ⟨_, hanchor, ha⟩ := List.mem_map.1 hanchor
    cases ha
    obtain ⟨p, hp, hanchor⟩ := List.mem_map.1 hanchor
    exact ⟨p, hp, _, hanchor⟩

/-- Each source has its block, and the blocks are all that there is. -/
theorem blocks_of_connections {frame : Box α} {sources : List (Source α)} {cs : List (Connection α)}
    (h : shop.connections frame sources = .ok cs) :
    ∃ blocks, cs = blocks.flatten ∧
      List.Forall₂ (fun (source, k) block => shop.block frame source k = .ok block) sources.zipIdx blocks := by
  simp only [connections, Xml.bind_eq_ok, pure, Except.pure, Except.ok.injEq] at h
  obtain ⟨blocks, hblocks, rfl⟩ := h
  exact ⟨blocks, rfl, forall₂_of_mapM hblocks⟩

/-! ## Blocks that cannot be sampled -/

theorem exists_resolve_of_region {options : SamplingOptions α} {kind : RegionKind} {shape : ShapeRef} {b : Box α}
    {e : Failure α} (h : shop.region options kind shape b = .error e) : ∃ shape, shop.resolve shape = .error e := by
  have hscan : ∀ {kind shape}, shop.scan options kind shape b = .error e → ∃ shape, shop.resolve shape = .error e := by
    intro kind shape h
    rcases bind_eq_error.1 h with hsilhouette | ⟨outlines, -, h⟩
    · exact ⟨shape, (Sampling.Scanner.of_silhouette_eq_error hsilhouette).2.2⟩
    · cases h
  match kind, shape with
  | .outline, .rectangle | .outline, .ellipse => cases h
  | .outline, .named _ | .outline, .embedded _ | .area, _ => exact hscan h

/-- **Nothing but a reference that leads nowhere** keeps sources from being sampled. -/
theorem exists_resolve_of_connections {frame : Box α} {sources : List (Source α)} {e : Failure α}
    (h : shop.connections frame sources = .error e) : ∃ shape, shop.resolve shape = .error e := by
  rcases bind_eq_error.1 h with hblocks | ⟨blocks, -, h⟩
  · obtain ⟨⟨⟨own, label, anchorage⟩, k⟩, -, hblock⟩ := exists_error_of_mapM hblocks
    have hsamples := map_eq_error ((block_eq frame _ k).symm.trans hblock)
    cases anchorage with
    | spot b => cases hsamples
    | along edge => cases hsamples
    | region kind shape b => exact exists_resolve_of_region hsamples
  · cases h

/-! ## Blocks of a composed stencil -/

/-- **The connections of a composed stencil** are one block after another, one for each outlet of the
primitives that are not texts, in their order. The block at place `k` bears the name of a tag whose number
is `k`, and no entry of it has the name of an entry of another block. Numbers have 32 bits, so there may be
no more outlets than that. -/
theorem connections_compose {selection : List (Primitive α)} {background : Background} {arrangement : Arrangement}
    {c : Composition α} (h : shop.compose selection background arrangement = .ok c)
    (hfew : ((selection.filter (!·.isText)).flatMap (·.outlets)).length < UInt32.size) :
    let outlets := (selection.filter (!·.isText)).flatMap (·.outlets)
    ∃ blocks : List (List (Connection α)), c.stencil.connections = blocks.flatten ∧
      List.Forall₂ (fun (outlet, k) block =>
          ∃ id : UInt32, id.toNat = k ∧ IsBlock (Tag.text ⟨outlet.kind, id, outlet.label⟩) outlet block)
        outlets.zipIdx blocks ∧
      blocks.Pairwise fun block other => ∀ e ∈ block, ∀ f ∈ other, e.name? ≠ f.name? := by
  intro outlets
  obtain ⟨frame, nodes, connections, -, -, -, -, hconnections, rfl⟩ := compose_eq_ok.1 h
  obtain ⟨blocks, rfl, hblocks⟩ := blocks_of_connections hconnections
  have houtlets : outlets = ((selection.filter (!·.isText)).flatMap (·.sources)).map Source.outlet := by
    simp only [outlets, List.map_flatMap, Primitive.outlet_sources]
  have hnumbers : ∀ x ∈ ((selection.filter (!·.isText)).flatMap (·.sources)).zipIdx, x.2 < UInt32.size := by
    intro x hx
    change outlets.length < UInt32.size at hfew
    rw [houtlets, List.length_map] at hfew
    exact Nat.lt_trans (List.snd_lt_of_mem_zipIdx hx) hfew
  have hnamed : List.Forall₂ (fun (outlet, k) block =>
      ∃ id : UInt32, id.toNat = k ∧ IsBlock (Tag.text ⟨outlet.kind, id, outlet.label⟩) outlet block)
        outlets.zipIdx blocks := by
    rw [houtlets, List.zipIdx_map, List.forall₂_map_left_iff]
    refine ((List.forall₂_and_left _ _).2 ⟨hnumbers, hblocks⟩).imp ?_
    rintro ⟨source, k⟩ block ⟨hk, hblock⟩
    exact ⟨.ofNat k, UInt32.toNat_ofNat_of_lt' hk, isBlock_block hblock⟩
  refine ⟨blocks, rfl, hnamed, pairwise_of_forall₂ hnamed (pairwise_zipIdx outlets) ?_⟩
  rintro ⟨outlet, i⟩ ⟨outlet', j⟩ block other hij ⟨id, hid, hblock⟩ ⟨id', hid', hother⟩ e he f hf hsame
  rw [hblock.name?_eq e he, hother.name?_eq f hf] at hsame
  have htags := Tag.text_injective (Option.some.inj hsame)
  have hids : id = id' := congrArg Tag.id htags
  subst hids
  exact absurd (hid.symm.trans hid') (Nat.ne_of_lt hij)

end Workshop

/-- A line and an ellipse that can be attached to and have markers, a text, and an image with two spots of the
same label. -/
def studded : List (Primitive Float) :=
  [.edge ⟨.line, ⟨⟨0, 0⟩, [], ⟨4, 2⟩⟩⟩ {} true [⟨"outline-1", .along ⟨.curve, ⟨⟨0, 0⟩, [⟨1, 2⟩], ⟨2, 0⟩⟩⟩⟩],
    .text "caption" ⟨0, 4, 2, 1⟩ {},
    .stencil .ellipse ⟨6, 0, 3, 2⟩ {} true [⟨"", .region .area .rectangle ⟨0, 0, 1, 1⟩⟩],
    .image "data:image/png,0" ⟨5, 5, 2, 2⟩ {} [⟨"pin", .spot ⟨0, 0, 1, 1⟩⟩, ⟨"pin", .spot ⟨0, 0, 1, 1⟩⟩]]

theorem Workshop.connections_compose_studded :
    ∃ c : Composition Float, Workshop.bare.compose studded .strokeOnly .shapes = .ok c ∧
      ∃ blocks : List (List (Connection Float)), c.stencil.connections = blocks.flatten ∧
        blocks.length = 6 ∧ blocks.Pairwise fun block other => ∀ e ∈ block, ∀ f ∈ other, e.name? ≠ f.name? := by
  have hok : (Workshop.bare.compose studded .strokeOnly .shapes).toBool = true := by decide +kernel
  obtain ⟨c, hc⟩ := exists_ok_of_toBool hok
  obtain ⟨blocks, hconnections, hblocks, hnames⟩ := Workshop.connections_compose hc (by decide)
  exact ⟨c, hc, blocks, hconnections, hblocks.length_eq.symm, hnames⟩

end StencilKit
