/-
A selection in another place.

Where a selection lies is no matter to the stencil that is composed from it: in exact coordinates, moving all
primitives alike moves the box that the stencil takes and the texts that are left out of it, and changes nothing
else (`compose_moved`). A selection that cannot be composed cannot be composed elsewhere, for the same reason.
-/
import StencilKit.Proofs.Chain.Translation
import StencilKit.Proofs.Composition.Blocks

namespace StencilKit

/-- A source of attachment points in another place. -/
def Source.moved {α : Type} [Scalar α] (s : Source α) (d : Point α) : Source α :=
  { s with anchorage := s.anchorage.moved d }

/-- A composition in another place: the same stencil with other bounds and texts. -/
def Composition.moved {α : Type} [Scalar α] (c : Composition α) (d : Point α) : Composition α :=
  { c with bounds := c.bounds.moved d, texts := c.texts.map (·.moved d) }

/-- What goes on from an outcome alike has like outcomes. -/
theorem bind_congr_outcome {ε T T' U V : Type} {x : Except ε T} {x' : Except ε T'} {f : T → Except ε U}
    {f' : T' → Except ε V} {t : T → T'} {u : U → V} {h : ε → ε} (hx : x' = (x.map t).mapError h)
    (hf : ∀ a, f' (t a) = ((f a).map u).mapError h) : x' >>= f' = ((x >>= f).map u).mapError h := by
  subst hx
  cases x with
  | error e => rfl
  | ok a => exact hf a

/-- Running through a list, each member of which has the outcome of another one with its result and its failure
changed, has the outcome of running through the others. -/
theorem mapM_congr_outcome {ε T U V : Type} {f : T → Except ε V} {g : T → Except ε U} {u : U → V} {h : ε → ε}
    {xs : List T} (hfg : ∀ x ∈ xs, f x = ((g x).map u).mapError h) :
    xs.mapM f = ((xs.mapM g).map (·.map u)).mapError h := by
  induction xs with
  | nil => rfl
  | cons x xs ih =>
    obtain ⟨hx, hxs⟩ := List.forall_mem_cons.1 hfg
    rw [List.mapM_cons, List.mapM_cons]
    exact bind_congr_outcome hx fun y => bind_congr_outcome (ih hxs) fun ys => rfl

section

variable {K : Type} [Field K] [LinearOrder K] [FloorRing K] [Transcendental K] (d : Point K)

theorem Route.moved_moved (r : Route K) (e : Point K) : (r.moved d).moved e = r.moved (d + e) := by
  simp [moved, Point.add_add]

theorem Anchorage.moved_moved (a : Anchorage K) (e : Point K) : (a.moved d).moved e = a.moved (d + e) := by
  cases a with
  | spot b => exact congrArg spot (b.moved_moved d e)
  | along edge => exact congrArg (fun r => along ⟨edge.kind, r⟩) (edge.route.moved_moved d e)
  | region kind shape b => exact congrArg (region kind shape) (b.moved_moved d e)

theorem Marker.moved_moved (m : Marker K) (e : Point K) : (m.moved d).moved e = m.moved (d + e) :=
  congrArg (Marker.mk m.label) (m.anchorage.moved_moved d e)

/-- Markers move with what they belong to: those of an edge have moved along, and those of a box are relative to
its origin. -/
theorem Primitive.placedMarkers_moved (p : Primitive K) :
    (p.moved d).placedMarkers = p.placedMarkers.map (·.moved d) := by
  cases p with
  | edge e style outline markers =>
    have hzero : d + 0 = 0 + d := Point.ext (add_comm _ _) (add_comm _ _)
    show (markers.map (·.moved d)).map (·.moved 0) = (markers.map (·.moved 0)).map (·.moved d)
    rw [List.map_map, List.map_map]
    refine List.map_congr_left fun m _ => ?_
    show (m.moved d).moved 0 = (m.moved 0).moved d
    rw [m.moved_moved, m.moved_moved, hzero]
  | stencil shape b style outline markers | image src b style markers =>
    show markers.map (·.moved (b.origin + d)) = (markers.map (·.moved b.origin)).map (·.moved d)
    rw [List.map_map]
    exact List.map_congr_left fun m _ => (m.moved_moved b.origin d).symm
  | text value b style => rfl
  | group edges style => rfl

theorem Primitive.sources_moved (p : Primitive K) : (p.moved d).sources = p.sources.map (·.moved d) := by
  have hown : (p.moved d).ownSource?.toList = p.ownSource?.toList.map (·.moved d) := by
    cases p with
    | edge e style outline markers => cases outline <;> rfl
    | stencil shape b style outline markers => cases outline <;> rfl
    | _ => rfl
  rw [sources, sources, hown, placedMarkers_moved, List.map_append, List.map_map, List.map_map]
  rfl

theorem Source.trace?_moved (s : Source K) (frame : Box K) (name : String) :
    (s.moved d).trace? (frame.moved d) name = s.trace? frame name := by
  obtain ⟨own, label, anchorage⟩ := s
  cases anchorage with
  | spot b => rfl
  | along e =>
    have hpoints : (e.moved d).points.map (frame.moved d).toLocal = e.points.map frame.toLocal := by
      rw [Edge.points_moved, List.map_map]
      exact List.map_congr_left fun p _ => frame.toLocal_moved d p
    show some (Connection.edge ⟨name, e.kind, own, _⟩) = some (Connection.edge ⟨name, e.kind, own, _⟩)
    rw [hpoints]
  | region kind shape b =>
    exact congrArg (fun r => some (Connection.region ⟨name, kind, own, shape, r⟩)) (frame.boxToLocal_moved d b)

namespace Workshop

variable (shop : Workshop K)

/-- What is no edge is none in any place. -/
theorem edgesOf_moved (p : Primitive K) (k : Nat) :
    edgesOf (p.moved d) k = ((edgesOf p k).map (·.map (·.moved d))).mapError (·.moved d) := by
  cases p <;> rfl

theorem edgePath_moved (frame : Box K) (e : Edge K) (style : Style K) :
    shop.edgePath (frame.moved d) (e.moved d) style = shop.edgePath frame e style := by
  have hpoints : (e.moved d).points.map (· - (frame.moved d).origin) = e.points.map (· - frame.origin) := by
    rw [Edge.points_moved, List.map_map]
    exact List.map_congr_left fun p _ => Point.add_sub_add d p frame.origin
  rw [edgePath, edgePath, hpoints]
  rfl

end Workshop

end

variable {K : Type} [Field K] [LinearOrder K] [IsStrictOrderedRing K] [FloorRing K] [Transcendental K] (d : Point K)

namespace Workshop

variable (shop : Workshop K)

theorem joined_moved (frame : Box K) (edges : List (Edge K)) :
    shop.joined (frame.moved d) (edges.map (·.moved d)) = (shop.joined frame edges).mapError (·.moved d) :=
  Chain.path_moved d frame.origin edges

theorem draw_moved (frame : Box K) (p : Primitive K) :
    shop.draw (frame.moved d) (p.moved d) = (shop.draw frame p).mapError (·.moved d) := by
  cases p with
  | edge e style outline markers =>
    show Except.ok (some (Node.path (shop.edgePath (frame.moved d) (e.moved d) style))) = _
    rw [edgePath_moved]
    rfl
  | stencil shape b style outline markers =>
    have hbox : (frame.moved d).boxToLocal (b.moved d) = frame.boxToLocal b := frame.boxToLocal_moved d b
    cases shape <;> simp [draw, Primitive.moved, hbox, Except.mapError]
  | image src b style markers =>
    have hbox : (frame.moved d).boxToLocal (b.moved d) = frame.boxToLocal b := frame.boxToLocal_moved d b
    simp [draw, Primitive.moved, hbox, Except.mapError]
  | text value b style => rfl
  | group edges style =>
    show (shop.joined (frame.moved d) (edges.map (·.moved d))).map _ = _
    rw [joined_moved]
    show _ = ((shop.joined frame edges).map _).mapError _
    cases shop.joined frame edges <;> rfl

theorem drawBody_moved (frame : Box K) (background : Background) (arrangement : Arrangement)
    (body : List (Primitive K)) :
    shop.drawBody (frame.moved d) background arrangement (body.map (·.moved d)) =
      ((shop.drawBody frame background arrangement body).map id).mapError (·.moved d) := by
  cases arrangement with
  | shapes =>
    have hdraw : ∀ p ∈ body, ((shop.draw (frame.moved d) (p.moved d)).map fun node =>
        node.toList ++ (p.moved d).style.nodes background) =
          (((shop.draw frame p).map fun node => node.toList ++ p.style.nodes background).map id).mapError
            (·.moved d) := by
      intro p _
      have hstyle : (p.moved d).style = p.style := by cases p <;> rfl
      rw [draw_moved, hstyle]
      cases shop.draw frame p <;> rfl
    show shop.drawShapes _ _ _ = ((shop.drawShapes _ _ _).map id).mapError _
    rw [drawShapes, drawShapes, List.mapM_map]
    exact bind_congr_outcome (mapM_congr_outcome hdraw) fun nodes => by rw [List.map_id]; rfl
  | singlePath =>
    have hedges := mapM_congr_outcome fun x (_ : x ∈ body.zipIdx) => edgesOf_moved d x.1 x.2
    show shop.drawPath _ _ = ((shop.drawPath _ _).map id).mapError _
    rw [drawPath, drawPath, List.zipIdx_map, List.mapM_map]
    refine bind_congr_outcome hedges fun edges => ?_
    have hjoined := shop.joined_moved d frame edges.flatten
    rw [List.map_flatten] at hjoined
    have hpath : shop.joined (frame.moved d) (edges.map (·.map (·.moved d))).flatten =
        ((shop.joined frame edges.flatten).map id).mapError (·.moved d) := by
      rw [hjoined, Except.map_id, id]
    exact bind_congr_outcome hpath fun path => rfl

theorem samples_moved (a : Anchorage K) : shop.samples (a.moved d) = (shop.samples a).map (·.map (· + d)) := by
  cases a with
  | spot b => exact congrArg (fun p => Except.ok [p]) (b.center_moved d)
  | along e =>
    show Except.ok (Sampling.edge _ e.kind (e.moved d).points) = _
    rw [Edge.points_moved, Sampling.edge_moved]
    rfl
  | region kind shape b => exact Sampling.Scanner.region_moved d shop.toScanner shop.options.sampling kind shape b

theorem block_moved (frame : Box K) (source : Source K) (k : Nat) :
    shop.block (frame.moved d) (source.moved d) k = shop.block frame source k := by
  have houtlet : (source.moved d).outlet = source.outlet := by
    obtain ⟨own, label, anchorage⟩ := source
    cases anchorage <;> rfl
  have hanchors : ∀ (name : String) (ps : List (Point K)),
      (ps.map (· + d)).map (Sampling.anchor (frame.moved d) name) = ps.map (Sampling.anchor frame name) := by
    intro name ps
    rw [List.map_map]
    exact List.map_congr_left fun p _ => Sampling.anchor_moved d frame name p
  rw [block_eq, block_eq, houtlet]
  dsimp only
  rw [source.trace?_moved]
  show (shop.samples (source.anchorage.moved d)).map _ = (shop.samples source.anchorage).map _
  rw [samples_moved]
  cases shop.samples source.anchorage with
  | error e => rfl
  | ok ps => exact congrArg (fun as => Except.ok (_ ++ as.map Connection.anchor)) (hanchors _ ps)

theorem connections_moved (frame : Box K) (sources : List (Source K)) :
    shop.connections (frame.moved d) (sources.map (·.moved d)) = shop.connections frame sources := by
  rw [connections, connections, List.zipIdx_map, List.mapM_map]
  simp only [Function.comp_def, Prod.map, id, block_moved]

theorem frameOf_moved {selection : List (Primitive K)}
    (hgroups : ∀ edges style, Primitive.group edges style ∈ selection → edges ≠ []) :
    frameOf (selection.map (·.moved d)) = ((frameOf selection).map (·.moved d)).mapError (·.moved d) := by
  have hbounds : (selection.map (·.moved d)).map Primitive.bounds =
      (selection.map Primitive.bounds).map (·.moved d) := by
    rw [List.map_map, List.map_map]
    refine List.map_congr_left fun p hp => Primitive.bounds_moved d ?_
    rintro edges style rfl
    exact hgroups edges style hp
  rw [frameOf, frameOf, Box.around?, Box.around?, hbounds, Extent.box?_ofBoxes_moved]
  cases (Extent.ofBoxes (selection.map Primitive.bounds)).box? <;> rfl

/-- **A selection in another place** comes to the same stencil, with bounds and texts that have moved with it; and
it fails to be composed just as it did, only that the end at which edges do not join has moved. All groups have
to have edges, since the box around none does not move, and whether edges join is nothing that a reference can
fail for. -/
theorem compose_moved {selection : List (Primitive K)}
    (hgroups : ∀ edges style, Primitive.group edges style ∈ selection → edges ≠ [])
    (hresolve : ∀ shape stitched remaining stop, shop.resolve shape ≠ .error (.disconnected stitched remaining stop))
    (background : Background) (arrangement : Arrangement) :
    shop.compose (selection.map (·.moved d)) background arrangement =
      ((shop.compose selection background arrangement).map (·.moved d)).mapError (·.moved d) := by
  have htext : ∀ p : Primitive K, (p.moved d).isText = p.isText := by
    intro p
    cases p <;> rfl
  have hbody : (selection.map (·.moved d)).filter (!·.isText) = (selection.filter (!·.isText)).map (·.moved d) := by
    rw [List.filter_map]
    exact congrArg _ (List.filter_congr fun p _ => congrArg not (htext p))
  have htexts : (selection.map (·.moved d)).filter (·.isText) = (selection.filter (·.isText)).map (·.moved d) := by
    rw [List.filter_map]
    exact congrArg _ (List.filter_congr fun p _ => htext p)
  have hsources : ((selection.filter (!·.isText)).map (·.moved d)).flatMap (·.sources) =
      ((selection.filter (!·.isText)).flatMap (·.sources)).map (·.moved d) := by
    rw [List.flatMap_map, List.map_flatMap]
    exact List.flatMap_congr fun p _ => p.sources_moved d
  rw [compose_eq, compose_eq]
  dsimp only
  rw [hbody, htexts, hsources, List.isEmpty_map]
  split
  · rfl
  refine bind_congr_outcome (frameOf_moved d hgroups) fun frame => ?_
  show (if frame.isDegenerate = true then _ else _) = _
  split
  · rfl
  refine bind_congr_outcome (shop.drawBody_moved d frame background arrangement _) fun nodes => ?_
  rw [id, connections_moved]
  cases hconnections : shop.connections frame ((selection.filter (!·.isText)).flatMap (·.sources)) with
  | ok connections => rfl
  | error e =>
    obtain ⟨shape, hshape⟩ := exists_resolve_of_connections hconnections
    cases e with
    | disconnected stitched remaining stop => exact absurd hshape (hresolve shape stitched remaining stop)
    | _ => rfl

end Workshop

/-- A curve with a marker, a box with one, a text, and two edges that are drawn as one path. -/
def strewn : List (Primitive ℚ) :=
  [.edge ⟨.curve, ⟨⟨0, 0⟩, [⟨1, 3⟩, ⟨2, -1⟩], ⟨4, 0⟩⟩⟩ {} true [⟨"start", .along ⟨.line, ⟨⟨0, 0⟩, [], ⟨1, 3⟩⟩⟩⟩],
    .stencil .ellipse ⟨6, 1, 3, 2⟩ {} true [⟨"", .region .area .rectangle ⟨0, 0, 1, 1⟩⟩],
    .text "caption" ⟨0, 6, 2, 1⟩ {},
    .group [⟨.line, ⟨⟨6, 6⟩, [], ⟨7, 8⟩⟩⟩, ⟨.line, ⟨⟨9, 9⟩, [], ⟨7, 8⟩⟩⟩] {}]

theorem Workshop.compose_moved_strewn :
    ∃ c : Composition ℚ, Workshop.bare.compose strewn .filled .shapes = .ok c ∧
      Workshop.bare.compose (strewn.map (·.moved ⟨3, -2⟩)) .filled .shapes = .ok (c.moved ⟨3, -2⟩) := by
  have hgroups : ∀ edges style, Primitive.group edges style ∈ strewn → edges ≠ [] := by simp [strewn]
  have hresolve : ∀ shape stitched remaining stop,
      (Workshop.bare : Workshop ℚ).resolve shape ≠ .error (.disconnected stitched remaining stop) :=
    fun _ _ _ _ h => by cases h
  have hok : (Workshop.bare.compose strewn .filled .shapes).toBool = true := by decide +kernel
  obtain ⟨c, hc⟩ := exists_ok_of_toBool hok
  have hmoved := Workshop.bare.compose_moved ⟨3, -2⟩ hgroups hresolve .filled .shapes
  rw [hc] at hmoved
  exact ⟨c, hc, hmoved⟩

end StencilKit
