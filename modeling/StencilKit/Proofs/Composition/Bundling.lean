/-
Edges on their own and edges in groups.

Where all edges of a selection are drawn as one path, nothing depends on which of them are put together into groups
(`compose_bundled`). The path is joined from the edges in their order, wherever a group begins or ends; and in exact
coordinates the box around a group is spanned by the points of its edges, as the boxes around the edges are, so that
the box around the selection stays the same. A single group of all the edges is drawn by that same path where
primitives are drawn on their own.
-/
import StencilKit.Proofs.Coordinates.Hull
import StencilKit.Proofs.Composition.Composable

namespace StencilKit

section

variable {α : Type}

/-- Whether the second selection comes of the first one by putting runs of its primitives together into groups. The
first one has only lines and curves that nothing can be attached to. -/
inductive Bundles : List (Primitive α) → List (Primitive α) → Prop
  | nil : Bundles [] []
  | keep (e : Edge α) (style : Style α) {loose bundled : List (Primitive α)} : Bundles loose bundled →
    Bundles (.edge e style false [] :: loose) (.edge e style false [] :: bundled)
  | bundle (run : List (Edge α × Style α)) (style : Style α) {loose bundled : List (Primitive α)} : run ≠ [] →
    Bundles loose bundled →
    Bundles (run.map (fun (e, style) => .edge e style false []) ++ loose) (.group (run.map Prod.fst) style :: bundled)

variable [Scalar α]

/-- A composition of one path, with what paints it. -/
def Composition.ofPath (frame : Box α) (path : Path α) (painting : List (Node α)) : Composition α :=
  ⟨{ w := frame.w, h := frame.h, connections := [], foreground := .fillStroke :: .path path :: painting }, frame, []⟩

/-- The box around a selection, which has to have an area, and the path of all edges in it. -/
def Workshop.framedPath (shop : Workshop α) (selection : List (Primitive α)) : Except (Failure α) (Box α × Path α) :=
  frameOf selection >>= fun frame =>
    if frame.isDegenerate then .error (.degenerateBounds frame.w frame.h)
    else (shop.joined frame (selection.flatMap (·.ownEdges))).map fun path => (frame, path)

/-! ## Linework -/

namespace Primitive

/-- Whether a primitive is drawn by edges, and nothing can be attached to it. -/
structure IsLinework (p : Primitive α) : Prop where
  edges : p.ownEdges ≠ []
  sources : p.sources = []

variable {p : Primitive α}

theorem IsLinework.edge (e : Edge α) (style : Style α) : (Primitive.edge e style false []).IsLinework :=
  ⟨List.cons_ne_nil e [], rfl⟩

theorem IsLinework.group {edges : List (Edge α)} (h : edges ≠ []) (style : Style α) :
    (Primitive.group edges style).IsLinework :=
  ⟨h, rfl⟩

theorem IsLinework.isBoxed (h : p.IsLinework) : p.isBoxed = false := by
  cases p with
  | stencil shape b style outline markers => exact absurd rfl h.edges
  | image src b style markers => exact absurd rfl h.edges
  | _ => rfl

theorem IsLinework.isText (h : p.IsLinework) : p.isText = false := by
  cases p with
  | text value b style => exact absurd rfl h.edges
  | _ => rfl

/-- The box around edges is spanned by the points of the edges, on their own or in a group. -/
theorem IsLinework.spanning (h : p.IsLinework) : p.spanning = p.ownEdges.flatMap Edge.points := by
  cases p with
  | edge e style outline markers => exact (List.flatMap_singleton Edge.points e).symm
  | group edges style =>
    cases edges with
    | nil => exact absurd rfl h.edges
    | cons e es => rfl
  | _ => exact absurd rfl h.edges

end Primitive

/-- Linework of no edges is no linework. -/
theorem eq_nil_of_flatMap_ownEdges {selection : List (Primitive α)} (h : ∀ p ∈ selection, p.IsLinework)
    (hnil : selection.flatMap (·.ownEdges) = []) : selection = [] := by
  cases selection with
  | nil => rfl
  | cons p ps =>
    rw [List.flatMap_cons, List.append_eq_nil_iff] at hnil
    exact absurd hnil.1 (h p List.mem_cons_self).edges

namespace Workshop

variable {shop : Workshop α} {selection : List (Primitive α)}

/-- **Linework drawn as one path** is a path of all its edges, and nothing besides. -/
theorem compose_linework (h : ∀ p ∈ selection, p.IsLinework) (hne : selection ≠ []) (background : Background) :
    shop.compose selection background .singlePath =
      (shop.framedPath selection).map fun (frame, path) => .ofPath frame path [.fillStroke] := by
  have hbody : selection.filter (!·.isText) = selection :=
    List.filter_eq_self.2 fun p hp => by simp [(h p hp).isText]
  have htexts : selection.filter (·.isText) = [] :=
    List.filter_eq_nil_iff.2 fun p hp => by simp [(h p hp).isText]
  have hsources : selection.flatMap (·.sources) = [] :=
    List.flatMap_eq_nil_iff.2 fun p hp => (h p hp).sources
  have hdraw : ∀ frame, shop.drawBody frame background .singlePath selection =
      (shop.joined frame (selection.flatMap (·.ownEdges))).map fun path => [.path path, .fillStroke] := by
    intro frame
    rw [← drawPath_of_edges (fun p hp => (h p hp).isBoxed) frame, hbody]
    rfl
  rw [compose_eq]
  dsimp only
  rw [hbody, htexts, hsources, if_neg (by simpa using hne), framedPath]
  cases frameOf selection with
  | error e => rfl
  | ok frame =>
    show (if frame.isDegenerate = true then _ else _) = Except.map _ (if frame.isDegenerate = true then _ else _)
    split
    · rfl
    · rw [hdraw]
      cases shop.joined frame (selection.flatMap (·.ownEdges)) <;> rfl

/-- **A group that is drawn on its own** is the path of its edges, painted in its style. -/
theorem compose_group (edges : List (Edge α)) (style : Style α) (background : Background) :
    shop.compose [.group edges style] background .shapes =
      (shop.framedPath [.group edges style]).map fun (frame, path) =>
        .ofPath frame path (style.nodes background) := by
  have hdraw : ∀ frame, shop.drawBody frame background .shapes [.group edges style] =
      (shop.joined frame edges).map fun path => .path path :: style.nodes background := by
    intro frame
    show shop.drawShapes frame background [.group edges style] = _
    rw [drawShapes, List.mapM_cons, draw]
    cases shop.joined frame edges with
    | error e => rfl
    | ok path => exact congrArg Except.ok (List.append_nil _)
  have hedges : [Primitive.group edges style].flatMap (·.ownEdges) = edges := List.append_nil edges
  rw [compose_eq, framedPath, hedges]
  show (frameOf _ >>= _) = _
  cases frameOf [Primitive.group edges style] with
  | error e => rfl
  | ok frame =>
    show (if frame.isDegenerate = true then _ else _) = Except.map _ (if frame.isDegenerate = true then _ else _)
    split
    · rfl
    · show shop.drawBody frame background .shapes [.group edges style] >>= _ = _
      rw [hdraw]
      cases shop.joined frame edges <;> rfl

end Workshop

/-! ## Bundles -/

variable {loose bundled : List (Primitive α)}

theorem Bundles.isLinework (h : Bundles loose bundled) :
    (∀ p ∈ loose, p.IsLinework) ∧ ∀ p ∈ bundled, p.IsLinework := by
  induction h with
  | nil => exact ⟨List.forall_mem_nil _, List.forall_mem_nil _⟩
  | keep e style _ ih =>
    exact ⟨List.forall_mem_cons.2 ⟨.edge e style, ih.1⟩,
      List.forall_mem_cons.2 ⟨.edge e style, ih.2⟩⟩
  | bundle run style hrun _ ih =>
    have hedges : ∀ x ∈ run, (Primitive.edge x.1 x.2 false []).IsLinework := fun x _ => .edge x.1 x.2
    exact ⟨List.forall_mem_append.2 ⟨List.forall_mem_map.2 hedges, ih.1⟩,
      List.forall_mem_cons.2 ⟨.group (by simpa using hrun) style, ih.2⟩⟩

omit [Scalar α] in
/-- Putting edges together into groups keeps the edges and their order. -/
theorem Bundles.ownEdges_eq (h : Bundles loose bundled) :
    bundled.flatMap (·.ownEdges) = loose.flatMap (·.ownEdges) := by
  induction h with
  | nil => rfl
  | keep e style _ ih => rw [List.flatMap_cons, List.flatMap_cons, ih]
  | bundle run style _ _ ih =>
    have hrun : (run.map fun (e, style) => Primitive.edge e style false []).flatMap (·.ownEdges) =
        run.map Prod.fst := by
      rw [List.flatMap_map]
      exact List.flatMap_pure_eq_map Prod.fst run
    rw [List.flatMap_cons, List.flatMap_append, hrun, ih]
    rfl

end

/-! ## In exact coordinates -/

variable {K : Type} [Field K] [LinearOrder K] [FloorRing K] [Transcendental K]

/-- Points have no more than one hull. -/
theorem Box.IsHull.unique {b c : Box K} {ps : List (Point K)} (h : b.IsHull ps) (h' : c.IsHull ps) : b = c :=
  (h'.contained h.covers).antisymm (h.contained h'.covers)

namespace Workshop

variable {shop : Workshop K} {selection selection' loose bundled : List (Primitive K)}

/-- There is a box around a selection if there is anything in it. -/
theorem exists_frameOf (h : selection ≠ []) : ∃ frame, frameOf selection = .ok frame := by
  obtain ⟨p, ps, rfl⟩ := List.exists_cons_of_ne_nil h
  have hcorner : p.bounds.origin ∈ ((p :: ps).map (·.bounds)).flatMap fun b => [b.origin, b.far] := by simp
  obtain ⟨b, hb, -⟩ := (Extent.holds_ofPoints hcorner).exists_box
  exact ⟨b, frameOf_eq_ok.2 (by rw [Box.around?, Extent.ofBoxes_eq, hb])⟩

/-- **The box around linework** depends on the edges alone. -/
theorem frameOf_linework (h : ∀ p ∈ selection, p.IsLinework) (h' : ∀ p ∈ selection', p.IsLinework)
    (hedges : selection.flatMap (·.ownEdges) = selection'.flatMap (·.ownEdges)) :
    frameOf selection = frameOf selection' := by
  have hspanning : ∀ {ps : List (Primitive K)}, (∀ p ∈ ps, p.IsLinework) →
      ps.flatMap (·.spanning) = (ps.flatMap (·.ownEdges)).flatMap Edge.points := by
    intro ps hps
    rw [List.flatMap_assoc]
    exact List.flatMap_congr fun p hp => (hps p hp).spanning
  by_cases hnil : selection.flatMap (·.ownEdges) = []
  · rw [eq_nil_of_flatMap_ownEdges h hnil, eq_nil_of_flatMap_ownEdges h' (hedges.symm.trans hnil)]
  · have hne : selection ≠ [] := fun h => hnil (by rw [h]; rfl)
    have hne' : selection' ≠ [] := fun h => hnil (by rw [hedges, h]; rfl)
    obtain ⟨frame, hframe⟩ := exists_frameOf hne
    obtain ⟨frame', hframe'⟩ := exists_frameOf hne'
    have hhull := isHull_of_frameOf hframe
    have hhull' := isHull_of_frameOf hframe'
    rw [hspanning h, hedges] at hhull
    rw [hspanning h'] at hhull'
    rw [hframe, hframe', hhull.unique hhull']

/-- **Linework of the same edges in the same order** has the same box and the same path. -/
theorem framedPath_linework (h : ∀ p ∈ selection, p.IsLinework) (h' : ∀ p ∈ selection', p.IsLinework)
    (hedges : selection.flatMap (·.ownEdges) = selection'.flatMap (·.ownEdges)) :
    shop.framedPath selection = shop.framedPath selection' := by
  rw [framedPath, framedPath, frameOf_linework h h' hedges, hedges]

/-- There is no path of no edges. -/
theorem ownEdges_of_framedPath {x : Box K × Path K} (h : shop.framedPath selection = .ok x) :
    selection.flatMap (·.ownEdges) ≠ [] := by
  intro hnil
  obtain ⟨frame, -, h⟩ := Xml.bind_eq_ok.1 h
  rw [hnil] at h
  split at h
  · cases h
  · obtain ⟨path, hpath, -⟩ := Xml.map_eq_ok h
    cases hpath

/-- **Edges in groups and edges on their own.** Drawn as one path, a selection of lines and curves that nothing can be
attached to comes to the same composition, or fails for the same reason, when runs of it are put together into groups.
A group of all its edges that is drawn on its own can be composed exactly if they can, takes the same box, and is
drawn by the same path; it is painted in the group's style. -/
theorem compose_bundled (h : Bundles loose bundled) (background background' : Background) (style : Style K) :
    let whole : List (Primitive K) := [.group (loose.flatMap (·.ownEdges)) style]
    shop.compose bundled background .singlePath = shop.compose loose background .singlePath ∧
    ((∃ c, shop.compose whole background' .shapes = .ok c) ↔
      ∃ c, shop.compose loose background .singlePath = .ok c) ∧
    ∀ c c', shop.compose loose background .singlePath = .ok c → shop.compose whole background' .shapes = .ok c' →
      c'.bounds = c.bounds ∧ ∃ path, c.stencil.foreground = [.fillStroke, .path path, .fillStroke] ∧
        c'.stencil.foreground = .fillStroke :: .path path :: style.nodes background' := by
  intro whole
  obtain ⟨hloose, hbundled⟩ := h.isLinework
  have hwhole : shop.compose whole background' .shapes = _ := compose_group _ style background'
  by_cases hnil : loose = []
  · subst hnil
    obtain rfl : bundled = [] := eq_nil_of_flatMap_ownEdges hbundled h.ownEdges_eq
    have hnone : ∀ c, shop.compose whole background' .shapes ≠ .ok c := by
      intro c hc
      obtain ⟨x, hx, -⟩ := Xml.map_eq_ok (hwhole.symm.trans hc)
      exact ownEdges_of_framedPath hx rfl
    exact ⟨rfl, ⟨fun ⟨c, hc⟩ => absurd hc (hnone c), fun ⟨c, hc⟩ => by cases hc⟩, fun c c' hc => by cases hc⟩
  · have hedges : loose.flatMap (·.ownEdges) ≠ [] := fun h => hnil (eq_nil_of_flatMap_ownEdges hloose h)
    have hne : bundled ≠ [] := by
      rintro rfl
      exact hedges h.ownEdges_eq.symm
    have hgroup : ∀ p ∈ whole, p.IsLinework := List.forall_mem_singleton.2 (.group hedges style)
    have hsame : shop.framedPath whole = shop.framedPath loose :=
      framedPath_linework hgroup hloose (List.append_nil _)
    have hone : shop.compose loose background .singlePath = _ := compose_linework hloose hnil background
    rw [hsame] at hwhole
    refine ⟨?_, ?_, ?_⟩
    · rw [hone, compose_linework hbundled hne, framedPath_linework hbundled hloose h.ownEdges_eq]
    · rw [hwhole, hone, exists_ok_map, exists_ok_map]
    · intro c c' hc hc'
      obtain ⟨⟨frame, path⟩, hpath, rfl⟩ := Xml.map_eq_ok (hone.symm.trans hc)
      obtain ⟨_, hpath', rfl⟩ := Xml.map_eq_ok (hwhole.symm.trans hc')
      cases hpath.symm.trans hpath'
      exact ⟨rfl, path, rfl, rfl⟩

/-- Two lines and a curve end to end, the curve and the second line backwards. -/
def strands : List (Primitive ℚ) :=
  [.edge ⟨.line, ⟨⟨0, 0⟩, [], ⟨4, 1⟩⟩⟩ {} false [],
    .edge ⟨.line, ⟨⟨6, 2⟩, [⟨5, 7⟩], ⟨4, 1⟩⟩⟩ { dashed := true } false [],
    .edge ⟨.curve, ⟨⟨9, 9⟩, [⟨8, -3⟩], ⟨6, 2⟩⟩⟩ {} false []]

/-- The same lines in a group, and the curve. -/
def braid : List (Primitive ℚ) :=
  [.group [⟨.line, ⟨⟨0, 0⟩, [], ⟨4, 1⟩⟩⟩, ⟨.line, ⟨⟨6, 2⟩, [⟨5, 7⟩], ⟨4, 1⟩⟩⟩] { stroke := "#ff0000" },
    .edge ⟨.curve, ⟨⟨9, 9⟩, [⟨8, -3⟩], ⟨6, 2⟩⟩⟩ {} false []]

theorem compose_bundled_braid :
    Bundles strands braid ∧ ∃ c c' : Composition ℚ, bare.compose strands .filled .singlePath = .ok c ∧
      bare.compose braid .filled .singlePath = .ok c ∧
      bare.compose [.group (strands.flatMap (·.ownEdges)) {}] .strokeOnly .shapes = .ok c' ∧
      c'.bounds = c.bounds := by
  have hbundles : Bundles strands braid :=
    .bundle [(⟨.line, ⟨⟨0, 0⟩, [], ⟨4, 1⟩⟩⟩, {}), (⟨.line, ⟨⟨6, 2⟩, [⟨5, 7⟩], ⟨4, 1⟩⟩⟩, { dashed := true })] _
      (List.cons_ne_nil _ _) (.keep _ _ .nil)
  have hok : (bare.compose strands .filled .singlePath).toBool = true := by decide +kernel
  obtain ⟨c, hc⟩ := exists_ok_of_toBool hok
  obtain ⟨hsame, hiff, hdrawn⟩ : bare.compose braid .filled .singlePath = _ ∧ _ :=
    compose_bundled hbundles .filled .strokeOnly {}
  obtain ⟨c', hc'⟩ := hiff.2 ⟨c, hc⟩
  exact ⟨hbundles, c, c', hc, hsame.trans hc, hc', (hdrawn c c' hc hc').1⟩

end Workshop

end StencilKit
