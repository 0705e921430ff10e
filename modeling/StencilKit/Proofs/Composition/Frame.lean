/-
What a composed stencil is, and how large.

`Workshop.compose_eq_ok` says all that a composition can come to. The stencil has the size of the box
that it was composed in, which has an area, and whose origin is finite whenever the size is; and it
holds no entry without a meaning, since every entry was made by one of a few hands.
-/
import StencilKit.Composition
import StencilKit.Proofs.Binary64.Numbers
import StencilKit.Proofs.Stencil.Elements

namespace StencilKit

/-- What does not fail has a result. -/
theorem exists_ok_of_toBool {ε β : Type} {x : Except ε β} (h : x.toBool = true) : ∃ b, x = .ok b := by
  cases x with
  | error e => cases h
  | ok b => exact ⟨b, rfl⟩

theorem exists_ok_of_any {ε β : Type} {x : Except ε β} {P : β → Bool} (h : x.toOption.any P = true) :
    ∃ b, x = .ok b ∧ P b = true := by
  cases x with
  | error e => cases h
  | ok b => exact ⟨b, rfl, h⟩

theorem Box.isDegenerate_eq_false {α : Type} [Scalar α] {b : Box α} : b.isDegenerate = false ↔ 0 < b.w ∧ 0 < b.h := by
  simp only [isDegenerate, Bool.not_eq_false', Bool.and_eq_true, decide_eq_true_eq]

namespace Workshop

section

variable {α : Type} [Scalar α] {shop : Workshop α}

/-- What draws the body of a selection. -/
def drawBody (shop : Workshop α) (frame : Box α) (background : Background) (arrangement : Arrangement)
    (body : List (Primitive α)) : Except (Failure α) (List (Node α)) :=
  match arrangement with
  | .shapes => shop.drawShapes frame background body
  | .singlePath => shop.drawPath frame body

/-- The steps of a composition, each of which may fail. -/
theorem compose_eq (selection : List (Primitive α)) (background : Background) (arrangement : Arrangement) :
    shop.compose selection background arrangement =
      let body := selection.filter (!·.isText)
      if body.isEmpty then .error .emptySelection
      else frameOf selection >>= fun frame =>
        if frame.isDegenerate then .error (.degenerateBounds frame.w frame.h)
        else shop.drawBody frame background arrangement body >>= fun nodes =>
          (shop.connections frame (body.flatMap (·.sources))).map fun connections =>
            ⟨{ w := frame.w, h := frame.h, connections, foreground := .fillStroke :: nodes }, frame,
              selection.filter (·.isText)⟩ := by
  unfold compose drawBody
  dsimp only
  split
  · rfl
  · refine congrArg _ (funext fun frame => ?_)
    split
    · rfl
    · cases arrangement <;> rfl

/-- **All that a composition can come to.** -/
theorem compose_eq_ok {selection : List (Primitive α)} {background : Background} {arrangement : Arrangement}
    {c : Composition α} :
    shop.compose selection background arrangement = .ok c ↔
      ∃ frame nodes connections, selection.filter (!·.isText) ≠ [] ∧ frameOf selection = .ok frame ∧
        frame.isDegenerate = false ∧
        shop.drawBody frame background arrangement (selection.filter (!·.isText)) = .ok nodes ∧
        shop.connections frame ((selection.filter (!·.isText)).flatMap (·.sources)) = .ok connections ∧
        c = ⟨{ w := frame.w, h := frame.h, connections, foreground := .fillStroke :: nodes }, frame,
          selection.filter (·.isText)⟩ := by
  rw [compose_eq]
  dsimp only
  constructor
  · intro h
    split at h
    · cases h
    · rename_i hbody
      obtain ⟨frame, hframe, h⟩ := Xml.bind_eq_ok.1 h
      split at h
      · cases h
      · rename_i harea
        obtain ⟨nodes, hnodes, h⟩ := Xml.bind_eq_ok.1 h
        obtain ⟨connections, hconnections, rfl⟩ := Xml.map_eq_ok h
        exact ⟨frame, nodes, connections, by simpa using hbody, hframe, by simpa using harea, hnodes, hconnections, rfl⟩
  · rintro ⟨frame, nodes, connections, hbody, hframe, harea, hnodes, hconnections, rfl⟩
    rw [if_neg (by simpa using hbody), hframe]
    show (if frame.isDegenerate = true then _ else _) = _
    rw [harea, if_neg Bool.false_ne_true, hnodes]
    show (shop.connections frame _).map _ = _
    rw [hconnections]
    rfl

/-! ## Entries -/

theorem isKnown_block {frame : Box α} {source : Source α} {k : Nat} {cs : List (Connection α)}
    (h : shop.block frame source k = .ok cs) : ∀ c ∈ cs, c.isKnown = true := by
  have hanchors : ∀ (name : String) (ps : List (Point α)),
      ∀ c ∈ ps.map fun p => Connection.anchor (Sampling.anchor frame name p), c.isKnown = true := by
    intro name ps c hc
    obtain ⟨p, -, rfl⟩ := List.mem_map.1 hc
    rfl
  unfold block at h
  dsimp only at h
  split at h
  · cases h
    exact hanchors _ _
  · cases h
    exact List.forall_mem_cons.2 ⟨rfl, hanchors _ _⟩
  · obtain ⟨ps, -, rfl⟩ := Xml.map_eq_ok h
    exact List.forall_mem_cons.2 ⟨rfl, hanchors _ _⟩

/-- Each connection is in the block of some source. -/
theorem exists_block_of_mem_connections {frame : Box α} {sources : List (Source α)} {cs : List (Connection α)}
    (h : shop.connections frame sources = .ok cs) :
    ∀ c ∈ cs, ∃ source ∈ sources, ∃ k block, shop.block frame source k = .ok block ∧ c ∈ block := by
  simp only [connections, Xml.bind_eq_ok, pure, Except.pure, Except.ok.injEq] at h
  obtain ⟨blocks, hblocks, rfl⟩ := h
  intro c hc
  obtain ⟨block, hblock, hc⟩ := List.mem_flatten.1 hc
  obtain ⟨⟨source, k⟩, hsource, h⟩ := exists_of_mem_mapM hblocks block hblock
  exact ⟨source, List.fst_mem_of_mem_zipIdx hsource, k, block, h, hc⟩

theorem isKnown_connections {frame : Box α} {sources : List (Source α)} {cs : List (Connection α)}
    (h : shop.connections frame sources = .ok cs) : ∀ c ∈ cs, c.isKnown = true := by
  intro c hc
  obtain ⟨source, -, k, block, hblock, hc⟩ := exists_block_of_mem_connections h c hc
  exact isKnown_block hblock c hc

theorem isKnown_draw {frame : Box α} {p : Primitive α} {node : Node α}
    (h : shop.draw frame p = .ok (some node)) : node.isKnown = true := by
  cases p with
  | edge e style outline markers =>
    cases h
    rfl
  | stencil shape box style outline markers => cases shape <;> cases h <;> rfl
  | image src box style markers =>
    cases h
    rfl
  | group edges style =>
    obtain ⟨path, -, h⟩ := Xml.map_eq_ok h
    cases h
    rfl
  | text value box style => cases h

end

end Workshop

/-- What is true of every kind of painting entry is true of those that paint in a style. -/
theorem Style.forall_mem_nodes {α : Type} (P : Node α → Prop) (style : Style α) (hdashed : P (.dashed true))
    (hpattern : ∀ pattern ∈ style.pattern?, P (.dashPattern pattern))
    (hwidth : ∀ width ∈ style.width?, P (.strokeWidth width)) (hcolor : P (.strokeColor style.stroke))
    (hfill : ∀ color ∈ style.fill?, P (.fillColor color)) (hstroke : P .stroke) (hfillStroke : P .fillStroke)
    (background : Background) : ∀ n ∈ style.nodes background, P n := by
  have hmap : ∀ {T : Type} {g : T → Node α} (t? : Option T), (∀ t ∈ t?, P (g t)) → ∀ n ∈ (t?.map g).toList, P n := by
    intro T g t? hg
    cases t? with
    | none => exact List.forall_mem_nil _
    | some t => exact List.forall_mem_singleton.2 (hg t rfl)
  unfold nodes
  refine List.forall_mem_append.2 ⟨List.forall_mem_append.2 ⟨List.forall_mem_append.2
    ⟨?_, hmap style.width? hwidth⟩, List.forall_mem_singleton.2 hcolor⟩, ?_⟩
  · split
    · exact List.forall_mem_cons.2 ⟨hdashed, hmap style.pattern? hpattern⟩
    · exact List.forall_mem_nil _
  · cases background with
    | filled => exact List.forall_mem_append.2 ⟨hmap style.fill? hfill, List.forall_mem_singleton.2 hfillStroke⟩
    | strokeOnly => exact List.forall_mem_singleton.2 hstroke

theorem Style.isKnown_nodes {α : Type} (style : Style α) (background : Background) :
    ∀ n ∈ style.nodes background, n.isKnown = true :=
  style.forall_mem_nodes (·.isKnown = true) rfl (fun _ _ => rfl) (fun _ _ => rfl) rfl (fun _ _ => rfl) rfl rfl
    background

namespace Workshop

section

variable {α : Type} [Scalar α] {shop : Workshop α}

/-- Each node of primitives that are drawn on their own draws or paints one of them. -/
theorem drawShapes_cases {frame : Box α} {background : Background} {body : List (Primitive α)}
    {nodes : List (Node α)} (h : shop.drawShapes frame background body = .ok nodes) :
    ∀ n ∈ nodes, ∃ p ∈ body, shop.draw frame p = .ok (some n) ∨ n ∈ p.style.nodes background := by
  simp only [drawShapes, Xml.bind_eq_ok, pure, Except.pure, Except.ok.injEq] at h
  obtain ⟨groups, hgroups, rfl⟩ := h
  intro n hn
  obtain ⟨group, hgroup, hn⟩ := List.mem_flatten.1 hn
  obtain ⟨p, hp, h⟩ := exists_of_mem_mapM hgroups group hgroup
  obtain ⟨node?, hdraw, rfl⟩ := Xml.map_eq_ok h
  refine ⟨p, hp, (List.mem_append.1 hn).imp_left fun hn => ?_⟩
  rw [hdraw, Option.mem_toList.1 hn]

/-- The nodes of one path are that of the path of all edges, and one that paints it. -/
theorem drawPath_eq_ok {frame : Box α} {body : List (Primitive α)} {nodes : List (Node α)}
    (h : shop.drawPath frame body = .ok nodes) :
    ∃ edges path, body.zipIdx.mapM (fun (p, k) => edgesOf p k) = .ok edges ∧
      shop.joined frame edges.flatten = .ok path ∧ nodes = [.path path, .fillStroke] := by
  simp only [drawPath, Xml.bind_eq_ok, pure, Except.pure, Except.ok.injEq] at h
  obtain ⟨edges, hedges, path, hpath, rfl⟩ := h
  exact ⟨edges, path, hedges, hpath, rfl⟩

/-- Each node of a body draws or paints a primitive, or belongs to the path of them all. -/
theorem drawBody_cases {frame : Box α} {background : Background} {arrangement : Arrangement}
    {body : List (Primitive α)} {nodes : List (Node α)}
    (h : shop.drawBody frame background arrangement body = .ok nodes) :
    ∀ n ∈ nodes, (∃ p ∈ body, shop.draw frame p = .ok (some n) ∨ n ∈ p.style.nodes background) ∨
      (∃ path, n = .path path) ∨ n = .fillStroke := by
  cases arrangement with
  | shapes => exact fun n hn => .inl (drawShapes_cases h n hn)
  | singlePath =>
    obtain ⟨-, path, -, -, rfl⟩ := drawPath_eq_ok h
    exact List.forall_mem_cons.2 ⟨.inr (.inl ⟨path, rfl⟩), List.forall_mem_singleton.2 (.inr (.inr rfl))⟩

theorem isKnown_drawBody {frame : Box α} {background : Background} {arrangement : Arrangement}
    {body : List (Primitive α)} {nodes : List (Node α)}
    (h : shop.drawBody frame background arrangement body = .ok nodes) : ∀ n ∈ nodes, n.isKnown = true := by
  intro n hn
  obtain ⟨p, -, hdraw | hpaint⟩ | ⟨path, rfl⟩ | rfl := drawBody_cases h n hn
  · exact isKnown_draw hdraw
  · exact p.style.isKnown_nodes background n hpaint
  · rfl
  · rfl

/-- **A composed stencil holds nothing without a meaning.** -/
theorem isKnown_of_compose {selection : List (Primitive α)} {background : Background}
    {arrangement : Arrangement} {c : Composition α}
    (h : shop.compose selection background arrangement = .ok c) : c.stencil.isKnown = true := by
  obtain ⟨frame, nodes, connections, -, -, -, hnodes, hconnections, rfl⟩ := compose_eq_ok.1 h
  refine Bool.and_eq_true_iff.2 ⟨List.all_eq_true.2 (isKnown_connections hconnections), ?_⟩
  exact List.all_eq_true.2 (List.forall_mem_cons.2 ⟨rfl, isKnown_drawBody hnodes⟩)

end

/-! ## Size -/

/-- The box around a selection is found from its corners. -/
theorem exists_ofCorners {α : Type} [Scalar α] {selection : List (Primitive α)} {frame : Box α}
    (h : frameOf selection = .ok frame) : ∃ p q, frame = .ofCorners p q := by
  have haround := frameOf_eq_ok.1 h
  unfold Box.around? Extent.box? at haround
  split at haround
  · cases haround
    exact ⟨_, _, rfl⟩
  · cases haround

variable {shop : Workshop Float} {selection : List (Primitive Float)} {background : Background}
  {arrangement : Arrangement} {c : Composition Float}

/-- **A composed stencil is as large as the box that it was composed in**, and has an area. -/
theorem size_of_compose (h : shop.compose selection background arrangement = .ok c) :
    c.bounds.w = c.stencil.w ∧ c.bounds.h = c.stencil.h ∧ 0 < c.stencil.w ∧ 0 < c.stencil.h := by
  obtain ⟨frame, nodes, connections, -, -, harea, -, -, rfl⟩ := compose_eq_ok.1 h
  exact ⟨rfl, rfl, Box.isDegenerate_eq_false.1 harea⟩

/-- A box of finite size begins at a finite point. -/
theorem isFinite_origin_of_compose (h : shop.compose selection background arrangement = .ok c)
    (hw : Scalar.isFinite c.stencil.w = true) (hh : Scalar.isFinite c.stencil.h = true) :
    Scalar.isFinite c.bounds.x = true ∧ Scalar.isFinite c.bounds.y = true := by
  obtain ⟨frame, nodes, connections, -, hframe, -, -, -, rfl⟩ := compose_eq_ok.1 h
  obtain ⟨p, q, rfl⟩ := exists_ofCorners hframe
  exact ⟨(Binary64.isFinite_of_sub hw).2, (Binary64.isFinite_of_sub hh).2⟩

/-- A workshop with the usual options that knows no stencil by name. -/
def bare {α : Type} [Scalar α] : Workshop α where
  resolve shape := .error (.unknownStencil shape.name)
  hit := Hit.geometric Hit.strokeTolerance
  options := .standard

end Workshop

end StencilKit
