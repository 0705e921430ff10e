/-
The primitives of a stencil that was composed and taken apart, group by group.

Whatever draws a primitive is followed by the entries that paint it, and none of those draws anything. So
what is drawn of one primitive is painted in that primitive's style and in no other's, and it stands
together, in the order of the selection (`primitives_blocks`). Giving outlines back changes nothing in
this (`decompose_groups`).
-/
import StencilKit.Proofs.Decomposition.Outlines

namespace StencilKit

/-! ## Lists of lists -/

theorem forall₂_append_left {T U : Type} {R : T → U → Prop} {xs ys : List T} {zs : List U}
    (h : List.Forall₂ R (xs ++ ys) zs) :
    ∃ us vs, zs = us ++ vs ∧ List.Forall₂ R xs us ∧ List.Forall₂ R ys vs := by
  induction xs generalizing zs with
  | nil => exact ⟨[], zs, rfl, .nil, h⟩
  | cons x xs ih =>
    cases h with
    | cons hx hrest =>
      obtain ⟨us, vs, rfl, hxs, hys⟩ := ih hrest
      exact ⟨_ :: us, vs, rfl, .cons hx hxs, hys⟩

/-- A list that relates to groups in a row falls into groups itself. -/
theorem forall₂_flatten_left {T U : Type} {R : T → U → Prop} {groups : List (List T)} {zs : List U}
    (h : List.Forall₂ R groups.flatten zs) :
    ∃ others, zs = others.flatten ∧ List.Forall₂ (List.Forall₂ R) groups others := by
  induction groups generalizing zs with
  | nil =>
    cases h
    exact ⟨[], rfl, .nil⟩
  | cons group groups ih =>
    obtain ⟨us, vs, rfl, hgroup, hgroups⟩ := forall₂_append_left h
    obtain ⟨others, rfl, hothers⟩ := ih hgroups
    exact ⟨us :: others, rfl, .cons hgroup hothers⟩

/-- Two relations in a row. -/
theorem forall₂_trans {T U V : Type} {R : T → U → Prop} {S : U → V → Prop} {xs : List T} {ys : List U}
    {zs : List V} (hR : List.Forall₂ R xs ys) (hS : List.Forall₂ S ys zs) :
    List.Forall₂ (fun x z => ∃ y, R x y ∧ S y z) xs zs := by
  induction hR generalizing zs with
  | nil =>
    cases hS
    exact .nil
  | cons hxy _ ih =>
    cases hS with
    | cons hyz hrest => exact .cons ⟨_, hxy, hyz⟩ (ih hrest)

/-! ## Painting -/

namespace Style

variable {α : Type}

/-- The style that what is drawn of a primitive comes back in. -/
def redrawn (style : Style α) (background : Background) : Style α where
  stroke := style.stroke
  fill? := match background with
    | .filled => style.fill?
    | .strokeOnly => none
  width? := style.width?
  dashed := style.dashed
  pattern? := if style.dashed then style.pattern? else none
  rounded := false

/-- **Painting gives back the style**, as far as it shows. -/
theorem foldl_paint_nodes (style : Style α) (background : Background) :
    (style.nodes background).foldl paint {} = style.redrawn background := by
  obtain ⟨stroke, fill?, width?, dashed, pattern?, rounded⟩ := style
  unfold nodes redrawn
  cases dashed <;> cases pattern? <;> cases width? <;> cases background <;> cases fill? <;> rfl

theorem draws_of_mem_nodes (style : Style α) (background : Background) :
    ∀ n ∈ style.nodes background, n.draws = false :=
  style.forall_mem_nodes (·.draws = false) rfl (fun _ _ => rfl) (fun _ _ => rfl) rfl (fun _ _ => rfl) rfl rfl
    background

end Style

namespace Placement

variable {α : Type} [Scalar α]

/-- What an entry draws is unpainted at first, and nothing can be attached all along it. -/
theorem unpainted_of_mem_drawn {m : Placement α} {node : Node α} {p : Primitive α} (h : p ∈ m.drawn node) :
    p.style = {} ∧ p.isOutline = false := by
  cases node with
  | path path =>
    obtain ⟨⟨kind, ps⟩, -, h⟩ := List.mem_filterMap.1 h
    obtain ⟨route, -, rfl⟩ := Option.map_eq_some_iff.1 h
    exact ⟨rfl, rfl⟩
  | rect b =>
    obtain rfl := List.mem_singleton.1 h
    exact ⟨rfl, rfl⟩
  | ellipse b =>
    obtain rfl := List.mem_singleton.1 h
    exact ⟨rfl, rfl⟩
  | reference name b =>
    obtain rfl := List.mem_singleton.1 h
    exact ⟨rfl, rfl⟩
  | image src b =>
    obtain rfl := List.mem_singleton.1 h
    exact ⟨rfl, rfl⟩
  | _ => cases h

/-- What an entry draws, in a style. -/
def painted (m : Placement α) (node : Node α) (style : Style α) : List (Primitive α) :=
  (m.drawn node).map (·.mapStyle fun _ => style)

theorem primitives_painting (m : Placement α) {painting : List (Node α)}
    (hpainting : ∀ n ∈ painting, n.draws = false) (rest : List (Node α)) :
    m.primitives (painting ++ rest) = m.primitives rest := by
  induction painting with
  | nil => rfl
  | cons n painting ih =>
    obtain ⟨hn, hpainting⟩ := List.forall_mem_cons.1 hpainting
    rw [List.cons_append, primitives, if_neg (by simp [hn]), ih hpainting]

/-- **What draws, with what paints it**, before anything that draws again. -/
theorem primitives_block (m : Placement α) {node : Node α} (hnode : node.draws = true) {painting : List (Node α)}
    (hpainting : ∀ n ∈ painting, n.draws = false) {rest : List (Node α)}
    (hrest : ∀ n ∈ rest.head?, n.draws = true) :
    m.primitives (node :: painting ++ rest) =
      m.painted node (painting.foldl Style.paint {}) ++ m.primitives rest := by
  have htake : (painting ++ rest).takeWhile (!·.draws) = painting := by
    rw [List.takeWhile_append_of_pos fun n hn => by simp [hpainting n hn]]
    cases rest with
    | nil => exact List.append_nil _
    | cons n rest => simp [hrest n rfl]
  have hstyle : ∀ p ∈ m.drawn node, p.mapStyle (fun style => painting.foldl Style.paint style) =
      p.mapStyle fun _ => painting.foldl Style.paint {} := by
    intro p hp
    obtain ⟨hstyle, -⟩ := unpainted_of_mem_drawn hp
    cases p <;> cases hstyle <;> rfl
  rw [List.cons_append, primitives, if_pos hnode, htake, m.primitives_painting hpainting, painted]
  exact congrArg (· ++ m.primitives rest) (List.map_congr_left hstyle)

end Placement

/-! ## Groups -/

namespace Workshop

variable {α : Type} [Scalar α] {shop : Workshop α} {frame : Box α} {background : Background}

/-- Anything but a text is drawn. -/
theorem draws_of_draw {p : Primitive α} (htext : p.isText = false) {node? : Option (Node α)}
    (h : shop.draw frame p = .ok node?) : ∃ node, node? = some node ∧ node.draws = true := by
  cases p with
  | edge e style outline markers =>
    cases h
    exact ⟨_, rfl, rfl⟩
  | stencil shape b style outline markers =>
    cases shape <;>
    · cases h
      exact ⟨_, rfl, rfl⟩
  | image src b style markers =>
    cases h
    exact ⟨_, rfl, rfl⟩
  | text value b style => cases htext
  | group edges style =>
    obtain ⟨path, -, rfl⟩ := Xml.map_eq_ok h
    exact ⟨_, rfl, rfl⟩

/-- Blocks of entries are taken apart block by block. -/
theorem primitives_blocks (m : Placement α) {body : List (Primitive α)} (htext : ∀ p ∈ body, p.isText = false)
    {blocks : List (List (Node α))}
    (h : List.Forall₂ (fun p block =>
      ((shop.draw frame p).map fun node => node.toList ++ p.style.nodes background) = .ok block) body blocks) :
    ∃ groups, m.primitives blocks.flatten = groups.flatten ∧
      List.Forall₂ (fun p group => ∃ node, shop.draw frame p = .ok (some node) ∧
        group = m.painted node (p.style.redrawn background)) body groups ∧
      ∀ n ∈ blocks.flatten.head?, n.draws = true := by
  induction h with
  | nil => exact ⟨[], rfl, .nil, by simp⟩
  | @cons p block body blocks hblock _ ih =>
    obtain ⟨hp, hbody⟩ := List.forall_mem_cons.1 htext
    obtain ⟨groups, hgroups, hdrawn, hhead⟩ := ih hbody
    obtain ⟨node?, hdraw, rfl⟩ := Xml.map_eq_ok hblock
    obtain ⟨node, rfl, hnode⟩ := draws_of_draw hp hdraw
    refine ⟨m.painted node (p.style.redrawn background) :: groups, ?_, .cons ⟨node, hdraw, rfl⟩ hdrawn, ?_⟩
    · rw [List.flatten_cons, List.flatten_cons, ← hgroups, ← Style.foldl_paint_nodes]
      exact m.primitives_block hnode (p.style.draws_of_mem_nodes background) hhead
    · rintro _ ⟨⟩
      exact hnode

omit [Scalar α] in
/-- What is true of the one thing that was drawn, whether or not it has an outline, is true of what comes back
of it. -/
theorem exists_single_of_drawn {P : Primitive α → Prop} (hP : ∀ q r, P q → q.SameButOutline r → P r)
    {drawn group : List (Primitive α)} (hdrawn : ∃ q, drawn = [q] ∧ P q)
    (hgroup : List.Forall₂ Primitive.SameButOutline drawn group) : ∃ r, group = [r] ∧ P r := by
  obtain ⟨q, rfl, hq⟩ := hdrawn
  obtain ⟨r, rest, hqr, hrest, rfl⟩ := List.forall₂_cons_left_iff.1 hgroup
  obtain rfl := List.forall₂_nil_left_iff.1 hrest
  exact ⟨r, rfl, hP q r hq hqr⟩

/-- What comes back of a primitive: what draws it, painted in its style, where some of it may be its
own outline again. -/
def Redraws (shop : Workshop α) (frame : Box α) (background : Background) (m : Placement α) (p : Primitive α)
    (group : List (Primitive α)) : Prop :=
  ∃ node, shop.draw frame p = .ok (some node) ∧
    List.Forall₂ Primitive.SameButOutline (m.painted node (p.style.redrawn background)) group

/-- **The primitives of a composed stencil come back in groups**, one for each primitive that is not a
text, in their order. -/
theorem decompose_groups {selection : List (Primitive α)} {c : Composition α}
    (h : shop.compose selection background .shapes = .ok c) (options : DecomposeOptions α) (placement : Box α) :
    ∃ groups, (c.stencil.decompose options placement).primitives = groups.flatten ∧
      List.Forall₂ (shop.Redraws c.bounds background (.of c.stencil placement))
        (selection.filter (!·.isText)) groups := by
  obtain ⟨left, hrestores, -⟩ := restores_decompose h options placement
  obtain ⟨frame, nodes, connections, -, -, -, hnodes, -, rfl⟩ := compose_eq_ok.1 h
  simp only [drawBody, drawShapes, Xml.bind_eq_ok, pure, Except.pure, Except.ok.injEq] at hnodes
  obtain ⟨blocks, hblocks, rfl⟩ := hnodes
  obtain ⟨groups, hgroups, hdrawn, -⟩ := primitives_blocks
    (.of { w := frame.w, h := frame.h, connections, foreground := .fillStroke :: blocks.flatten } placement)
    (fun p hp => by simpa using (List.mem_filter.1 hp).2) (forall₂_of_mapM hblocks)
  -- The entry in front draws nothing, so that it may as well not be there.
  have hsame : List.Forall₂ Primitive.SameButOutline groups.flatten _ := hgroups ▸ hrestores.sameButOutline
  obtain ⟨others, hothers, hsame⟩ := forall₂_flatten_left hsame
  refine ⟨others, hothers, (forall₂_trans hdrawn hsame).imp ?_⟩
  rintro p group ⟨_, ⟨node, hdraw, rfl⟩, hgroup⟩
  exact ⟨node, hdraw, hgroup⟩

end Workshop

end StencilKit
