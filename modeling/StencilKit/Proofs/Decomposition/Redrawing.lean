/-
What the primitives of a selection come back as when their composition is taken apart.

A line with rounded corners comes back in pieces, a curve of two points as a line, joined edges as edges
in any number, and anything else as one thing of its own form. All that comes back of one primitive is in
its style, as far as that shows.
-/
import StencilKit.Proofs.Chain.Walk
import StencilKit.Proofs.Decomposition.Foreground
import StencilKit.Proofs.Decomposition.Strokes
import StencilKit.Proofs.Drawing.ShapeRef

namespace StencilKit

/-! ## Forms -/

namespace Primitive

/-- What is known of a primitive wherever it lies and however it is painted. -/
inductive Form where
  | edge (kind : EdgeKind) (points : Nat)
  | stencil (shape : ShapeRef)
  | image (src : String)
  | text (value : String)
  | group (edges : List (EdgeKind × Nat))
  deriving DecidableEq, Repr

variable {α : Type}

def form : Primitive α → Form
  | edge e _ _ _ => .edge e.kind e.points.length
  | stencil shape _ _ _ _ => .stencil shape
  | image src _ _ _ => .image src
  | text value _ _ => .text value
  | group edges _ => .group (edges.map fun e => (e.kind, e.points.length))

@[simp] theorem form_mapStyle (f : Style α → Style α) (p : Primitive α) : (p.mapStyle f).form = p.form := by
  cases p <;> rfl

@[simp] theorem style_mapStyle (f : Style α → Style α) (p : Primitive α) : (p.mapStyle f).style = f p.style := by
  cases p <;> rfl

theorem SameButOutline.form_eq {q r : Primitive α} (h : q.SameButOutline r) : r.form = q.form := by
  rcases h with rfl | rfl
  · rfl
  · cases q <;> rfl

theorem SameButOutline.style_eq {q r : Primitive α} (h : q.SameButOutline r) : r.style = q.style := by
  rcases h with rfl | rfl
  · rfl
  · cases q <;> rfl

end Primitive

/-- The kinds and numbers of points of what an edge is drawn as. -/
def Edge.strokes {α : Type} (e : Edge α) (rounded : Bool) : List (EdgeKind × Nat) :=
  match e.kind with
  | .line => if rounded ∧ 2 < e.points.length then Path.turns e.points.length else [(.line, e.points.length)]
  | .curve => if 2 < e.points.length then [(.curve, e.points.length)] else [(.line, 2)]

theorem Edge.strokes_ne_nil {α : Type} (e : Edge α) (rounded : Bool) : e.strokes rounded ≠ [] := by
  unfold strokes
  split
  · split
    · rename_i h
      have hnumber : 2 * e.points.length - 3 ≠ 0 := by omega
      simpa [Path.turns] using hnumber
    · exact List.cons_ne_nil _ _
  · split <;> exact List.cons_ne_nil _ _

/-- Whether a group is, in its form, what is drawn of a primitive. -/
def Primitive.RedrawnAs {α : Type} (p : Primitive α) (group : List (Primitive α)) : Prop :=
  match p with
  | edge e style _ _ => group.map form = (e.strokes style.rounded).map fun (kind, n) => .edge kind n
  | stencil shape _ _ _ _ => group.map form = [.stencil (.ofName shape.name)]
  | image src _ _ _ => group.map form = [.image src]
  | text _ _ _ => False
  | .group _ _ => ∀ q ∈ group, ∃ kind n, q.form = .edge kind n

section

variable {α : Type} [Scalar α]

/-! ## Paths -/

omit [Scalar α] in
theorem exists_cons_cons {ps : List (Point α)} (h : 2 ≤ ps.length) : ∃ p q rest, ps = p :: q :: rest := by
  match ps with
  | [] | [_] => simp at h
  | p :: q :: rest => exact ⟨p, q, rest, rfl⟩

theorem Route.exists_local_points (r : Route α) (origin : Point α) :
    ∃ p q ps, r.points.map (· - origin) = p :: q :: ps ∧ r.points.length = ps.length + 2 := by
  obtain ⟨p, q, ps, hpoints⟩ : ∃ p q ps, r.points.map (· - origin) = p :: q :: ps :=
    exists_cons_cons (by simp [r.length_points])
  refine ⟨p, q, ps, hpoints, ?_⟩
  rw [← List.length_map (· - origin), hpoints]
  rfl

/-- What the path of an edge is read back as. -/
theorem Workshop.measured_edgePath (shop : Workshop α) (frame : Box α) (e : Edge α) (style : Style α) :
    (shop.edgePath frame e style).edges.map Path.measured = e.strokes style.rounded := by
  obtain ⟨kind, route⟩ := e
  obtain ⟨p, q, ps, hpoints, hlength⟩ := route.exists_local_points frame.origin
  unfold edgePath Edge.strokes Edge.points
  dsimp only
  rw [hpoints, hlength]
  cases kind with
  | line =>
    cases style.rounded with
    | false =>
      rw [if_neg (by simp)]
      exact congrArg _ (Path.edges_straight _ q ps)
    | true =>
      refine (Path.measured_edges_rounded shop.options.cornerBlend _ q ps).trans ?_
      cases ps with
      | nil => rfl
      | cons r ps => exact (if_pos ⟨rfl, by simp⟩).symm
  | curve =>
    dsimp only
    rw [Path.edges_ofCurve]
    cases ps with
    | nil => rfl
    | cons r ps =>
      rw [if_neg (List.cons_ne_nil r ps), if_pos (by simp), List.map_singleton, Path.measured, Path.length_retraced]
      rfl

/-- **Joined edges are read back as something.** -/
theorem Chain.edges_pathOf_ne_nil (origin : Point α) (l : Link α) (ls : List (Link α)) :
    (pathOf origin (l :: ls)).edges ≠ [] := by
  have hlength : (l.points.map (· - origin)).length = l.edge.route.bends.length + 2 := by
    unfold Link.points Edge.points
    split <;> simp [Route.length_points]
  obtain ⟨p, q, ps, hpoints⟩ := exists_cons_cons (hlength.symm ▸ Nat.le_add_left 2 _)
  obtain ⟨s, path, hpath, hs⟩ := Path.exists_along l.edge.kind p q ps
  have hsteps : linkSteps origin l = s :: path := by
    rw [linkSteps, hpoints, hpath]
  rw [pathOf, List.flatMap_cons, hsteps]
  exact Path.edges_ne_nil _ hs _

namespace Placement

theorem form_edge? (m : Placement α) (kind : EdgeKind) {ps : List (Point α)} (h : 2 ≤ ps.length) :
    (m.edge? kind ps).map Primitive.form = some (.edge kind ps.length) := by
  obtain ⟨p, q, rest, rfl⟩ := exists_cons_cons h
  obtain ⟨route, hroute⟩ : ∃ route, Route.ofPoints? ((p :: q :: rest).map m.point) = some route := ⟨_, rfl⟩
  have hlength : route.points.length = (p :: q :: rest).length := by
    rw [Route.points_ofPoints? hroute, List.length_map]
  rw [edge?, hroute, ← hlength]
  rfl

theorem form_drawn_path (m : Placement α) (path : Path α) :
    (m.drawn (.path path)).map Primitive.form = (path.edges.map Path.measured).map fun (kind, n) => .edge kind n := by
  have hform : ∀ e ∈ path.edges, (m.edge? e.1 e.2).map Primitive.form = some (.edge e.1 e.2.length) :=
    fun e he => m.form_edge? e.1 (Path.two_le_length_of_mem_edges he)
  rw [drawn, List.map_filterMap, List.map_map]
  refine (List.filterMap_congr hform).trans ?_
  exact congrFun List.filterMap_eq_map _

end Placement

/-! ## Groups -/

namespace Workshop

/-- A group is, in its form, what was drawn of its primitive. -/
theorem form_of_painted {m : Placement α} {node : Node α} {style : Style α} {group : List (Primitive α)}
    (h : List.Forall₂ Primitive.SameButOutline (m.painted node style) group) :
    group.map Primitive.form = (m.drawn node).map Primitive.form ∧ ∀ q ∈ group, q.style = style := by
  rw [Placement.painted, List.forall₂_map_left_iff] at h
  generalize m.drawn node = drawn at h ⊢
  induction h with
  | nil => exact ⟨rfl, List.forall_mem_nil _⟩
  | cons hq _ ih =>
    refine ⟨?_, List.forall_mem_cons.2 ⟨?_, ih.2⟩⟩
    · rw [List.map_cons, List.map_cons, ih.1, hq.form_eq, Primitive.form_mapStyle]
    · rw [hq.style_eq, Primitive.style_mapStyle]

theorem redrawnAs_of_redraws {shop : Workshop α} {frame : Box α} {background : Background} {m : Placement α}
    {p : Primitive α} {group : List (Primitive α)} (h : shop.Redraws frame background m p group) :
    group ≠ [] ∧ p.RedrawnAs group ∧ ∀ q ∈ group, q.style = p.style.redrawn background := by
  obtain ⟨node, hdraw, hgroup⟩ := h
  obtain ⟨hform, hstyle⟩ := form_of_painted hgroup
  suffices h : group.map Primitive.form ≠ [] ∧ p.RedrawnAs group from ⟨by simpa using h.1, h.2, hstyle⟩
  cases p with
  | edge e style outline markers =>
    cases hdraw
    rw [Placement.form_drawn_path, measured_edgePath] at hform
    refine ⟨?_, hform⟩
    rw [hform]
    simpa using e.strokes_ne_nil style.rounded
  | stencil shape b style outline markers =>
    have hshape : group.map Primitive.form = [.stencil (.ofName shape.name)] := by
      rw [hform]
      cases shape with
      | rectangle =>
        cases hdraw
        exact congrArg (fun shape => [Primitive.Form.stencil shape]) ShapeRef.ofName_rectangle.symm
      | ellipse =>
        cases hdraw
        exact congrArg (fun shape => [Primitive.Form.stencil shape]) ShapeRef.ofName_ellipse.symm
      | named name =>
        cases hdraw
        rfl
      | embedded token =>
        cases hdraw
        rfl
    exact ⟨hshape.symm ▸ List.cons_ne_nil _ _, hshape⟩
  | image src b style markers =>
    cases hdraw
    exact ⟨hform.symm ▸ List.cons_ne_nil _ _, hform⟩
  | text value b style => cases hdraw
  | group edges style =>
    obtain ⟨path, hpath, heq⟩ := Xml.map_eq_ok hdraw
    cases heq
    obtain ⟨first, rest, -, rfl⟩ := Chain.exists_pathOf hpath
    rw [Placement.form_drawn_path, List.map_map] at hform
    refine ⟨?_, ?_⟩
    · rw [hform]
      simpa using Chain.edges_pathOf_ne_nil frame.origin first rest
    · intro q hq
      obtain ⟨e, -, he⟩ := List.mem_map.1 (hform ▸ List.mem_map_of_mem hq)
      exact ⟨_, _, he.symm⟩

end Workshop

/-- **What comes back of a composed selection**, whatever box it is drawn into. The primitives fall into
groups, one for each primitive of the selection but texts, in their order. None of the groups is empty;
each is in its form what is drawn of its primitive, and all of it in that primitive's style. -/
theorem primitives_decompose_compose {shop : Workshop α} {selection : List (Primitive α)} {background : Background}
    {c : Composition α} (h : shop.compose selection background .shapes = .ok c) (options : DecomposeOptions α)
    (placement : Box α) :
    ∃ groups, (c.stencil.decompose options placement).primitives = groups.flatten ∧
      List.Forall₂ (fun p group =>
          group ≠ [] ∧ p.RedrawnAs group ∧ ∀ q ∈ group, q.style = p.style.redrawn background)
        (selection.filter (!·.isText)) groups := by
  obtain ⟨groups, hgroups, hredraws⟩ := Workshop.decompose_groups h options placement
  exact ⟨groups, hgroups, hredraws.imp fun _ _ => Workshop.redrawnAs_of_redraws⟩

end

/-- A dashed line with rounded corners, a filled box that a name means, a text, two edges that are drawn
as one path, a curve of two points and one of four, and an image. -/
def assorted : List (Primitive Float) :=
  [.edge ⟨.line, ⟨⟨0, 0⟩, [⟨4, 0⟩, ⟨4, 4⟩], ⟨8, 4⟩⟩⟩
      { stroke := "#ff0000", dashed := true, pattern? := some "3 1", width? := some 2, rounded := true } false [],
    .stencil (.named "flow.card") ⟨1, 1, 3, 2⟩ { fill? := some "#00ff00", pattern? := some "1 1" } false [],
    .text "caption" ⟨0, 6, 2, 1⟩ {},
    .group [⟨.line, ⟨⟨0, 0⟩, [], ⟨2, 0⟩⟩⟩, ⟨.curve, ⟨⟨4, 4⟩, [⟨3, 0⟩], ⟨2, 0⟩⟩⟩] {},
    .edge ⟨.curve, ⟨⟨0, 8⟩, [], ⟨2, 9⟩⟩⟩ {} true [],
    .edge ⟨.curve, ⟨⟨0, 8⟩, [⟨1, 10⟩, ⟨2, 7⟩], ⟨3, 9⟩⟩⟩ { dashed := true } true [],
    .image "data:image/png,0" ⟨5, 5, 2, 2⟩ {} []]

theorem primitives_decompose_compose_assorted :
    ∃ c : Composition Float, Workshop.bare.compose assorted .filled .shapes = .ok c ∧
      ∃ groups : List (List (Primitive Float)),
        (c.stencil.decompose .standard c.bounds).primitives = groups.flatten ∧
        List.Forall₂ (fun p group =>
            group ≠ [] ∧ p.RedrawnAs group ∧ ∀ q ∈ group, q.style = p.style.redrawn .filled)
          (assorted.filter (!·.isText)) groups := by
  have hok : (Workshop.bare.compose assorted .filled .shapes).toBool = true := by decide +kernel
  obtain ⟨c, hc⟩ := exists_ok_of_toBool hok
  exact ⟨c, hc, primitives_decompose_compose hc .standard c.bounds⟩

end StencilKit
