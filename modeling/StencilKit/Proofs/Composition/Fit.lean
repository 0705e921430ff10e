/-
A composed stencil is as large as what it draws.

In exact coordinates every point that a step of a path names, control points among them, lies within the
stencil's width and height, and so do two opposite corners of every box (`fits_of_compose`). The pen goes to
points of the edges, or to points between two of them, and the box that a selection is composed in holds them
all. How far toward a corner a rounded line goes has to be a fraction.
-/
import StencilKit.Proofs.Coordinates.Hull
import StencilKit.Proofs.Chain.Walk
import StencilKit.Proofs.Composition.Frame

namespace StencilKit

section

variable {α : Type}

/-- The points that a step names. -/
def PathStep.points : PathStep α → List (Point α)
  | move p | line p => [p]
  | quad control stop => [control, stop]
  | close => []

/-- The points that an entry of a foreground names, and two opposite corners of its box. -/
def Node.extremes [Scalar α] : Node α → List (Point α)
  | path p => List.flatMap PathStep.points p
  | rect b | ellipse b | reference _ b | image _ b => [b.origin, b.far]
  | _ => []

theorem Style.extremes_nodes [Scalar α] (style : Style α) (background : Background) :
    ∀ n ∈ style.nodes background, n.extremes = [] :=
  style.forall_mem_nodes (·.extremes = []) rfl (fun _ _ => rfl) (fun _ _ => rfl) rfl (fun _ _ => rfl) rfl rfl
    background

theorem Link.mem_points (l : Link α) {p : Point α} : p ∈ l.points ↔ p ∈ l.edge.points := by
  unfold points
  split <;> simp

/-- Whether a box holds all points that a path names. -/
def Path.Stays [Scalar α] (b : Box α) (path : Path α) : Prop := ∀ s ∈ path, ∀ q ∈ s.points, b.Covers q

namespace Path

variable [Scalar α] {b : Box α} {ps : List (Point α)}

theorem stays_straight (hps : ∀ p ∈ ps, b.Covers p) : (straight ps).Stays b := by
  intro s hs
  obtain ⟨p, hp, rfl⟩ := List.mem_map.1 hs
  exact List.forall_mem_singleton.2 (hps p (List.mem_of_mem_tail hp))

theorem stays_starting {draw : List (Point α) → Path α} (hps : ∀ p ∈ ps, b.Covers p)
    (hdraw : (draw ps).Stays b) : (starting draw ps).Stays b := by
  cases ps with
  | nil => exact List.forall_mem_nil _
  | cons p rest => exact List.forall_mem_cons.2 ⟨List.forall_mem_singleton.2 (hps p List.mem_cons_self), hdraw⟩

end Path

end

/-! ## Paths -/

variable {K : Type} [Field K] [LinearOrder K] [IsStrictOrderedRing K] [FloorRing K] [Transcendental K]

namespace Path

variable {b : Box K} {ps : List (Point K)}

theorem stays_rounded {blend : K} (h0 : 0 ≤ blend) (h1 : blend ≤ 1) (hps : ∀ p ∈ ps, b.Covers p) :
    (rounded blend ps).Stays b := by
  fun_induction rounded blend ps with
  | case1 p q r rest ih =>
    obtain ⟨hp, hrest⟩ := List.forall_mem_cons.1 hps
    obtain ⟨hq, hmore⟩ := List.forall_mem_cons.1 hrest
    have hbefore := hp.lerp hq h0 h1
    have hafter := hq.lerp (hmore r List.mem_cons_self) (sub_nonneg.2 h1) (sub_le_self 1 h0)
    refine List.forall_mem_cons.2 ⟨List.forall_mem_singleton.2 hbefore, List.forall_mem_cons.2 ⟨?_, ih hrest⟩⟩
    exact List.forall_mem_cons.2 ⟨hq, List.forall_mem_singleton.2 hafter⟩
  | case2 p q => exact List.forall_mem_singleton.2 (List.forall_mem_singleton.2 (hps q (by simp)))
  | case3 => exact List.forall_mem_nil _

theorem stays_smooth (hps : ∀ p ∈ ps, b.Covers p) : (smooth ps).Stays b := by
  unfold smooth
  split
  · exact stays_straight hps
  · intro s hs
    obtain ⟨c, hc, rfl⟩ := List.mem_map.1 hs
    obtain ⟨-, hcontrol, hstop⟩ := Quadratic.covers_smooth hps c hc
    exact List.forall_mem_cons.2 ⟨hcontrol, List.forall_mem_singleton.2 hstop⟩

theorem stays_along (kind : EdgeKind) (hps : ∀ p ∈ ps, b.Covers p) : (along kind ps).Stays b := by
  cases kind with
  | line => exact stays_straight hps
  | curve => exact stays_smooth hps

theorem stays_ofLine {blend? : Option K} (hblend : ∀ blend ∈ blend?, 0 ≤ blend ∧ blend ≤ 1)
    (hps : ∀ p ∈ ps, b.Covers p) : (ofLine blend? ps).Stays b := by
  refine stays_starting hps ?_
  cases blend? with
  | none => exact stays_straight hps
  | some blend => exact stays_rounded (hblend blend rfl).1 (hblend blend rfl).2 hps

end Path

theorem Chain.stays_pathOf {b : Box K} {origin : Point K} {links : List (Link K)}
    (h : ∀ l ∈ links, ∀ p ∈ l.edge.points, b.Covers (p - origin)) : (pathOf origin links).Stays b := by
  cases links with
  | nil => exact List.forall_mem_nil _
  | cons first rest =>
    have hstart := h first List.mem_cons_self first.start first.start_mem
    refine List.forall_mem_cons.2 ⟨List.forall_mem_singleton.2 hstart, fun s hs => ?_⟩
    obtain ⟨l, hl, hs⟩ := List.mem_flatMap.1 hs
    have hpoints : ∀ q ∈ l.points.map (· - origin), b.Covers q := by
      intro q hq
      obtain ⟨p, hp, rfl⟩ := List.mem_map.1 hq
      exact h l hl p (l.mem_points.1 hp)
    exact Path.stays_along l.edge.kind hpoints s hs

/-! ## Drawings -/

namespace Workshop

variable {shop : Workshop K} {frame : Box K}

theorem stays_joined {edges : List (Edge K)} (hedges : ∀ e ∈ edges, ∀ p ∈ e.points, frame.Covers p) {path : Path K}
    (h : shop.joined frame edges = .ok path) : path.Stays (.ofSize frame.w frame.h) := by
  obtain ⟨first, rest, htraverses, rfl⟩ := Chain.exists_pathOf h
  refine Chain.stays_pathOf fun l hl p hp => ?_
  have hl : l.edge ∈ edges := htraverses.once.subset (List.mem_append_left _ (List.mem_map_of_mem hl))
  exact (hedges l.edge hl p hp).toLocal

theorem stays_edgePath (hblend : 0 ≤ shop.options.cornerBlend ∧ shop.options.cornerBlend ≤ 1) {e : Edge K}
    (he : ∀ p ∈ e.points, frame.Covers p) (style : Style K) :
    (shop.edgePath frame e style).Stays (.ofSize frame.w frame.h) := by
  have hps : ∀ q ∈ e.points.map (· - frame.origin), (Box.ofSize frame.w frame.h).Covers q := by
    intro q hq
    obtain ⟨p, hp, rfl⟩ := List.mem_map.1 hq
    exact (he p hp).toLocal
  obtain ⟨kind, route⟩ := e
  cases kind with
  | line =>
    refine Path.stays_ofLine ?_ hps
    cases style.rounded with
    | false => exact fun blend hnone => by cases hnone
    | true =>
      rintro _ ⟨⟩
      exact hblend
  | curve => exact Path.stays_starting hps (Path.stays_smooth hps)

/-- What is drawn of a primitive lies where the primitive does. -/
theorem covers_draw (hblend : 0 ≤ shop.options.cornerBlend ∧ shop.options.cornerBlend ≤ 1) {p : Primitive K}
    (hp : ∀ q ∈ p.extremes, frame.Covers q) {n : Node K} (h : shop.draw frame p = .ok (some n)) :
    ∀ q ∈ n.extremes, (Box.ofSize frame.w frame.h).Covers q := by
  have hbox : ∀ {b : Box K}, (∀ q ∈ [b.origin, b.far], frame.Covers q) →
      ∀ q ∈ [(frame.boxToLocal b).origin, (frame.boxToLocal b).far], (Box.ofSize frame.w frame.h).Covers q := by
    intro b hb
    obtain ⟨horigin, hfar⟩ := List.forall_mem_cons.1 hb
    have hlocal : (frame.boxToLocal b).origin = b.origin - frame.origin ∧
        (frame.boxToLocal b).far = b.far - frame.origin := by
      refine ⟨Point.ext ?_ ?_, Point.ext ?_ ?_⟩ <;> simp [Box.boxToLocal, Box.moved] <;> ring
    rw [hlocal.1, hlocal.2]
    exact List.forall_mem_cons.2 ⟨horigin.toLocal, List.forall_mem_singleton.2
      (List.forall_mem_singleton.1 hfar).toLocal⟩
  cases p with
  | edge e style outline markers =>
    cases h
    exact List.forall_mem_flatMap.2 (stays_edgePath hblend hp style)
  | stencil shape b style outline markers =>
    cases shape <;>
    · cases h
      exact hbox hp
  | image src b style markers =>
    cases h
    exact hbox hp
  | text value b style => cases h
  | group edges style =>
    obtain ⟨path, hpath, h⟩ := Xml.map_eq_ok h
    cases h
    exact List.forall_mem_flatMap.2 (stays_joined (List.forall_mem_flatMap.1 hp) hpath)

omit [IsStrictOrderedRing K] in
/-- The edges of a primitive lie where the primitive does. -/
theorem covers_edgesOf {p : Primitive K} (hp : ∀ q ∈ p.extremes, frame.Covers q) {k : Nat} {edges : List (Edge K)}
    (h : edgesOf p k = .ok edges) : ∀ e ∈ edges, ∀ q ∈ e.points, frame.Covers q := by
  cases p with
  | edge e style outline markers =>
    cases h
    exact List.forall_mem_singleton.2 hp
  | group edges style =>
    cases h
    exact List.forall_mem_flatMap.1 hp
  | _ => cases h

theorem covers_drawBody (hblend : 0 ≤ shop.options.cornerBlend ∧ shop.options.cornerBlend ≤ 1)
    {background : Background} {arrangement : Arrangement} {body : List (Primitive K)}
    (hbody : ∀ p ∈ body, ∀ q ∈ p.extremes, frame.Covers q) {nodes : List (Node K)}
    (h : shop.drawBody frame background arrangement body = .ok nodes) :
    ∀ n ∈ nodes, ∀ q ∈ n.extremes, (Box.ofSize frame.w frame.h).Covers q := by
  cases arrangement with
  | shapes =>
    intro n hn
    obtain ⟨p, hp, hdraw | hpaint⟩ := drawShapes_cases h n hn
    · exact covers_draw hblend (hbody p hp) hdraw
    · rw [p.style.extremes_nodes background n hpaint]
      exact List.forall_mem_nil _
  | singlePath =>
    obtain ⟨edges, path, hedges, hpath, rfl⟩ := drawPath_eq_ok h
    have hcovers : ∀ e ∈ edges.flatten, ∀ q ∈ e.points, frame.Covers q := by
      intro e he
      obtain ⟨group, hgroup, he⟩ := List.mem_flatten.1 he
      obtain ⟨⟨p, k⟩, hp, hgroup⟩ := exists_of_mem_mapM hedges group hgroup
      exact covers_edgesOf (hbody p (List.fst_mem_of_mem_zipIdx hp)) hgroup e he
    refine List.forall_mem_cons.2 ⟨List.forall_mem_flatMap.2 (stays_joined hcovers hpath), ?_⟩
    exact List.forall_mem_singleton.2 (List.forall_mem_nil _)

/-- **A drawing fits its stencil**: all points that the steps of its paths name and two opposite corners of
each of its boxes lie within the width and the height of the stencil. -/
theorem fits_of_compose {selection : List (Primitive K)} {background : Background} {arrangement : Arrangement}
    {c : Composition K} (h : shop.compose selection background arrangement = .ok c)
    (hblend : 0 ≤ shop.options.cornerBlend ∧ shop.options.cornerBlend ≤ 1) :
    ∀ n ∈ c.stencil.foreground, ∀ q ∈ n.extremes,
      (0 ≤ q.x ∧ q.x ≤ c.stencil.w) ∧ 0 ≤ q.y ∧ q.y ≤ c.stencil.h := by
  obtain ⟨frame, nodes, connections, -, hframe, -, hnodes, -, rfl⟩ := compose_eq_ok.1 h
  have hbody : ∀ p ∈ selection.filter (!·.isText), ∀ q ∈ p.extremes, frame.Covers q := fun p hp =>
    covers_of_frameOf hframe (List.mem_filter.1 hp).1
  have hcovers : ∀ n ∈ Node.fillStroke :: nodes, ∀ q ∈ n.extremes, (Box.ofSize frame.w frame.h).Covers q :=
    List.forall_mem_cons.2 ⟨List.forall_mem_nil _, covers_drawBody hblend hbody hnodes⟩
  intro n hn q hq
  obtain ⟨hleft, hright, hupper, hlower⟩ := hcovers n hn q hq
  rw [Box.far_x] at hright
  rw [Box.far_y] at hlower
  exact ⟨⟨hleft, hright.trans_eq (zero_add frame.w)⟩, hupper, hlower.trans_eq (zero_add frame.h)⟩

end Workshop

/-- A rounded line, a curve, an image whose far corner is not its farthest one, and two edges that are drawn
as one path, the second one backwards. -/
def fitted : List (Primitive ℚ) :=
  [.edge ⟨.line, ⟨⟨1, 1⟩, [⟨5, 1⟩, ⟨5, 4⟩], ⟨9, 0⟩⟩⟩ { rounded := true } true [],
    .edge ⟨.curve, ⟨⟨0, 0⟩, [⟨1, 3⟩, ⟨2, -1⟩, ⟨3, 2⟩], ⟨4, 0⟩⟩⟩ {} false [],
    .image "data:image/png,0" ⟨5, 5, -2, 2⟩ {} [],
    .group [⟨.line, ⟨⟨6, 6⟩, [], ⟨7, 8⟩⟩⟩, ⟨.curve, ⟨⟨9, 9⟩, [⟨8, 10⟩], ⟨7, 8⟩⟩⟩] {}]

theorem Workshop.fits_of_compose_fitted :
    ∃ c : Composition ℚ, Workshop.bare.compose fitted .filled .shapes = .ok c ∧
      ∀ n ∈ c.stencil.foreground, ∀ q ∈ n.extremes,
        (0 ≤ q.x ∧ q.x ≤ c.stencil.w) ∧ 0 ≤ q.y ∧ q.y ≤ c.stencil.h := by
  have hok : (Workshop.bare.compose fitted .filled .shapes).toBool = true := by decide +kernel
  have hblend : 0 ≤ (Workshop.bare : Workshop ℚ).options.cornerBlend ∧
      (Workshop.bare : Workshop ℚ).options.cornerBlend ≤ 1 := by
    decide +kernel
  obtain ⟨c, hc⟩ := exists_ok_of_toBool hok
  exact ⟨c, hc, Workshop.fits_of_compose hc hblend⟩

end StencilKit
