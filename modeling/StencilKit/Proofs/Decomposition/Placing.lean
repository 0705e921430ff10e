/-
Where the parts of a composed stencil come to lie.

In exact coordinates taking a composition apart puts everything where fitting the composition's box into
the given one puts it, and nothing is lost on the way but the sizes of single spots. Only two things do
not come back with the points that they had: edges that are drawn as one path, and lines with rounded
corners.
-/
import StencilKit.Proofs.Coordinates.Exact
import StencilKit.Proofs.Decomposition.Redrawing

namespace StencilKit

/-! ## One box fitted into another -/

section

variable {α : Type} [Scalar α]

namespace Box

/-- Where a point comes to lie when a box is fitted into another. -/
def fit (frame target : Box α) (q : Point α) : Point α :=
  target.origin + (q - frame.origin) * (target.size / frame.size)

/-- As `fit`, of a box: its origin is moved along and its size scaled. -/
def fitBox (frame target b : Box α) : Box α :=
  let origin := frame.fit target b.origin
  let size := b.size * (target.size / frame.size)
  ⟨origin.x, origin.y, size.x, size.y⟩

end Box

/-- Whether a primitive lies where another one comes to lie when a box is fitted into another. -/
def Primitive.LiesAt (frame target : Box α) : Primitive α → Primitive α → Prop
  | edge e _ _ _, edge e' _ _ _ => e'.route = e.route.mapPoints (frame.fit target)
  | stencil _ b _ _ _, stencil _ b' _ _ _ => b' = frame.fitBox target b
  | image _ b _ _, image _ b' _ _ => b' = frame.fitBox target b
  | _, _ => False

/-- As `Primitive.LiesAt`, of markers. A spot only has its centre there, and a side of its own. -/
def Marker.LiesAt (side : α) (frame target : Box α) (m m' : Marker α) : Prop :=
  match m.anchorage, m'.anchorage with
  | .spot b, .spot b' => b'.size = ⟨side, side⟩ ∧ b'.center = frame.fit target b.center
  | .along e, .along e' => e'.kind = e.kind ∧ e'.route = e.route.mapPoints (frame.fit target)
  | .region kind shape b, .region kind' shape' b' => kind' = kind ∧ shape' = shape ∧ b' = frame.fitBox target b
  | _, _ => False

/-- Whether a primitive comes back with the points that it has: it is not a group, and no corner of it is
rounded. -/
def Primitive.keepsPoints : Primitive α → Bool
  | edge e style _ _ => !(e.kind == .line && style.rounded && decide (2 < e.points.length))
  | group _ _ => false
  | _ => true

theorem Primitive.LiesAt.of_sameButOutline {frame target : Box α} {p q r : Primitive α}
    (h : p.LiesAt frame target q) (hqr : q.SameButOutline r) : p.LiesAt frame target r := by
  rcases hqr with rfl | rfl
  · exact h
  · cases p <;> cases q <;> exact h

/-! ## Placements of compositions -/

namespace Workshop

variable {shop : Workshop α} {selection : List (Primitive α)} {background : Background}
  {arrangement : Arrangement} {c : Composition α}

theorem isDegenerate_of_compose (h : shop.compose selection background arrangement = .ok c) :
    c.bounds.isDegenerate = false := by
  obtain ⟨frame, nodes, connections, -, -, harea, -, -, rfl⟩ := compose_eq_ok.1 h
  exact harea

/-- **A composition is scaled from its box to the one that it is drawn into.** -/
theorem placement_of_compose (h : shop.compose selection background arrangement = .ok c) (target : Box α) :
    Placement.of c.stencil target = ⟨target.origin, target.size / c.bounds.size⟩ := by
  obtain ⟨frame, nodes, connections, -, -, harea, -, -, rfl⟩ := compose_eq_ok.1 h
  rw [Placement.of, Stencil.scaleTo, if_pos (Box.isDegenerate_eq_false.1 harea)]
  rfl

theorem size_eq_of_compose (h : shop.compose selection background arrangement = .ok c) :
    (⟨c.stencil.w, c.stencil.h⟩ : Point α) = c.bounds.size := by
  obtain ⟨frame, nodes, connections, -, -, -, -, -, rfl⟩ := compose_eq_ok.1 h
  rfl

end Workshop

/-- An edge that is drawn in a frame is the edge where the frame comes to lie. -/
theorem Placement.edge?_toLocal (m : Placement α) (frame : Box α) (kind : EdgeKind) (r : Route α) :
    m.edge? kind (r.points.map (· - frame.origin)) =
      some (.edge ⟨kind, r.mapPoints (m.carry frame)⟩ {} false []) := by
  have hpoints : (r.points.map (· - frame.origin)).map m.point = r.points.map (m.carry frame) :=
    m.map_point_toLocal frame r.points
  rw [edge?, hpoints, Route.ofPoints?_map_points]
  rfl

end

/-! ## Exact coordinates -/

section

variable {K : Type} [Field K] [LinearOrder K] [FloorRing K] [Transcendental K]

namespace Box

theorem ne_zero_of_isDegenerate {b : Box K} (h : b.isDegenerate = false) : b.w ≠ 0 ∧ b.h ≠ 0 := by
  obtain ⟨hw, hh⟩ := isDegenerate_eq_false.1 h
  exact ⟨ne_of_gt hw, ne_of_gt hh⟩

/-- **A box fitted into itself stays as it is.** -/
theorem fit_self {b : Box K} (h : b.isDegenerate = false) (q : Point K) : b.fit b q = q := by
  obtain ⟨hw, hh⟩ := ne_zero_of_isDegenerate h
  have hcoordinate : ∀ {o w : K} (a : K), w ≠ 0 → o + (a - o) * (w / w) = a := by
    intro o w a hw
    rw [div_self hw]
    ring
  exact Point.ext (hcoordinate q.x hw) (hcoordinate q.y hh)

theorem fitBox_self {b : Box K} (h : b.isDegenerate = false) (r : Box K) : b.fitBox b r = r := by
  obtain ⟨hw, hh⟩ := ne_zero_of_isDegenerate h
  have horigin := fit_self h r.origin
  have hsize : r.size * (b.size / b.size) = r.size := by
    have hcoordinate : ∀ {w : K} (a : K), w ≠ 0 → a * (w / w) = a := fun a hw => by rw [div_self hw, mul_one]
    exact Point.ext (hcoordinate r.w hw) (hcoordinate r.h hh)
  rw [fitBox, horigin, hsize]
  rfl

end Box

theorem Placement.carryBox_eq (frame target b : Box K) :
    (⟨target.origin, target.size / frame.size⟩ : Placement K).carryBox frame b = frame.fitBox target b := by
  have hcoordinate : ∀ o a s f : K, o + (a + -f) * s = o + (a - f) * s := by
    intro o a s f
    ring
  exact Box.ext (hcoordinate target.x b.x _ frame.x) (hcoordinate target.y b.y _ frame.y) rfl rfl

variable [IsStrictOrderedRing K]

/-- **An edge without rounded corners is read back with its points.** -/
theorem Workshop.edges_edgePath (shop : Workshop K) (frame : Box K) {e : Edge K} {style : Style K} {outline : Bool}
    {markers : List (Marker K)} (h : (Primitive.edge e style outline markers).keepsPoints = true) :
    ∃ kind, (shop.edgePath frame e style).edges = [(kind, e.points.map (· - frame.origin))] := by
  obtain ⟨kind, route⟩ := e
  obtain ⟨p, q, ps, hpoints, hlength⟩ := route.exists_local_points frame.origin
  unfold edgePath Edge.points
  dsimp only
  rw [hpoints]
  cases kind with
  | line =>
    cases hrounded : style.rounded with
    | false => exact ⟨_, Path.edges_straight p q ps⟩
    | true =>
      have hps : ps.length = 0 := by
        simpa [Primitive.keepsPoints, hrounded, Edge.points, hlength] using h
      obtain rfl := List.length_eq_zero_iff.1 hps
      exact ⟨.line, rfl⟩
  | curve =>
    dsimp only
    rw [Path.edges_ofCurve, Path.retraced_eq]
    split
    · rename_i hps
      exact ⟨.line, by rw [hps]⟩
    · exact ⟨.curve, rfl⟩

theorem Workshop.liesAt_of_redraws {shop : Workshop K} {frame target : Box K} {background : Background}
    {p : Primitive K} (hkeeps : p.keepsPoints = true) {group : List (Primitive K)}
    (h : shop.Redraws frame background ⟨target.origin, target.size / frame.size⟩ p group) :
    ∃ r, group = [r] ∧ p.LiesAt frame target r := by
  obtain ⟨node, hdraw, hgroup⟩ := h
  let m : Placement K := ⟨target.origin, target.size / frame.size⟩
  suffices h : ∃ q, m.painted node (p.style.redrawn background) = [q] ∧ p.LiesAt frame target q from
    exists_single_of_drawn (fun _ _ hlies => hlies.of_sameButOutline) h hgroup
  cases p with
  | edge e style outline markers =>
    cases hdraw
    obtain ⟨kind, hedges⟩ := edges_edgePath shop frame hkeeps
    refine ⟨.edge ⟨kind, e.route.mapPoints (frame.fit target)⟩ (style.redrawn background) false [], ?_, rfl⟩
    have hedge := m.edge?_toLocal frame kind e.route
    simp only [Placement.painted, Placement.drawn, hedges, Edge.points, List.filterMap_cons, hedge]
    rfl
  | stencil shape b style outline markers =>
    cases shape <;>
    · cases hdraw
      exact ⟨_, rfl, Placement.carryBox_eq frame target b⟩
  | image src b style markers =>
    cases hdraw
    exact ⟨_, rfl, Placement.carryBox_eq frame target b⟩
  | text value b style => cases hdraw
  | group edges style => cases hkeeps

/-- **A marker comes back where it lay**, and a spot in the size that spots have. -/
theorem Bench.liesAt_recovered {bench : Bench K} {frame target : Box K}
    (hplacement : bench.placement = ⟨target.origin, target.size / frame.size⟩) (hsize : bench.size = frame.size)
    (harea : frame.isDegenerate = false) (m : Marker K) :
    m.LiesAt bench.options.spotSize frame target (bench.recovered frame m) := by
  obtain ⟨label, anchorage⟩ := m
  cases anchorage with
  | spot b =>
    obtain ⟨hw, hh⟩ := Box.ne_zero_of_isDegenerate harea
    have hcenter : frame.fraction (frame.toLocal b.center) * bench.size = frame.toLocal b.center := by
      rw [hsize]
      exact Point.ext (div_mul_cancel₀ _ hw) (div_mul_cancel₀ _ hh)
    refine ⟨rfl, ?_⟩
    rw [hcenter, hplacement]
    have hcoordinate : ∀ a s : K, a - s / Scalar.two + s * Scalar.half = a := by
      intro a s
      rw [Scalar.two_eq, Scalar.half_eq]
      ring
    exact Point.ext (hcoordinate _ _) (hcoordinate _ _)
  | along e =>
    refine ⟨rfl, ?_⟩
    rw [hplacement]
    rfl
  | region kind shape b =>
    refine ⟨rfl, rfl, ?_⟩
    rw [hplacement]
    exact Placement.carryBox_eq frame target b

theorem forall₂_flatten_of_singletons {T U : Type} {R : T → U → Prop} {xs : List T} {groups : List (List U)}
    (h : List.Forall₂ (fun x group => ∃ y, group = [y] ∧ R x y) xs groups) :
    List.Forall₂ R xs groups.flatten := by
  induction h with
  | nil => exact .nil
  | cons hx _ ih =>
    obtain ⟨y, rfl, hxy⟩ := hx
    exact .cons hxy ih

/-- **Everything comes back where it lay**, in exact coordinates: in the place to which it goes when the
composition's box is fitted into the one that the stencil is drawn into. One primitive comes back for
each one that is not a text, and one marker for each outline that is left and each marker of a primitive.
What is drawn into the box that it was composed in stays as it was. -/
theorem geometry_decompose_compose {shop : Workshop K} {selection : List (Primitive K)} {background : Background}
    {c : Composition K} (h : shop.compose selection background .shapes = .ok c)
    (hkeeps : ∀ p ∈ selection, p.keepsPoints = true) (options : DecomposeOptions K) (target : Box K) :
    let body := selection.filter (!·.isText)
    let parts := c.stencil.decompose options target
    List.Forall₂ (Primitive.LiesAt c.bounds target) body parts.primitives ∧
      (∃ left : List Bool, left.length = body.length ∧
        List.Forall₂ (Marker.LiesAt options.spotSize c.bounds target)
          ((body.zip left).flatMap fun (p, alone) =>
            (if alone then p.outlineMarker?.toList else []) ++ p.placedMarkers)
          parts.markers) ∧
      (∀ q, c.bounds.fit c.bounds q = q) ∧ ∀ b, c.bounds.fitBox c.bounds b = b := by
  intro body parts
  have harea := Workshop.isDegenerate_of_compose h
  have hplacement := Workshop.placement_of_compose h target
  refine ⟨?_, ?_, Box.fit_self harea, Box.fitBox_self harea⟩
  · obtain ⟨groups, hgroups, hredraws⟩ := Workshop.decompose_groups h options target
    rw [hplacement] at hredraws
    have hbody : ∀ p ∈ body, p.keepsPoints = true := fun p hp => hkeeps p (List.mem_filter.1 hp).1
    rw [hgroups]
    refine forall₂_flatten_of_singletons ?_
    refine ((List.forall₂_and_left _ _).2 ⟨hbody, hredraws⟩).imp ?_
    rintro p group ⟨hp, hgroup⟩
    exact Workshop.liesAt_of_redraws hp hgroup
  · obtain ⟨left, hrestores, hmarkers⟩ := Workshop.restores_decompose h options target
    refine ⟨left, hrestores.length_left, ?_⟩
    rw [hmarkers, List.forall₂_map_right_iff, List.forall₂_same]
    exact fun m _ => Bench.liesAt_recovered hplacement (Workshop.size_eq_of_compose h) harea m

end

/-- A curve and a line that can be attached to, a box with markers, a text, and an image with a spot. -/
def scattered : List (Primitive ℚ) :=
  [.edge ⟨.curve, ⟨⟨0, 0⟩, [⟨1, 3⟩, ⟨2, -1⟩, ⟨3, 2⟩], ⟨4, 0⟩⟩⟩ { rounded := true } true
      [⟨"start", .spot ⟨-1, -1, 2, 2⟩⟩],
    .edge ⟨.line, ⟨⟨1, 1⟩, [⟨5, 1⟩], ⟨5, 4⟩⟩⟩ {} true [],
    .stencil .ellipse ⟨6, 1, 3, 2⟩ {} false
      [⟨"side", .along ⟨.line, ⟨⟨0, 0⟩, [], ⟨3, 0⟩⟩⟩⟩,
        ⟨"rim", .region .outline .rectangle ⟨0, 0, 1, 1⟩⟩],
    .text "caption" ⟨0, 6, 2, 1⟩ {},
    .image "data:image/png,0" ⟨5, 5, 2, 2⟩ {} [⟨"", .spot ⟨0, 0, 1, 1⟩⟩]]

theorem geometry_decompose_compose_scattered :
    ∃ c : Composition ℚ, Workshop.bare.compose scattered .filled .shapes = .ok c ∧
      List.Forall₂ (Primitive.LiesAt c.bounds ⟨10, 20, 30, 40⟩) (scattered.filter (!·.isText))
        (c.stencil.decompose .standard ⟨10, 20, 30, 40⟩).primitives := by
  have hok : (Workshop.bare.compose scattered .filled .shapes).toBool = true := by decide +kernel
  obtain ⟨c, hc⟩ := exists_ok_of_toBool hok
  obtain ⟨hprimitives, -⟩ := geometry_decompose_compose hc (by decide) .standard ⟨10, 20, 30, 40⟩
  exact ⟨c, hc, hprimitives⟩

end StencilKit
