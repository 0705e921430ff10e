/-
What becomes of the places to attach to when a composed stencil is taken apart.

Every source of attachment points left one block of connections. Of a block only what it was sampled
from counts, since a sampled point bears a tag of another kind than a single point does; so each block
comes to one step, `Bench.settle`: a primitive's own outline is given back to the first primitive that
it fits, and anything else becomes a marker again (`foldl_connect_block`). A whole stencil is these
steps in order (`decompose_composed`).

* `Restores`: how the outlines of a body are given back, primitive by primitive.
* `restores_decompose`: the markers that there are in the end, and what was done to the primitives.
-/
import StencilKit.Proofs.Composition.Frame
import StencilKit.Proofs.Decomposition.Naturality
import StencilKit.Proofs.Stencil.Tags

namespace StencilKit

/-! ## Where things come to lie -/

namespace Route

variable {α β : Type}

/-- The route with each of its points replaced. -/
def mapPoints (f : Point α → Point β) (r : Route α) : Route β := ⟨f r.source, r.bends.map f, f r.target⟩

@[simp] theorem points_mapPoints (f : Point α → Point β) (r : Route α) :
    (r.mapPoints f).points = r.points.map f := by
  simp [points, mapPoints]

theorem ofPoints?_map_points (f : Point α → Point β) (r : Route α) :
    ofPoints? (r.points.map f) = some (r.mapPoints f) := by
  rw [← points_mapPoints, ofPoints?_points]

theorem length_points (r : Route α) : r.points.length = r.bends.length + 2 := by
  simp [points]

end Route

namespace Placement

variable {α : Type} [Scalar α]

/-- Where a point of the drawing plane comes to lie that was composed in a frame. -/
def carry (m : Placement α) (frame : Box α) (p : Point α) : Point α := m.point (frame.toLocal p)

/-- Where a box of the drawing plane comes to lie that was composed in a frame. -/
def carryBox (m : Placement α) (frame b : Box α) : Box α := m.box (frame.boxToLocal b)

theorem map_point_toLocal (m : Placement α) (frame : Box α) (ps : List (Point α)) :
    (ps.map frame.toLocal).map m.point = ps.map (m.carry frame) := List.map_map

end Placement

/-! ## The first that fits -/

section

variable {T : Type} {p : T → Bool} {f : T → T}

theorem changeFirst?_eq_none {xs : List T} : changeFirst? p f xs = none ↔ ∀ x ∈ xs, p x = false := by
  induction xs with
  | nil => simp [changeFirst?]
  | cons x xs ih =>
    rw [changeFirst?, List.forall_mem_cons]
    cases hx : p x with
    | true => simp
    | false => simp [ih]

theorem changeFirst?_eq_some {xs ys : List T} (h : changeFirst? p f xs = some ys) :
    ∃ before x after, xs = before ++ x :: after ∧ p x = true ∧ (∀ y ∈ before, p y = false) ∧
      ys = before ++ f x :: after := by
  induction xs generalizing ys with
  | nil => cases h
  | cons x xs ih =>
    rw [changeFirst?] at h
    split at h
    · rename_i hx
      cases h
      exact ⟨[], x, xs, rfl, hx, List.forall_mem_nil _, rfl⟩
    · rename_i hx
      obtain ⟨zs, hzs, rfl⟩ := Option.map_eq_some_iff.1 h
      obtain ⟨before, y, after, rfl, hy, hbefore, rfl⟩ := ih hzs
      exact ⟨x :: before, y, after, rfl, hy, List.forall_mem_cons.2 ⟨by simpa using hx, hbefore⟩, rfl⟩

end

/-! ## One block after another -/

section

variable {α : Type} [Scalar α]

/-- What a source of attachment points is as a marker. -/
def Source.marker (s : Source α) : Marker α := ⟨s.label, s.anchorage⟩

/-- What a stencil is taken apart with, drawn into a box. -/
def Stencil.bench (s : Stencil α) (options : DecomposeOptions α) (placement : Box α) : Bench α :=
  ⟨options, .of s placement, ⟨s.w, s.h⟩⟩

namespace Bench

/-- The marker that a marker comes back as that was composed in a frame. A spot comes back in the size
that spots have. -/
def recovered (bench : Bench α) (frame : Box α) (m : Marker α) : Marker α :=
  ⟨m.label, match m.anchorage with
    | .spot b => .spot (bench.spotBox (bench.placement.point (frame.fraction (frame.toLocal b.center) * bench.size)))
    | .along e => .along ⟨e.kind, e.route.mapPoints (bench.placement.carry frame)⟩
    | .region kind shape b => .region kind shape (bench.placement.carryBox frame b)⟩

/-- Whether an outline that was composed in a frame fits a primitive. -/
def fits (bench : Bench α) (frame : Box α) : Anchorage α → Primitive α → Bool
  | .along e =>
    Primitive.fitsEdge bench.options.matchTolerance e.kind (e.points.map (bench.placement.carry frame))
  | .region .outline shape b =>
    Primitive.fitsRegion bench.options.matchTolerance shape (bench.placement.carryBox frame b)
  | _ => fun _ => false

/-- The parts after all connections of one source. -/
def settle (bench : Bench α) (frame : Box α) (parts : Parts α) (s : Source α) : Parts α :=
  parts.claimOr (if s.own then claim? (bench.fits frame s.anchorage) parts.primitives else none)
    [bench.recovered frame s.marker]

theorem spotLabel?_text (t : Tag) : spotLabel? t.text = if t.kind = .point then some t.label else none := by
  rw [spotLabel?, Tag.read_text]

/-- **Points that were sampled from something leave no marker.** -/
theorem foldl_connect_sampled (bench : Bench α) (parts : Parts α) {t : Tag} (ht : t.kind ≠ .point)
    (frame : Box α) (ps : List (Point α)) :
    (ps.map fun p => Connection.anchor (Sampling.anchor frame t.text p)).foldl bench.connect parts = parts := by
  have hspot : ∀ p, bench.spot? (Sampling.anchor frame t.text p) = none := by
    intro p
    show (spotLabel? t.text).map _ = none
    rw [spotLabel?_text, if_neg ht]
    rfl
  induction ps with
  | nil => rfl
  | cons p ps ih =>
    rw [List.map_cons, List.foldl_cons, connect, hspot, Option.toList_none, List.append_nil]
    exact ih

omit [Scalar α] in
theorem claim?_never (ps : List (Primitive α)) : claim? (fun _ => false) ps = none :=
  changeFirst?_eq_none.2 fun _ _ => rfl

theorem spot_eq_settle (bench : Bench α) (frame : Box α) (parts : Parts α) (own : Bool) {t : Tag}
    (ht : t.kind = .point) (b : Box α) :
    bench.connect parts (.anchor (Sampling.anchor frame t.text b.center)) =
      bench.settle frame parts ⟨own, t.label, .spot b⟩ := by
  have hspot : bench.spot? (Sampling.anchor frame t.text b.center) =
      some (bench.recovered frame ⟨t.label, .spot b⟩) := by
    show (spotLabel? t.text).map _ = _
    rw [spotLabel?_text, if_pos ht]
    rfl
  have hclaim : (if own then claim? (bench.fits frame (.spot b)) parts.primitives else none) = none := by
    cases own
    · rfl
    · exact claim?_never _
  rw [connect, hspot, settle, hclaim]
  rfl

theorem edge_eq_settle (bench : Bench α) (frame : Box α) (parts : Parts α) (own : Bool) (t : Tag) (e : Edge α) :
    bench.edge parts ⟨t.text, e.kind, own, e.points.map frame.toLocal⟩ =
      bench.settle frame parts ⟨own, t.label, .along e⟩ := by
  have hpoints : (e.points.map frame.toLocal).map bench.placement.point = e.points.map (bench.placement.carry frame) :=
    Placement.map_point_toLocal _ _ _
  rw [edge_eq]
  dsimp only
  rw [hpoints, Edge.points, Route.ofPoints?_map_points, Tag.labelOf_text]
  rfl

theorem region_eq_settle (bench : Bench α) (frame : Box α) (parts : Parts α) (own : Bool) (t : Tag)
    (kind : RegionKind) (shape : ShapeRef) (b : Box α) :
    bench.region parts ⟨t.text, kind, own, shape, frame.boxToLocal b⟩ =
      bench.settle frame parts ⟨own, t.label, .region kind shape b⟩ := by
  -- Only an outline is ever given back.
  have hclaim : (if own = true ∧ kind = .outline then
        claim? (Primitive.fitsRegion bench.options.matchTolerance shape (bench.placement.carryBox frame b))
          parts.primitives
      else none) =
      if own then claim? (bench.fits frame (.region kind shape b)) parts.primitives else none := by
    cases own with
    | false => rw [if_neg (by simp), if_neg (by simp)]
    | true =>
      cases kind with
      | outline => rfl
      | area => exact (claim?_never _).symm
  rw [region_eq, settle, ← hclaim]
  dsimp only
  rw [Tag.labelOf_text]
  rfl

/-- **A block of connections comes to one step.** -/
theorem foldl_connect_block (bench : Bench α) {shop : Workshop α} {frame : Box α} {s : Source α} {k : Nat}
    {cs : List (Connection α)} (h : shop.block frame s k = .ok cs) (parts : Parts α) :
    cs.foldl bench.connect parts = bench.settle frame parts s := by
  obtain ⟨own, label, anchorage⟩ := s
  cases anchorage with
  | spot b =>
    cases h
    exact bench.spot_eq_settle frame parts own (t := ⟨.point, .ofNat k, label⟩) rfl b
  | along e =>
    cases h
    have hkind : TagKind.ofEdge e.kind ≠ .point := by cases e.kind <;> decide
    have htrace := bench.edge_eq_settle frame parts own ⟨.ofEdge e.kind, .ofNat k, label⟩ e
    exact (bench.foldl_connect_sampled _ (t := ⟨.ofEdge e.kind, .ofNat k, label⟩) hkind frame _).trans htrace
  | region kind shape b =>
    obtain ⟨ps, -, rfl⟩ := Xml.map_eq_ok h
    have hkind : TagKind.ofRegion kind ≠ .point := by cases kind <;> decide
    have htrace := bench.region_eq_settle frame parts own ⟨.ofRegion kind, .ofNat k, label⟩ kind shape b
    exact (bench.foldl_connect_sampled _ (t := ⟨.ofRegion kind, .ofNat k, label⟩) hkind frame ps).trans htrace

theorem foldl_connect_blocks (bench : Bench α) {shop : Workshop α} {frame : Box α}
    {numbered : List (Source α × Nat)} {blocks : List (List (Connection α))}
    (h : List.Forall₂ (fun x block => shop.block frame x.1 x.2 = .ok block) numbered blocks) (parts : Parts α) :
    blocks.flatten.foldl bench.connect parts = (numbered.map Prod.fst).foldl (bench.settle frame) parts := by
  induction h generalizing parts with
  | nil => rfl
  | cons hblock _ ih =>
    rw [List.flatten_cons, List.foldl_append, foldl_connect_block bench hblock, ih]
    rfl

theorem foldl_connect_connections (bench : Bench α) {shop : Workshop α} {frame : Box α} {sources : List (Source α)}
    {cs : List (Connection α)} (h : shop.connections frame sources = .ok cs) (parts : Parts α) :
    cs.foldl bench.connect parts = sources.foldl (bench.settle frame) parts := by
  simp only [Workshop.connections, Xml.bind_eq_ok, pure, Except.pure, Except.ok.injEq] at h
  obtain ⟨blocks, hblocks, rfl⟩ := h
  rw [foldl_connect_blocks bench (forall₂_of_mapM hblocks), List.zipIdx_map_fst]

end Bench

/-- **A composed stencil is taken apart source by source**, after its foreground. -/
theorem Workshop.decompose_composed {shop : Workshop α} {selection : List (Primitive α)} {background : Background}
    {arrangement : Arrangement} {c : Composition α} (h : shop.compose selection background arrangement = .ok c)
    (options : DecomposeOptions α) (placement : Box α) :
    let bench := c.stencil.bench options placement
    c.stencil.decompose options placement =
      ((selection.filter (!·.isText)).flatMap (·.sources)).foldl (bench.settle c.bounds)
        ⟨bench.placement.primitives c.stencil.foreground, []⟩ := by
  obtain ⟨frame, nodes, connections, -, -, -, -, hconnections, rfl⟩ := compose_eq_ok.1 h
  exact Bench.foldl_connect_connections _ hconnections _

end

/-! ## Outlines given back -/

/-- The outline of a primitive, as a marker without a label. -/
def Primitive.outlineMarker? {α : Type} : Primitive α → Option (Marker α)
  | edge e _ _ _ => some ⟨"", .along e⟩
  | stencil shape b _ _ _ => some ⟨"", .region .outline shape b⟩
  | _ => none

/-- How the outlines of a body are given back: `Restores claims body ps qs left` says that primitive by
primitive of the body `ps` becomes `qs`. The first of `ps` that a primitive's own outline fits gets it.
`left` tells of each primitive whether its own outline is left, since it fits none. -/
inductive Restores {α : Type} (claims : Primitive α → Primitive α → Bool) :
    List (Primitive α) → List (Primitive α) → List (Primitive α) → List Bool → Prop
  | done (ps : List (Primitive α)) : Restores claims [] ps ps []
  | unmarked {p : Primitive α} {body ps qs : List (Primitive α)} {left : List Bool} :
    p.isOutline = false → Restores claims body ps qs left → Restores claims (p :: body) ps qs (false :: left)
  | claimed {p q : Primitive α} {body before after qs : List (Primitive α)} {left : List Bool} :
    p.isOutline = true → claims p q = true → (∀ r ∈ before, claims p r = false) →
    q.withOutline.isOutline = true → Restores claims body (before ++ q.withOutline :: after) qs left →
    Restores claims (p :: body) (before ++ q :: after) qs (false :: left)
  | unclaimed {p : Primitive α} {body ps qs : List (Primitive α)} {left : List Bool} :
    p.isOutline = true → (∀ q ∈ ps, claims p q = false) → Restores claims body ps qs left →
    Restores claims (p :: body) ps qs (true :: left)

section

variable {α : Type}

namespace Primitive

/-- Whether two primitives differ in nothing but whether the second has its outline back. -/
def SameButOutline (q r : Primitive α) : Prop := r = q ∨ r = q.withOutline

theorem withOutline_withOutline (p : Primitive α) : p.withOutline.withOutline = p.withOutline := by
  cases p <;> rfl

theorem SameButOutline.of_withOutline {q r : Primitive α} (h : q.withOutline.SameButOutline r) :
    q.SameButOutline r := by
  rcases h with rfl | rfl
  · exact .inr rfl
  · exact .inr q.withOutline_withOutline

theorem ownSource?_eq (p : Primitive α) : p.ownSource? =
    if p.isOutline then p.outlineMarker?.map fun m => ⟨true, m.label, m.anchorage⟩ else none := by
  cases p with
  | edge e style outline markers => cases outline <;> rfl
  | stencil shape b style outline markers => cases outline <;> rfl
  | _ => rfl

theorem exists_outlineMarker {p : Primitive α} (h : p.isOutline = true) : ∃ m, p.outlineMarker? = some m := by
  cases p with
  | edge e style outline markers => exact ⟨_, rfl⟩
  | stencil shape b style outline markers => exact ⟨_, rfl⟩
  | _ => cases h

end Primitive

/-- In a list that relates to another, a member may give way to one that relates to no less. -/
theorem forall₂_replace {T U : Type} {R : T → U → Prop} {x y : T} (hxy : ∀ z, R y z → R x z)
    {before after : List T} {zs : List U} (h : List.Forall₂ R (before ++ y :: after) zs) :
    List.Forall₂ R (before ++ x :: after) zs := by
  induction before generalizing zs with
  | nil =>
    cases h with
    | cons hy hafter => exact .cons (hxy _ hy) hafter
  | cons w before ih =>
    cases h with
    | cons hw hrest => exact .cons hw (ih hrest)

/-- It is told of each primitive of the body whether its outline is left. -/
theorem Restores.length_left {claims : Primitive α → Primitive α → Bool} {body ps qs : List (Primitive α)}
    {left : List Bool} (h : Restores claims body ps qs left) : left.length = body.length := by
  induction h with
  | done ps => rfl
  | unmarked _ _ ih => exact congrArg (· + 1) ih
  | claimed _ _ _ _ _ ih => exact congrArg (· + 1) ih
  | unclaimed _ _ _ ih => exact congrArg (· + 1) ih

/-- **Giving outlines back changes nothing else.** -/
theorem Restores.sameButOutline {claims : Primitive α → Primitive α → Bool} {body ps qs : List (Primitive α)}
    {left : List Bool} (h : Restores claims body ps qs left) :
    List.Forall₂ Primitive.SameButOutline ps qs := by
  induction h with
  | done ps => exact List.forall₂_same.2 fun _ _ => .inl rfl
  | unmarked _ _ ih => exact ih
  | claimed _ _ _ _ _ ih => exact forall₂_replace (fun _ hr => hr.of_withOutline) ih
  | unclaimed _ _ _ ih => exact ih

end

section

variable {α : Type} [Scalar α]

namespace Bench

/-- Whether the outline of a composed primitive fits a primitive that was drawn. -/
def claims (bench : Bench α) (frame : Box α) (p q : Primitive α) : Bool :=
  p.outlineMarker?.any fun m => bench.fits frame m.anchorage q

theorem claims_eq {p : Primitive α} {m : Marker α} (h : p.outlineMarker? = some m) (bench : Bench α)
    (frame : Box α) : bench.claims frame p = bench.fits frame m.anchorage := by
  funext q
  rw [claims, h]
  rfl

/-- What an outline fits is something that can have one. -/
theorem isOutline_withOutline_of_fits {bench : Bench α} {frame : Box α} {a : Anchorage α} {q : Primitive α}
    (h : bench.fits frame a q = true) : q.withOutline.isOutline = true := by
  cases q with
  | edge e style outline markers => rfl
  | stencil shape b style outline markers => rfl
  | _ =>
    cases a with
    | spot b => cases h
    | along e => cases h
    | region kind shape b => cases kind <;> cases h

theorem foldl_settle_markers (bench : Bench α) (frame : Box α) (ms : List (Marker α)) (parts : Parts α) :
    (ms.map fun m => (⟨false, m.label, m.anchorage⟩ : Source α)).foldl (bench.settle frame) parts =
      { parts with markers := parts.markers ++ ms.map (bench.recovered frame) } := by
  induction ms generalizing parts with
  | nil => simp
  | cons m ms ih =>
    rw [List.map_cons, List.foldl_cons, ih]
    simp [settle, Parts.claimOr, Source.marker]

/-- **What becomes of a body's outlines and markers**, after any parts. -/
theorem foldl_settle_body (bench : Bench α) (frame : Box α) (body : List (Primitive α)) (parts : Parts α) :
    ∃ left, Restores (bench.claims frame) body parts.primitives
        ((body.flatMap (·.sources)).foldl (bench.settle frame) parts).primitives left ∧
      ((body.flatMap (·.sources)).foldl (bench.settle frame) parts).markers = parts.markers ++
        ((body.zip left).flatMap fun (p, alone) =>
          (if alone then p.outlineMarker?.toList else []) ++ p.placedMarkers).map (bench.recovered frame) := by
  induction body generalizing parts with
  | nil => exact ⟨[], .done _, by simp⟩
  | cons p body ih =>
    rw [List.flatMap_cons, List.foldl_append, Primitive.sources, List.foldl_append, foldl_settle_markers,
      p.ownSource?_eq]
    cases hown : p.isOutline with
    | false =>
      obtain ⟨left, hrestores, hmarkers⟩ := ih { parts with
        markers := parts.markers ++ p.placedMarkers.map (bench.recovered frame) }
      exact ⟨false :: left, .unmarked hown hrestores, by simpa using hmarkers⟩
    | true =>
      obtain ⟨m, hm⟩ := Primitive.exists_outlineMarker hown
      have hsettle : bench.settle frame parts ⟨true, m.label, m.anchorage⟩ =
          parts.claimOr (claim? (bench.claims frame p) parts.primitives) [bench.recovered frame m] := by
        rw [claims_eq hm]
        rfl
      simp only [hm, Option.map_some, Option.toList_some, List.foldl_cons, List.foldl_nil, if_true, hsettle]
      cases hclaim : claim? (bench.claims frame p) parts.primitives with
      | none =>
        obtain ⟨left, hrestores, hmarkers⟩ := ih { parts with
          markers := parts.markers ++ [bench.recovered frame m] ++ p.placedMarkers.map (bench.recovered frame) }
        refine ⟨true :: left, .unclaimed hown (changeFirst?_eq_none.1 hclaim) hrestores, ?_⟩
        simpa [hm, Parts.claimOr] using hmarkers
      | some ps =>
        obtain ⟨before, q, after, hps, hq, hbefore, rfl⟩ := changeFirst?_eq_some hclaim
        obtain ⟨left, hrestores, hmarkers⟩ := ih {
          primitives := before ++ q.withOutline :: after
          markers := parts.markers ++ p.placedMarkers.map (bench.recovered frame) }
        refine ⟨false :: left, ?_, by simpa [Parts.claimOr] using hmarkers⟩
        rw [hps]
        have hflag : q.withOutline.isOutline = true :=
          isOutline_withOutline_of_fits ((congrFun (claims_eq hm bench frame) q).symm.trans hq)
        exact .claimed hown hq hbefore hflag hrestores

end Bench

/-- **The parts of a composed stencil.** Outlines are given back primitive by primitive; a marker comes
back for each outline that is left and for each marker of a primitive, in the order of the primitives. -/
theorem Workshop.restores_decompose {shop : Workshop α} {selection : List (Primitive α)} {background : Background}
    {arrangement : Arrangement} {c : Composition α} (h : shop.compose selection background arrangement = .ok c)
    (options : DecomposeOptions α) (placement : Box α) :
    let bench := c.stencil.bench options placement
    let body := selection.filter (!·.isText)
    let parts := c.stencil.decompose options placement
    ∃ left, Restores (bench.claims c.bounds) body (bench.placement.primitives c.stencil.foreground)
        parts.primitives left ∧
      parts.markers = ((body.zip left).flatMap fun (p, alone) =>
        (if alone then p.outlineMarker?.toList else []) ++ p.placedMarkers).map (bench.recovered c.bounds) := by
  intro bench body parts
  have hparts : parts = (body.flatMap (·.sources)).foldl (bench.settle c.bounds)
      ⟨bench.placement.primitives c.stencil.foreground, []⟩ := decompose_composed h options placement
  rw [hparts]
  exact bench.foldl_settle_body c.bounds body ⟨bench.placement.primitives c.stencil.foreground, []⟩

end

end StencilKit
