/-
Whether a composed selection comes back with the same primitives to attach to.

A primitive's own outline is given back to the first primitive that it fits. So the primitives that have
one in the end are those that are first for some outline (`Restores.isOutline_iff`). An outline may miss
the primitive that it belongs to in two ways. It may fit another one before that, and a curve of two points
comes back as a line, so that its outline fits nothing. Otherwise it misses it only for want of precision,
where coordinates are no longer finite or rounding moves the control points of a curve.

* `Restores.map_isOutline_eq_iff`: outlines come back as they were if each first fits its own primitive. If one
  fits first a primitive before its own, then counting down from the last one, some primitive goes without.
* `isOutline_decompose_compose_iff`: when that is so for what was composed.
-/
import StencilKit.Proofs.Binary64.Distance
import StencilKit.Proofs.Decomposition.Edges
import StencilKit.Proofs.Decomposition.Placing

namespace StencilKit

/-! ## The first that an outline fits -/

section

variable {α : Type} {claims : Primitive α → Primitive α → Bool}

/-- Whether an outline fits does not depend on whether a primitive has one. -/
def Blind (claims : Primitive α → Primitive α → Bool) : Prop := ∀ p q, claims p q.withOutline = claims p q

theorem Bench.blind_claims [Scalar α] (bench : Bench α) (frame : Box α) : Blind (bench.claims frame) := by
  intro p q
  cases hm : p.outlineMarker? with
  | none => rw [claims, claims, hm]; rfl
  | some m =>
    rw [claims_eq hm]
    cases m.anchorage with
    | spot b => rfl
    | along e => cases q <;> rfl
    | region kind shape b => cases kind <;> cases q <;> rfl

/-- What fits in the end has fitted from the beginning. -/
theorem Restores.map_claims (hblind : Blind claims) {body ps qs : List (Primitive α)} {left : List Bool}
    (h : Restores claims body ps qs left) (p : Primitive α) : ps.map (claims p) = qs.map (claims p) := by
  have hsame : ∀ q r : Primitive α, q.SameButOutline r → claims p q = claims p r := by
    rintro q r (rfl | rfl)
    · rfl
    · exact (hblind p q).symm
  have hfits : List.Forall₂ (fun q r => claims p q = claims p r) ps qs := h.sameButOutline.imp hsame
  rwa [← List.forall₂_eq_eq_eq, List.forall₂_map_left_iff, List.forall₂_map_right_iff]

theorem Restores.findIdx?_claims (hblind : Blind claims) {body ps qs : List (Primitive α)} {left : List Bool}
    (h : Restores claims body ps qs left) (p : Primitive α) :
    ps.findIdx? (claims p) = qs.findIdx? (claims p) := by
  have hmap : ∀ rs : List (Primitive α), rs.findIdx? (claims p) = (rs.map (claims p)).findIdx? id :=
    fun rs => (List.findIdx?_map (p := id)).symm
  rw [hmap, hmap, h.map_claims hblind]

theorem Restores.findIdx?_of_claimed (hblind : Blind claims) {p q : Primitive α}
    {body before after qs : List (Primitive α)} {left : List Bool} (hq : claims p q = true)
    (hbefore : ∀ r ∈ before, claims p r = false)
    (h : Restores claims body (before ++ q.withOutline :: after) qs left) :
    qs.findIdx? (claims p) = some before.length := by
  rw [← h.findIdx?_claims hblind, List.findIdx?_append, List.findIdx?_eq_none_iff.2 hbefore, List.findIdx?_cons,
    hblind, hq]
  simp

theorem Restores.findIdx?_of_unclaimed (hblind : Blind claims) {p : Primitive α} {body ps qs : List (Primitive α)}
    {left : List Bool} (hnone : ∀ q ∈ ps, claims p q = false) (h : Restores claims body ps qs left) :
    qs.findIdx? (claims p) = none := by
  rw [← h.findIdx?_claims hblind]
  exact List.findIdx?_eq_none_iff.2 hnone

/-- A member that is replaced is in its place, and the others are in theirs. -/
theorem exists_getElem?_replace {T : Type} {P : T → Prop} {x y : T} (hy : P y) (before after : List T) (j : Nat) :
    (∃ z, (before ++ y :: after)[j]? = some z ∧ P z) ↔
      (∃ z, (before ++ x :: after)[j]? = some z ∧ P z) ∨ before.length = j := by
  rcases lt_trichotomy j before.length with h | rfl | h
  · rw [List.getElem?_append_left h, List.getElem?_append_left h, or_iff_left (by omega)]
  · simpa using hy
  · obtain ⟨k, rfl⟩ := Nat.exists_eq_add_of_lt h
    have hafter : ∀ z : T, (before ++ z :: after)[before.length + k + 1]? = after[k]? := by
      intro z
      rw [Nat.add_assoc, List.getElem?_append_right (by omega), Nat.add_sub_cancel_left, List.getElem?_cons_succ]
    rw [hafter, hafter, or_iff_left (by omega)]

/-- **A primitive has an outline in the end** if it had one, or if it is the first that some outline fits. -/
theorem Restores.isOutline_iff (hblind : Blind claims) {body ps qs : List (Primitive α)} {left : List Bool}
    (h : Restores claims body ps qs left) (j : Nat) :
    (∃ q, qs[j]? = some q ∧ q.isOutline = true) ↔ (∃ q, ps[j]? = some q ∧ q.isOutline = true) ∨
      ∃ p ∈ body, p.isOutline = true ∧ qs.findIdx? (claims p) = some j := by
  induction h with
  | done ps => simp
  | unmarked hp _ ih => simp [ih, hp]
  | @claimed p q body before after qs left hp hq hbefore hflag hrest ih =>
    have hfirst := hrest.findIdx?_of_claimed hblind hq hbefore
    rw [ih, exists_getElem?_replace hflag (x := q), or_assoc]
    simp [hp, hfirst]
  | unclaimed hp hnone hrest ih =>
    have hfirst := hrest.findIdx?_of_unclaimed hblind hnone
    rw [ih]
    simp [hfirst]

/-- **An outline is left** that fits nothing. -/
theorem Restores.left_eq (hblind : Blind claims) {body ps qs : List (Primitive α)} {left : List Bool}
    (h : Restores claims body ps qs left) :
    left = body.map fun p => p.isOutline && (qs.findIdx? (claims p)).isNone := by
  induction h with
  | done ps => rfl
  | unmarked hp _ ih => rw [ih, List.map_cons, hp, Bool.false_and]
  | claimed hp hq hbefore hflag hrest ih =>
    have hfirst := hrest.findIdx?_of_claimed hblind hq hbefore
    rw [ih, List.map_cons, hfirst, Option.isNone_some, Bool.and_false]
  | unclaimed hp hnone hrest ih =>
    have hfirst := hrest.findIdx?_of_unclaimed hblind hnone
    rw [ih, List.map_cons, hp, hfirst, Option.isNone_none, Bool.and_true]

/-- Nothing becomes a marker if each outline fits something and nothing else is attached. -/
theorem Restores.flatMap_left_eq_nil [Scalar α] (hblind : Blind claims) {body ps qs : List (Primitive α)}
    {left : List Bool} (h : Restores claims body ps qs left) (hbare : ∀ p ∈ body, p.placedMarkers = [])
    (hfits : ∀ p ∈ body, p.isOutline = true → qs.findIdx? (claims p) ≠ none) :
    ((body.zip left).flatMap fun (p, alone) =>
      (if alone then p.outlineMarker?.toList else []) ++ p.placedMarkers) = [] := by
  rw [h.left_eq hblind, List.flatMap_eq_nil_iff]
  rintro ⟨p, alone⟩ hmem
  obtain ⟨i, hi⟩ := List.mem_iff_getElem?.1 hmem
  obtain ⟨hp, halone⟩ := List.getElem?_zip_eq_some.1 hi
  rw [List.getElem?_map, hp, Option.map_some, Option.some.injEq] at halone
  have hclaimed : alone = false := by
    refine Eq.trans halone.symm ?_
    cases houtline : p.isOutline with
    | true => simpa using hfits p (List.mem_of_getElem? hp) houtline
    | false => rfl
  simp [hclaimed, hbare p (List.mem_of_getElem? hp)]

/-- Two lists of a length have the same marks if the same places are marked. -/
theorem map_eq_map_iff {T U : Type} {P : T → Bool} {Q : U → Bool} {xs : List T} {ys : List U}
    (hlength : xs.length = ys.length) : xs.map P = ys.map Q ↔
      ∀ j : Nat, (∃ x, xs[j]? = some x ∧ P x = true) ↔ ∃ y, ys[j]? = some y ∧ Q y = true := by
  have hmark : ∀ {V : Type} (R : V → Bool) (zs : List V) (j : Nat),
      (∃ z, zs[j]? = some z ∧ R z = true) ↔ (zs.map R)[j]? = some true := by
    intro V R zs j
    rw [List.getElem?_map, Option.map_eq_some_iff]
  simp only [hmark]
  refine ⟨fun h j => by rw [h], fun h => List.ext_getElem? fun j => ?_⟩
  specialize h j
  rcases Nat.lt_or_ge j xs.length with hj | hj
  · have hj' : j < ys.length := hlength ▸ hj
    simp only [List.getElem?_map, List.getElem?_eq_getElem hj, List.getElem?_eq_getElem hj', Option.map_some,
      Option.some.injEq] at h ⊢
    exact Bool.eq_iff_iff.2 h
  · simp [List.getElem?_eq_none hj, List.getElem?_eq_none (hlength ▸ hj)]

/-- If each of some numbers below `n` leads to no greater one, and each of them is reached from one of them,
then each leads to itself: the greatest is reached from itself only, and so on downward. -/
theorem eq_some_self_of_covers {own : Nat → Prop} {first : Nat → Option Nat} {n : Nat}
    (hbound : ∀ i, own i → i < n) (hle : ∀ i k, own i → first i = some k → k ≤ i)
    (hcovers : ∀ j, own j → ∃ i, own i ∧ first i = some j) : ∀ j, own j → first j = some j := by
  have hdown : ∀ k j, own j → n ≤ j + k → first j = some j := by
    intro k
    induction k with
    | zero =>
      intro j hj hn
      have hlt := hbound j hj
      omega
    | succ k ih =>
      intro j hj hn
      obtain ⟨i, hi, hij⟩ := hcovers j hj
      rcases (hle i j hi hij).eq_or_lt with rfl | hlt
      · exact hij
      · have hself := ih i hi (by omega)
        rw [hself, Option.some.injEq] at hij
        omega
  exact fun j hj => hdown n j hj (Nat.le_add_left n j)

/-- **When outlines come back to their own.** Suppose that there are as many primitives as there were, that
none had an outline at first, and that no outline is given to a primitive after its own. Then the primitives
with an outline are those that had one, just if each outline first fits its own primitive. -/
theorem Restores.map_isOutline_eq_iff (hblind : Blind claims) {body ps qs : List (Primitive α)}
    {left : List Bool} (h : Restores claims body ps qs left) (hps : ∀ q ∈ ps, q.isOutline = false)
    (hlength : qs.length = body.length) (hle : ∀ (i : Nat) (p : Primitive α), body[i]? = some p →
      p.isOutline = true → ∀ k, qs.findIdx? (claims p) = some k → k ≤ i) :
    qs.map (·.isOutline) = body.map (·.isOutline) ↔
      ∀ (i : Nat) (p : Primitive α), body[i]? = some p → p.isOutline = true →
        qs.findIdx? (claims p) = some i := by
  have hflags : ∀ j, (∃ q, qs[j]? = some q ∧ q.isOutline = true) ↔
      ∃ p ∈ body, p.isOutline = true ∧ qs.findIdx? (claims p) = some j := by
    intro j
    rw [h.isOutline_iff hblind j, or_iff_right]
    rintro ⟨q, hq, houtline⟩
    exact absurd houtline (by simp [hps q (List.mem_of_getElem? hq)])
  rw [map_eq_map_iff hlength]
  constructor
  · intro hsame
    have hself : ∀ j, (∃ p, body[j]? = some p ∧ p.isOutline = true) →
        (body[j]?.bind fun p => qs.findIdx? (claims p)) = some j := by
      refine eq_some_self_of_covers (n := body.length) ?_ ?_ ?_
      · rintro i ⟨p, hp, -⟩
        exact (List.getElem?_eq_some_iff.1 hp).1
      · rintro i k ⟨p, hp, houtline⟩ hk
        exact hle i p hp houtline k (by simpa [hp] using hk)
      · intro j hj
        obtain ⟨p, hmem, houtline, hfirst⟩ := (hflags j).1 ((hsame j).2 hj)
        obtain ⟨i, hp⟩ := List.mem_iff_getElem?.1 hmem
        exact ⟨i, ⟨p, hp, houtline⟩, by simpa [hp] using hfirst⟩
    intro i p hp houtline
    simpa [hp] using hself i ⟨p, hp, houtline⟩
  · intro hself j
    rw [hflags]
    constructor
    · rintro ⟨p, hmem, houtline, hfirst⟩
      obtain ⟨i, hp⟩ := List.mem_iff_getElem?.1 hmem
      rw [hself i p hp houtline, Option.some.injEq] at hfirst
      exact ⟨p, hfirst ▸ hp, houtline⟩
    · rintro ⟨p, hp, houtline⟩
      exact ⟨p, List.mem_of_getElem? hp, houtline, hself j p hp houtline⟩

end

/-! ## What a single thing comes back as -/

/-- Whether a primitive is drawn as one thing that it can be told by, and nothing is attached to it: a line
has no rounded corners, and a shape is what its name means. -/
def Primitive.isBare {α : Type} : Primitive α → Bool
  | edge e style _ markers => (e.kind == .curve || !style.rounded) && markers.isEmpty
  | stencil shape _ _ _ markers => ShapeRef.ofName shape.name == shape && markers.isEmpty
  | _ => false

section

variable {α : Type} [Scalar α]

/-- The edge that the path of an edge is read back as, if no corner of it is rounded. -/
def Edge.readBack (frame : Box α) (e : Edge α) : EdgeKind × List (Point α) :=
  if e.kind = .curve ∧ e.route.bends ≠ [] then (.curve, Path.retraced (e.points.map frame.toLocal))
  else (.line, e.points.map frame.toLocal)

/-- Whether a primitive is one that a bare primitive comes back as. -/
def Primitive.Returns (m : Placement α) (frame : Box α) : Primitive α → Primitive α → Prop
  | edge e _ _ _, q => ∃ e', q.edge? = some e' ∧
    if e.kind = .curve ∧ e.route.bends ≠ [] then
      e'.kind = .curve ∧ e'.points = (Path.retraced (e.points.map frame.toLocal)).map m.point
    else e'.kind = .line ∧ e'.points = e.points.map (m.carry frame)
  | stencil shape b _ _ _, q => ∃ style outline, q = .stencil shape (m.carryBox frame b) style outline []
  | _, _ => False

theorem Primitive.Returns.of_sameButOutline {m : Placement α} {frame : Box α} {p q r : Primitive α}
    (h : p.Returns m frame q) (hqr : q.SameButOutline r) : p.Returns m frame r := by
  rcases hqr with rfl | rfl
  · exact h
  · cases p with
    | edge e style outline markers => rwa [Returns, q.edge?_withOutline]
    | stencil shape b style outline markers =>
      obtain ⟨style', outline', rfl⟩ := h
      exact ⟨style', true, rfl⟩
    | _ => cases h

/-- A curve that comes back has more than two points. -/
theorem Primitive.Returns.two_lt_length {m : Placement α} {frame : Box α} {p q : Primitive α}
    (h : p.Returns m frame q) {e' : Edge α} (he : q.edge? = some e') (hkind : e'.kind = .curve) :
    2 < e'.points.length := by
  cases p with
  | edge e style outline markers =>
    obtain ⟨_, he', hedge⟩ := h
    cases he.symm.trans he'
    split at hedge
    · rename_i hcurve
      have hbends : 0 < e.route.bends.length := List.length_pos_iff.2 hcurve.2
      rw [hedge.2, List.length_map, Path.length_retraced, List.length_map, Edge.points, Route.length_points]
      omega
    · rw [hedge.1] at hkind
      cases hkind
  | stencil shape b style outline markers =>
    obtain ⟨style', outline', rfl⟩ := h
    cases he
  | _ => cases h

/-- **An edge without rounded corners is read back as one edge.** -/
theorem Workshop.edges_edgePath_of_sharp (shop : Workshop α) (frame : Box α) {e : Edge α} {style : Style α}
    (h : (e.kind == .curve || !style.rounded) = true) : (shop.edgePath frame e style).edges = [e.readBack frame] := by
  obtain ⟨kind, route⟩ := e
  obtain ⟨p, q, ps, hpoints, hlength⟩ := route.exists_local_points frame.origin
  have hlocal : route.points.map frame.toLocal = p :: q :: ps := hpoints
  unfold edgePath Edge.readBack Edge.points
  dsimp only
  rw [hpoints, hlocal]
  cases kind with
  | line =>
    have hsharp : style.rounded = false := by simpa using h
    rw [hsharp, if_neg (by simp)]
    exact Path.edges_straight p q ps
  | curve =>
    have hbends : ps = [] ↔ route.bends = [] := by
      rw [← List.length_eq_zero_iff, ← List.length_eq_zero_iff]
      rw [Route.length_points] at hlength
      omega
    dsimp only
    rw [Path.edges_ofCurve]
    by_cases hps : ps = []
    · rw [if_pos hps, if_neg (by simp [hbends.1 hps]), hps]
    · rw [if_neg hps, if_pos ⟨rfl, mt hbends.2 hps⟩]

theorem Workshop.painted_edge (shop : Workshop α) (frame : Box α) (m : Placement α) {e : Edge α} {style : Style α}
    (h : (e.kind == .curve || !style.rounded) = true) (painting : Style α) :
    ∃ e', m.painted (.path (shop.edgePath frame e style)) painting = [.edge e' painting false []] ∧
      e'.drawn = ((e.readBack frame).1, (e.readBack frame).2.map m.point) := by
  have hedges := shop.edges_edgePath_of_sharp frame h
  have hlong : 2 ≤ (e.readBack frame).2.length :=
    Path.two_le_length_of_mem_edges (hedges ▸ List.mem_singleton_self (e.readBack frame))
  obtain ⟨e', hedge, hdrawn⟩ := m.exists_edge? (e.readBack frame).1 hlong
  refine ⟨e', ?_, hdrawn⟩
  simp only [Placement.painted, Placement.drawn, hedges, List.filterMap_cons, hedge]
  rfl

theorem Workshop.painted_stencil {shop : Workshop α} {frame : Box α} (m : Placement α) {shape : ShapeRef} {b : Box α}
    {style : Style α} {outline : Bool} {markers : List (Marker α)} {node : Node α}
    (h : shop.draw frame (.stencil shape b style outline markers) = .ok (some node))
    (hshape : ShapeRef.ofName shape.name = shape) (painting : Style α) :
    m.painted node painting = [.stencil shape (m.carryBox frame b) painting false []] := by
  cases shape with
  | rectangle =>
    cases h
    rfl
  | ellipse =>
    cases h
    rfl
  | named name =>
    cases h
    show [Primitive.stencil (.ofName (ShapeRef.named name).name) (m.carryBox frame b) _ false []] = _
    rw [hshape]
  | embedded token =>
    cases h
    show [Primitive.stencil (.ofName (ShapeRef.embedded token).name) (m.carryBox frame b) _ false []] = _
    rw [hshape]

/-- **A bare primitive comes back as one primitive.** -/
theorem Workshop.returns_of_redraws {shop : Workshop α} {frame : Box α} {background : Background}
    {m : Placement α} {p : Primitive α} (hbare : p.isBare = true) {group : List (Primitive α)}
    (h : shop.Redraws frame background m p group) : ∃ r, group = [r] ∧ p.Returns m frame r := by
  obtain ⟨node, hdraw, hgroup⟩ := h
  refine exists_single_of_drawn (fun _ _ hreturns => hreturns.of_sameButOutline) ?_ hgroup
  cases p with
  | edge e style outline markers =>
    cases hdraw
    obtain ⟨e', hpainted, hdrawn⟩ := shop.painted_edge frame m (Bool.and_eq_true_iff.1 hbare).1
      (style.redrawn background)
    refine ⟨_, hpainted, e', rfl, ?_⟩
    obtain ⟨hkind, hpoints⟩ := Prod.mk.inj hdrawn
    rw [hkind, hpoints]
    unfold Edge.readBack
    split
    · exact ⟨rfl, rfl⟩
    · exact ⟨rfl, m.map_point_toLocal frame e.points⟩
  | stencil shape b style outline markers =>
    have hshape : ShapeRef.ofName shape.name = shape := eq_of_beq (Bool.and_eq_true_iff.1 hbare).1
    exact ⟨_, painted_stencil m hdraw hshape _, _, _, rfl⟩
  | _ => cases hbare

/-! ## What an outline fits -/

/-- Whether a curve comes back with its control points, up to a tolerance. All but the first and the last are
told from the points halfway between them, so that this is a matter of rounding. -/
def Primitive.regainsPoints (tolerance : α) (m : Placement α) (frame : Box α) : Primitive α → Bool
  | edge e _ _ _ => e.kind == .line || e.route.bends.isEmpty ||
    (((Path.retraced (e.points.map frame.toLocal)).map m.point).zip (e.points.map (m.carry frame))).all
      fun (a, b) => a.isNear tolerance b
  | _ => true

/-- Whether a primitive comes back as something of its own form and in a finite place. A curve does so if it
has more than two points. -/
def Primitive.isRegular (m : Placement α) (frame : Box α) : Primitive α → Bool
  | edge e _ _ _ =>
    match e.kind with
    | .line => (e.points.map (m.carry frame)).all (·.isFinite)
    | .curve => !e.route.bends.isEmpty
  | stencil _ b _ _ _ => (m.carryBox frame b).origin.isFinite && (m.carryBox frame b).size.isFinite
  | _ => false

theorem Primitive.fitsEdge_iff {tolerance : α} {kind : EdgeKind} {ps : List (Point α)} {q : Primitive α} :
    fitsEdge tolerance kind ps q = true ↔ ∃ e, q.edge? = some e ∧ e.kind = kind ∧
      List.Forall₂ (fun a b => Point.isNear tolerance a b = true) e.points ps := by
  unfold fitsEdge
  cases q.edge? with
  | none => simp
  | some e => simp [List.forall₂_iff_zip, and_assoc]

end

section

variable {bench : Bench Float} {frame : Box Float} {p q : Primitive Float}

/-- **An outline fits what its own primitive comes back as**, if that is regular. -/
theorem Bench.claims_of_returns (htolerance : 0 ≤ bench.options.matchTolerance)
    (h : p.Returns bench.placement frame q) (hregular : p.isRegular bench.placement frame = true)
    (hregains : p.regainsPoints bench.options.matchTolerance bench.placement frame = true) :
    bench.claims frame p q = true := by
  cases p with
  | edge e style outline markers =>
    obtain ⟨e', he, hedge⟩ := h
    refine Primitive.fitsEdge_iff.2 ⟨e', he, ?_⟩
    cases hkind : e.kind with
    | line =>
      rw [if_neg (by simp [hkind])] at hedge
      have hfinite : ∀ a ∈ e.points.map (bench.placement.carry frame), a.isFinite = true := by
        simpa [Primitive.isRegular, hkind] using hregular
      rw [hedge.2, List.forall₂_same]
      exact ⟨hedge.1, fun a ha => Point.isNear_self htolerance (hfinite a ha)⟩
    | curve =>
      have hbends : e.route.bends ≠ [] := by simpa [Primitive.isRegular, hkind] using hregular
      rw [if_pos ⟨hkind, hbends⟩] at hedge
      rw [hedge.2, List.forall₂_iff_zip]
      refine ⟨hedge.1, by simp [Path.length_retraced], fun {a b} hab => ?_⟩
      rw [Primitive.regainsPoints, Bool.or_eq_true, Bool.or_eq_true] at hregains
      rcases hregains with (hline | hempty) | hnear
      · exact absurd (hkind.symm.trans (eq_of_beq hline)) (by decide)
      · exact absurd (List.isEmpty_iff.1 hempty) hbends
      · exact List.all_eq_true.1 hnear (a, b) hab
  | stencil shape b style outline markers =>
    obtain ⟨style', outline', rfl⟩ := h
    obtain ⟨horigin, hsize⟩ := Bool.and_eq_true_iff.1 hregular
    show (shape == shape && Point.isNear _ _ _ && Point.isNear _ _ _) = true
    rw [Point.isNear_self htolerance horigin, Point.isNear_self htolerance hsize, beq_self_eq_true]
    rfl
  | _ => cases h

/-- **The outline of a primitive fits nothing**, if that is not regular. -/
theorem Bench.not_claims_of_returns (htolerance : Scalar.isFinite bench.options.matchTolerance = true)
    (hbare : p.isBare = true) (hregular : p.isRegular bench.placement frame = false) {p' : Primitive Float}
    (h : p'.Returns bench.placement frame q) : bench.claims frame p q = false := by
  rw [← Bool.not_eq_true]
  intro hclaims
  cases p with
  | edge e style outline markers =>
    obtain ⟨e', he, hkind, hpoints⟩ := Primitive.fitsEdge_iff.1 hclaims
    cases hcase : e.kind with
    | line =>
      have hfinite : ∀ b ∈ e.points.map (bench.placement.carry frame), b.isFinite = true := by
        intro b hb
        obtain ⟨i, hi, rfl⟩ := List.getElem_of_mem hb
        have hnear := (List.forall₂_iff_get.1 hpoints).2 i (hpoints.length_eq ▸ hi) hi
        exact Point.isFinite_of_isNear htolerance hnear
      simp only [Primitive.isRegular, hcase, List.all_eq_true.2 hfinite] at hregular
      cases hregular
    | curve =>
      have hbends : e.route.bends = [] := by simpa [Primitive.isRegular, hcase] using hregular
      have htwo : e'.points.length = 2 := by
        rw [hpoints.length_eq, List.length_map, Edge.points, Route.length_points, hbends]
        rfl
      have hmore := h.two_lt_length he (hkind.trans hcase)
      omega
  | stencil shape b style outline markers =>
    cases q with
    | stencil shape' b' style' outline' markers' =>
      obtain ⟨hplace, hsize⟩ := Bool.and_eq_true_iff.1 hclaims
      have horigin := Point.isFinite_of_isNear htolerance (Bool.and_eq_true_iff.1 hplace).2
      have hfinite := Bool.and_eq_true_iff.2 ⟨horigin, Point.isFinite_of_isNear htolerance hsize⟩
      exact absurd (hfinite.symm.trans hregular) (by decide)
    | _ => cases hclaims
  | _ => cases hbare

theorem findIdx?_eq_some_iff_take {T : Type} {P : T → Bool} {xs : List T} {i : Nat} (hi : i < xs.length)
    (hP : P xs[i] = true) : xs.findIdx? P = some i ↔ ∀ x ∈ xs.take i, P x = false := by
  rw [List.findIdx?_eq_some_iff_getElem]
  constructor
  · rintro ⟨_, _, hbefore⟩ x hx
    obtain ⟨k, hk, rfl⟩ := List.mem_take_iff_getElem.1 hx
    exact Bool.eq_false_iff.2 (hbefore k (Nat.lt_of_lt_of_le hk (Nat.min_le_left _ _)))
  · intro hbefore
    refine ⟨hi, hP, fun k hk => ?_⟩
    exact Bool.eq_false_iff.1 (hbefore _ (List.mem_take_iff_getElem.2 ⟨k, by omega, rfl⟩))

/-- **The first that an outline fits is its own primitive**, if that is regular and the outline fits none
before it. Otherwise it is one of those, or there is none. -/
theorem Bench.findIdx?_claims_iff (htolerance : 0 ≤ bench.options.matchTolerance)
    (hfinite : Scalar.isFinite bench.options.matchTolerance = true) {body qs : List (Primitive Float)}
    (h : List.Forall₂ (Primitive.Returns bench.placement frame) body qs) {i : Nat} (hp : body[i]? = some p)
    (hbare : p.isBare = true)
    (hregains : p.regainsPoints bench.options.matchTolerance bench.placement frame = true) :
    (∀ k, qs.findIdx? (bench.claims frame p) = some k → k ≤ i) ∧
      (qs.findIdx? (bench.claims frame p) = some i ↔
        p.isRegular bench.placement frame = true ∧ ∀ q ∈ qs.take i, bench.claims frame p q = false) := by
  obtain ⟨hi, rfl⟩ := List.getElem?_eq_some_iff.1 hp
  have hi' : i < qs.length := h.length_eq ▸ hi
  have hreturns : body[i].Returns bench.placement frame qs[i] := (List.forall₂_iff_get.1 h).2 i hi hi'
  cases hregular : body[i].isRegular bench.placement frame with
  | true =>
    have hown : bench.claims frame body[i] qs[i] = true := claims_of_returns htolerance hreturns hregular hregains
    refine ⟨fun k hk => ?_, ?_⟩
    · obtain ⟨hk', -, hbefore⟩ := List.findIdx?_eq_some_iff_getElem.1 hk
      by_contra hlt
      exact hbefore i (Nat.lt_of_not_le hlt) hown
    · simp [findIdx?_eq_some_iff_take hi' hown]
  | false =>
    have hnone : qs.findIdx? (bench.claims frame body[i]) = none := by
      rw [List.findIdx?_eq_none_iff]
      intro q hq
      obtain ⟨k, hk, rfl⟩ := List.getElem_of_mem hq
      exact not_claims_of_returns hfinite hbare hregular ((List.forall₂_iff_get.1 h).2 k (h.length_eq ▸ hk) hk)
    simp [hnone]

@[simp] theorem Primitive.isOutline_mapStyle {α : Type} (f : Style α → Style α) (p : Primitive α) :
    (p.mapStyle f).isOutline = p.isOutline := by
  cases p <;> rfl

/-- What a foreground draws has no outline yet. -/
theorem Placement.isOutline_of_mem_primitives {α : Type} [Scalar α] {m : Placement α} {nodes : List (Node α)} :
    ∀ q ∈ m.primitives nodes, q.isOutline = false := by
  induction nodes with
  | nil => exact List.forall_mem_nil _
  | cons node nodes ih =>
    rw [primitives]
    split
    · refine List.forall_mem_append.2 ⟨List.forall_mem_map.2 fun q hq => ?_, ih⟩
      rw [Primitive.isOutline_mapStyle]
      exact (unpainted_of_mem_drawn hq).2
    · exact ih

/-- A bare primitive is not a text. -/
theorem Primitive.filter_of_isBare {α : Type} {selection : List (Primitive α)}
    (h : ∀ p ∈ selection, p.isBare = true) : selection.filter (!·.isText) = selection := by
  refine List.filter_eq_self.2 fun p hp => ?_
  have hbare := h p hp
  cases p <;> first | rfl | cases hbare

theorem Primitive.placedMarkers_of_isBare {α : Type} [Scalar α] {p : Primitive α} (h : p.isBare = true) :
    p.placedMarkers = [] := by
  cases p with
  | edge e style outline markers =>
    obtain rfl := List.isEmpty_iff.1 (Bool.and_eq_true_iff.1 h).2
    rfl
  | stencil shape b style outline markers =>
    obtain rfl := List.isEmpty_iff.1 (Bool.and_eq_true_iff.1 h).2
    rfl
  | _ => cases h

/-- **Bare primitives come back one by one.** -/
theorem Workshop.returns_decompose {α : Type} [Scalar α] {shop : Workshop α} {selection : List (Primitive α)}
    {background : Background} {c : Composition α} (h : shop.compose selection background .shapes = .ok c)
    (hbare : ∀ p ∈ selection, p.isBare = true) (options : DecomposeOptions α) (placement : Box α) :
    List.Forall₂ (Primitive.Returns (.of c.stencil placement) c.bounds) selection
      (c.stencil.decompose options placement).primitives := by
  obtain ⟨groups, hgroups, hredraws⟩ := decompose_groups h options placement
  rw [Primitive.filter_of_isBare hbare] at hredraws
  rw [hgroups]
  refine forall₂_flatten_of_singletons ?_
  refine ((List.forall₂_and_left _ _).2 ⟨hbare, hredraws⟩).imp ?_
  rintro p group ⟨hp, hgroup⟩
  exact returns_of_redraws hp hgroup

theorem DecomposeOptions.matchTolerance_standard : 0 ≤ (standard : DecomposeOptions Float).matchTolerance ∧
    Scalar.isFinite (standard : DecomposeOptions Float).matchTolerance = true := by decide +kernel

/-- **When a composed selection comes back with the same primitives to attach to.** The selection has lines
without rounded corners, curves, and shapes that are what their names mean, and nothing else is attached to
them; and rounding moves no control point of a curve further than the tolerance. Then the primitives that
come back with an outline are those that had one, and there are no markers, just if each outline belongs to
something regular, and fits none of the primitives before its own. -/
theorem isOutline_decompose_compose_iff {shop : Workshop Float} {selection : List (Primitive Float)}
    {background : Background} {c : Composition Float}
    (h : shop.compose selection background .shapes = .ok c) (hbare : ∀ p ∈ selection, p.isBare = true)
    (hregains : ∀ p ∈ selection, p.isOutline = true →
      p.regainsPoints DecomposeOptions.standard.matchTolerance (.of c.stencil c.bounds) c.bounds = true) :
    let bench := c.stencil.bench .standard c.bounds
    let parts := c.stencil.decompose .standard c.bounds
    parts.primitives.map (·.isOutline) = selection.map (·.isOutline) ∧ parts.markers = [] ↔
      ∀ (i : Nat) (p : Primitive Float), selection[i]? = some p → p.isOutline = true →
        p.isRegular bench.placement c.bounds = true ∧
          ∀ q ∈ parts.primitives.take i, bench.claims c.bounds p q = false := by
  intro bench parts
  obtain ⟨left, hrestores, hmarkers⟩ := Workshop.restores_decompose h .standard c.bounds
  rw [Primitive.filter_of_isBare hbare] at hrestores hmarkers
  have hblind := bench.blind_claims c.bounds
  have hreturns := Workshop.returns_decompose h hbare .standard c.bounds
  have hfirst : ∀ (i : Nat) (p : Primitive Float), selection[i]? = some p → p.isOutline = true →
      (∀ k, parts.primitives.findIdx? (bench.claims c.bounds p) = some k → k ≤ i) ∧
        (parts.primitives.findIdx? (bench.claims c.bounds p) = some i ↔
          p.isRegular bench.placement c.bounds = true ∧
            ∀ q ∈ parts.primitives.take i, bench.claims c.bounds p q = false) := by
    intro i p hp houtline
    have hmem := List.mem_of_getElem? hp
    exact bench.findIdx?_claims_iff DecomposeOptions.matchTolerance_standard.1
      DecomposeOptions.matchTolerance_standard.2 hreturns hp (hbare p hmem) (hregains p hmem houtline)
  have hflags := hrestores.map_isOutline_eq_iff hblind Placement.isOutline_of_mem_primitives
    hreturns.length_eq.symm fun i p hp houtline => (hfirst i p hp houtline).1
  constructor
  · rintro ⟨hsame, -⟩ i p hp houtline
    exact (hfirst i p hp houtline).2.1 (hflags.1 hsame i p hp houtline)
  · intro hregular
    have hself : ∀ (i : Nat) (p : Primitive Float), selection[i]? = some p → p.isOutline = true →
        parts.primitives.findIdx? (bench.claims c.bounds p) = some i :=
      fun i p hp houtline => (hfirst i p hp houtline).2.2 (hregular i p hp houtline)
    refine ⟨hflags.2 hself, ?_⟩
    rw [hmarkers, hrestores.flatMap_left_eq_nil hblind (fun p hp => Primitive.placedMarkers_of_isBare (hbare p hp)),
      List.map_nil]
    intro p hp houtline
    obtain ⟨i, hi⟩ := List.mem_iff_getElem?.1 hp
    exact fun hnone => Option.some_ne_none i ((hself i p hi houtline).symm.trans hnone)

end

/-! ## Three selections -/

/-- The parts of a composed selection as they are found source by source, without the sampled points. -/
def Composition.settled {α : Type} [Scalar α] (c : Composition α) (selection : List (Primitive α)) : Parts α :=
  let bench := c.stencil.bench .standard c.bounds
  ((selection.filter (!·.isText)).flatMap (·.sources)).foldl (bench.settle c.bounds)
    ⟨bench.placement.primitives c.stencil.foreground, []⟩

theorem Composition.decompose_eq_settled {α : Type} [Scalar α] {shop : Workshop α} {selection : List (Primitive α)}
    {background : Background} {arrangement : Arrangement} {c : Composition α}
    (h : shop.compose selection background arrangement = .ok c) :
    c.stencil.decompose .standard c.bounds = c.settled selection :=
  Workshop.decompose_composed h .standard c.bounds

/-- An ellipse that can be attached to, a line, the same line where it cannot, and two curves. -/
def tethered : List (Primitive Float) :=
  [.stencil .ellipse ⟨6, 1, 3, 2⟩ {} true [],
    .edge ⟨.line, ⟨⟨0, 0⟩, [⟨4, 0⟩], ⟨4, 4⟩⟩⟩ {} true [],
    .edge ⟨.line, ⟨⟨0, 0⟩, [⟨4, 0⟩], ⟨4, 4⟩⟩⟩ {} false [],
    .edge ⟨.curve, ⟨⟨0, 8⟩, [⟨1, 10⟩, ⟨2, 7⟩], ⟨3, 9⟩⟩⟩ { rounded := true } true [],
    .edge ⟨.curve, ⟨⟨0, 4⟩, [], ⟨2, 5⟩⟩⟩ {} false []]

theorem isOutline_decompose_compose_iff_tethered :
    ∃ c : Composition Float, Workshop.bare.compose tethered .filled .shapes = .ok c ∧
      (c.stencil.decompose .standard c.bounds).primitives.map (·.isOutline) = tethered.map (·.isOutline) ∧
      (c.stencil.decompose .standard c.bounds).markers = [] := by
  have hok : (Workshop.bare.compose tethered .filled .shapes).toOption.any (fun c =>
      let bench := c.stencil.bench .standard c.bounds
      decide ((∀ p ∈ tethered, p.isOutline = true →
          p.regainsPoints DecomposeOptions.standard.matchTolerance bench.placement c.bounds = true) ∧
        ∀ x ∈ tethered.zipIdx, x.1.isOutline = true → x.1.isRegular bench.placement c.bounds = true ∧
          ∀ q ∈ (c.settled tethered).primitives.take x.2, bench.claims c.bounds x.1 q = false)) = true := by
    decide +kernel
  obtain ⟨c, hc, hcheck⟩ := exists_ok_of_any hok
  obtain ⟨hregains, hregular⟩ := of_decide_eq_true hcheck
  refine ⟨c, hc, (isOutline_decompose_compose_iff hc (by decide +kernel) hregains).2 ?_⟩
  intro i p hp
  rw [Composition.decompose_eq_settled hc]
  exact hregular (p, i) (List.mem_zipIdx_iff_getElem?.2 hp)

/-- Two equal lines that can be attached to. -/
def twins : List (Primitive Float) :=
  [.edge ⟨.line, ⟨⟨0, 0⟩, [], ⟨4, 2⟩⟩⟩ {} true [], .edge ⟨.line, ⟨⟨0, 0⟩, [], ⟨4, 2⟩⟩⟩ {} true []]

/-- A curve of two points that can be attached to. -/
def chord : List (Primitive Float) := [.edge ⟨.curve, ⟨⟨0, 0⟩, [], ⟨4, 2⟩⟩⟩ {} true []]

/-- The first of two equal lines gets both outlines, and the outline of a curve of two points is a marker. -/
theorem not_isOutline_decompose_twins_chord :
    (∃ c : Composition Float, Workshop.bare.compose twins .filled .shapes = .ok c ∧
      (c.stencil.decompose .standard c.bounds).primitives.map (·.isOutline) ≠ twins.map (·.isOutline)) ∧
    ∃ c : Composition Float, Workshop.bare.compose chord .filled .shapes = .ok c ∧
      (c.stencil.decompose .standard c.bounds).primitives.map (·.isOutline) ≠ chord.map (·.isOutline) ∧
      (c.stencil.decompose .standard c.bounds).markers ≠ [] := by
  constructor
  · have hok : (Workshop.bare.compose twins .filled .shapes).toOption.any (fun c =>
        decide ((c.settled twins).primitives.map (·.isOutline) ≠ twins.map (·.isOutline))) = true := by
      decide +kernel
    obtain ⟨c, hc, hflags⟩ := exists_ok_of_any hok
    refine ⟨c, hc, ?_⟩
    rw [Composition.decompose_eq_settled hc]
    exact of_decide_eq_true hflags
  · have hok : (Workshop.bare.compose chord .filled .shapes).toOption.any (fun c =>
        decide ((c.settled chord).primitives.map (·.isOutline) ≠ chord.map (·.isOutline) ∧
          (c.settled chord).markers ≠ [])) = true := by
      decide +kernel
    obtain ⟨c, hc, hcheck⟩ := exists_ok_of_any hok
    refine ⟨c, hc, ?_⟩
    rw [Composition.decompose_eq_settled hc]
    exact of_decide_eq_true hcheck

end StencilKit
