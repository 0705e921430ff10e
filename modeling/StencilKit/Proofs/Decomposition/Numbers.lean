/-
The parts of a finite stencil hold numbers.

A coordinate of a part may overflow, but it is never not a number, when the stencil is finite and is
drawn at its own size (`reflexive_decompose`): each coordinate is computed from finite ones by a chain
of operations in which at most one operand is infinite. The pen matters here, since an edge begins
where the pen is: it only ever stands at points that the path names.
-/
import StencilKit.Proofs.Binary64.Numbers
import StencilKit.Proofs.Decomposition.Naturality

namespace StencilKit

open Binary64

/-! ## Points and placements -/

namespace Point

theorem isFinite_iff {p : Point Float} :
    p.isFinite = true ↔ Scalar.isFinite p.x = true ∧ Scalar.isFinite p.y = true := Bool.and_eq_true_iff

theorem isFinite_of_numbers {p : Point Float} (h : ∀ a ∈ p.numbers, Scalar.isFinite a = true) :
    p.isFinite = true :=
  isFinite_iff.2 ⟨h p.x (by simp [numbers]), h p.y (by simp [numbers])⟩

theorem reflexive_iff {p : Point Float} :
    Reflexive p.numbers ↔ (p.x == p.x) = true ∧ (p.y == p.y) = true := by
  simp [Reflexive, numbers]

theorem reflexive_of_isFinite {p : Point Float} (h : p.isFinite = true) : Reflexive p.numbers := by
  obtain ⟨hx, hy⟩ := isFinite_iff.1 h
  exact reflexive_iff.2 ⟨beq_self_of_isFinite hx, beq_self_of_isFinite hy⟩

theorem isScale_half : IsScale (Scalar.half : Float) := ⟨.positive, 2 ^ 52, -53, by norm_num, rfl⟩

/-- A control point that is found from finite ones. -/
theorem reflexive_beyond {control mid : Point Float} (hc : control.isFinite = true)
    (hm : mid.isFinite = true) : Reflexive (control.beyond mid).numbers := by
  obtain ⟨hcx, hcy⟩ := isFinite_iff.1 hc
  obtain ⟨hmx, hmy⟩ := isFinite_iff.1 hm
  refine reflexive_iff.2 ⟨?_, ?_⟩
  · exact add_self_beq hcx (div_self_beq (sub_self_beq (beq_self_of_isFinite hmx) hcx) isScale_half)
  · exact add_self_beq hcy (div_self_beq (sub_self_beq (beq_self_of_isFinite hmy) hcy) isScale_half)

end Point

/-- A placement that makes no number infinite by itself, and none zero. -/
structure Placement.IsSound (m : Placement Float) : Prop where
  origin : m.origin.isFinite = true
  scale : IsScale m.scale.x ∧ IsScale m.scale.y

namespace Placement

/-- A stencil drawn at its own size. -/
theorem isSound_of {s : Stencil Float} {b : Box Float} (hx : Scalar.isFinite b.x = true)
    (hy : Scalar.isFinite b.y = true) (hw : b.w = s.w) (hh : b.h = s.h)
    (hfw : Scalar.isFinite s.w = true) (hfh : Scalar.isFinite s.h = true)
    (hpos : 0 < s.w ∧ 0 < s.h) : (Placement.of s b).IsSound where
  origin := Point.isFinite_iff.2 ⟨hx, hy⟩
  scale := by
    have hscale : (Placement.of s b).scale = ⟨s.w / s.w, s.h / s.h⟩ := by
      show s.scaleTo b.size = _
      rw [Stencil.scaleTo, if_pos (by exact hpos), Box.size, hw, hh]
      rfl
    rw [hscale]
    exact ⟨isScale_div_self (isScale_of_pos hfw hpos.1), isScale_div_self (isScale_of_pos hfh hpos.2)⟩

variable {m : Placement Float}

theorem reflexive_point (hm : m.IsSound) {p : Point Float} (hp : Reflexive p.numbers) :
    Reflexive (m.point p).numbers := by
  obtain ⟨hx, hy⟩ := Point.isFinite_iff.1 hm.origin
  obtain ⟨hpx, hpy⟩ := Point.reflexive_iff.1 hp
  exact Point.reflexive_iff.2
    ⟨add_self_beq hx (mul_self_beq hpx hm.scale.1), add_self_beq hy (mul_self_beq hpy hm.scale.2)⟩

theorem reflexive_box (hm : m.IsSound) {b : Box Float} (hb : ∀ a ∈ b.numbers, Scalar.isFinite a = true) :
    Reflexive (m.box b).numbers := by
  have horigin : b.origin.isFinite = true :=
    Point.isFinite_iff.2 ⟨hb b.x (by simp [Box.numbers]), hb b.y (by simp [Box.numbers])⟩
  obtain ⟨hx, hy⟩ := Point.reflexive_iff.1 (reflexive_point hm (Point.reflexive_of_isFinite horigin))
  have hw := mul_self_beq (beq_self_of_isFinite (hb b.w (by simp [Box.numbers]))) hm.scale.1
  have hh := mul_self_beq (beq_self_of_isFinite (hb b.h (by simp [Box.numbers]))) hm.scale.2
  show Reflexive [(m.point b.origin).x, (m.point b.origin).y, b.w * m.scale.x, b.h * m.scale.y]
  exact List.forall_mem_cons.2 ⟨hx, List.forall_mem_cons.2 ⟨hy, List.forall_mem_cons.2
    ⟨hw, List.forall_mem_singleton.2 hh⟩⟩⟩

end Placement

/-! ## Runs of a path -/

/-- What holds of the one member of an option. -/
theorem forall_mem_some {T : Type} {P : T → Prop} {x : T} (h : P x) : ∀ y ∈ some x, P y := by
  rintro y ⟨⟩
  exact h

theorem forall_mem_none {T : Type} {P : T → Prop} : ∀ y ∈ (none : Option T), P y := by
  rintro y ⟨⟩

namespace Run

/-- Whether a run names finite points only. -/
def IsFinite : Run Float → Prop
  | move stop => stop.isFinite = true
  | lines first more => ∀ p ∈ first :: more, p.isFinite = true
  | quads first more => ∀ q ∈ first :: more, q.1.isFinite = true ∧ q.2.isFinite = true
  | close => True

theorem isFinite_runs {path : Path Float} (h : ∀ s ∈ path, ∀ a ∈ s.numbers, Scalar.isFinite a = true) :
    ∀ r ∈ path.runs, r.IsFinite := by
  induction path with
  | nil => simp [Path.runs]
  | cons s rest ih =>
    have hs := h s List.mem_cons_self
    have ih := ih fun t ht => h t (List.mem_cons_of_mem _ ht)
    cases s with
    | move p =>
      rw [Path.runs]
      exact List.forall_mem_cons.2 ⟨Point.isFinite_of_numbers hs, ih⟩
    | close =>
      rw [Path.runs]
      exact List.forall_mem_cons.2 ⟨trivial, ih⟩
    | line p =>
      have hp := Point.isFinite_of_numbers hs
      rw [Path.runs]
      split
      · rename_i q more rs hruns
        rw [hruns] at ih
        obtain ⟨hfirst, hrest⟩ := List.forall_mem_cons.1 ih
        exact List.forall_mem_cons.2 ⟨List.forall_mem_cons.2 ⟨hp, hfirst⟩, hrest⟩
      · exact List.forall_mem_cons.2 ⟨List.forall_mem_singleton.2 hp, ih⟩
    | quad control stop =>
      have hc : control.isFinite = true := Point.isFinite_of_numbers fun a ha => hs a (List.mem_append_left _ ha)
      have hstop : stop.isFinite = true := Point.isFinite_of_numbers fun a ha => hs a (List.mem_append_right _ ha)
      rw [Path.runs]
      split
      · rename_i q more rs hruns
        rw [hruns] at ih
        obtain ⟨hfirst, hrest⟩ := List.forall_mem_cons.1 ih
        exact List.forall_mem_cons.2 ⟨List.forall_mem_cons.2 ⟨⟨hc, hstop⟩, hfirst⟩, hrest⟩
      · exact List.forall_mem_cons.2 ⟨List.forall_mem_singleton.2 ⟨hc, hstop⟩, ih⟩

theorem reflexive_controls {first : Point Float × Point Float} {more : List (Point Float × Point Float)}
    (h : ∀ q ∈ first :: more, q.1.isFinite = true ∧ q.2.isFinite = true) :
    ∀ p ∈ controls first more, Reflexive p.numbers := by
  fun_induction controls first more with
  | case1 => simp
  | case2 first control stop =>
    exact List.forall_mem_singleton.2 (Point.reflexive_of_isFinite (h (control, stop) (by simp)).1)
  | case3 control mid next q rest ih =>
    obtain ⟨hfirst, hrest⟩ := List.forall_mem_cons.1 h
    exact List.forall_mem_cons.2 ⟨Point.reflexive_beyond hfirst.1 hfirst.2, ih hrest⟩

/-- The points of the edge that a run draws are numbers, and the pen stays at finite points. -/
structure IsSound (drawn : Option (EdgeKind × List (Point Float)) × Pen Float) : Prop where
  points : ∀ e ∈ drawn.1, ∀ p ∈ e.2, Reflexive p.numbers
  at? : ∀ p ∈ drawn.2.at?, p.isFinite = true
  start? : ∀ p ∈ drawn.2.start?, p.isFinite = true

theorem isSound_draw {pen : Pen Float} (hat : ∀ p ∈ pen.at?, p.isFinite = true)
    (hstart : ∀ p ∈ pen.start?, p.isFinite = true) {r : Run Float} (hr : r.IsFinite) :
    IsSound (r.draw pen) := by
  obtain ⟨at?, start?⟩ := pen
  have hnumber : ∀ {ps : List (Point Float)}, (∀ p ∈ ps, p.isFinite = true) → ∀ p ∈ ps, Reflexive p.numbers :=
    fun hps p hp => Point.reflexive_of_isFinite (hps p hp)
  have hlast : ∀ {ps : List (Point Float)}, (∀ p ∈ ps, p.isFinite = true) → ∀ p ∈ ps.getLast?, p.isFinite = true :=
    fun hps p hp => hps p (List.mem_of_getLast? hp)
  cases r with
  | move p => exact ⟨forall_mem_none, forall_mem_some hr, forall_mem_some hr⟩
  | lines p more =>
    cases at? with
    | some a =>
      have ha : a.isFinite = true := hat a rfl
      exact ⟨forall_mem_some (hnumber (List.forall_mem_cons.2 ⟨ha, hr⟩)), hlast hr, hstart⟩
    | none =>
      obtain ⟨hp, hmore⟩ := List.forall_mem_cons.1 hr
      cases more with
      | nil => exact ⟨forall_mem_none, forall_mem_some hp, forall_mem_some hp⟩
      | cons q more => exact ⟨forall_mem_some (hnumber hr), hlast hmore, forall_mem_some hp⟩
  | quads first more =>
    have hfirst := hr first List.mem_cons_self
    have hbegin : (at?.getD first.1).isFinite = true := by
      cases at? with
      | none => exact hfirst.1
      | some a => exact hat a rfl
    have hend := (hr _ (List.getLast_mem (List.cons_ne_nil first more))).2
    refine ⟨forall_mem_some ?_, ?_, forall_mem_some ?_⟩
    · show ∀ p ∈ curvePoints _ _ _, _
      rw [curvePoints]
      refine List.forall_mem_append.2 ⟨List.forall_mem_cons.2 ⟨Point.reflexive_of_isFinite hbegin,
        List.forall_mem_cons.2 ⟨Point.reflexive_of_isFinite hfirst.1, reflexive_controls hr⟩⟩, ?_⟩
      exact List.forall_mem_singleton.2 (Point.reflexive_of_isFinite hend)
    · have hlast? : (curvePoints (at?.getD first.1) first more).getLast? =
          some ((first :: more).getLast (List.cons_ne_nil _ _)).2 := by
        rw [curvePoints, List.getLast?_append, List.getLast?_singleton]
        rfl
      show ∀ p ∈ (curvePoints (at?.getD first.1) first more).getLast?, p.isFinite = true
      rw [hlast?]
      exact forall_mem_some hend
    · cases start? with
      | none => exact hbegin
      | some start => exact hstart start rfl
  | close =>
    cases at? with
    | none => exact ⟨forall_mem_none, hstart, hstart⟩
    | some a =>
      cases start? with
      | none => exact ⟨forall_mem_none, hstart, hstart⟩
      | some start =>
        refine ⟨?_, hstart, hstart⟩
        show ∀ e ∈ (if a == start then none else some (EdgeKind.line, [a, start])), ∀ p ∈ e.2, Reflexive p.numbers
        split
        · exact forall_mem_none
        · have ha := Point.reflexive_of_isFinite (hat a rfl)
          have hs := Point.reflexive_of_isFinite (hstart start rfl)
          exact forall_mem_some (List.forall_mem_cons.2 ⟨ha, List.forall_mem_singleton.2 hs⟩)

theorem reflexive_drawAll {pen : Pen Float} (hat : ∀ p ∈ pen.at?, p.isFinite = true)
    (hstart : ∀ p ∈ pen.start?, p.isFinite = true) {rs : List (Run Float)} (hrs : ∀ r ∈ rs, r.IsFinite) :
    ∀ e ∈ drawAll pen rs, ∀ p ∈ e.2, Reflexive p.numbers := by
  induction rs generalizing pen with
  | nil => simp [drawAll]
  | cons r rs ih =>
    obtain ⟨hr, hrest⟩ := List.forall_mem_cons.1 hrs
    have hsound := isSound_draw hat hstart hr
    intro e he
    rw [drawAll] at he
    rcases List.mem_append.1 he with he | he
    · exact hsound.points e (Option.mem_toList.1 he)
    · exact ih hsound.at? hsound.start? hrest e he

end Run

/-- The points of the edges that a finite path draws. -/
theorem Path.reflexive_edges {path : Path Float} (h : ∀ s ∈ path, ∀ a ∈ s.numbers, Scalar.isFinite a = true) :
    ∀ e ∈ path.edges, ∀ p ∈ e.2, Reflexive p.numbers :=
  Run.reflexive_drawAll forall_mem_none forall_mem_none (Run.isFinite_runs h)

/-! ## Foreground -/

theorem Style.reflexive_painting {style : Style Float} (hstyle : Reflexive style.numbers)
    {ns : List (Node Float)} (hns : ∀ n ∈ ns, ∀ a ∈ n.numbers, Scalar.isFinite a = true) :
    Reflexive (ns.foldl paint style).numbers := by
  induction ns generalizing style with
  | nil => exact hstyle
  | cons n ns ih =>
    obtain ⟨hn, hrest⟩ := List.forall_mem_cons.1 hns
    refine ih ?_ hrest
    cases n with
    | strokeWidth width =>
      exact List.forall_mem_singleton.2 (beq_self_of_isFinite (hn width (by simp [Node.numbers])))
    | _ => exact hstyle

theorem Primitive.reflexive_mapStyle {p : Primitive Float} {f : Style Float → Style Float}
    (hp : Reflexive p.numbers) (hf : Reflexive (f p.style).numbers) : Reflexive (p.mapStyle f).numbers := by
  cases p with
  | edge e style outline markers => exact (hp.left.left.append hf).append hp.right
  | stencil shape b style outline markers => exact (hp.left.left.append hf).append hp.right
  | image src b style markers => exact (hp.left.left.append hf).append hp.right
  | text value b style => exact hp.left.append hf
  | group edges style => exact hp.left.append hf

/-- The numbers of a route are those of its points. -/
theorem Route.reflexive_of_points {ps : List (Point Float)} {r : Route Float}
    (hr : Route.ofPoints? ps = some r) (hps : ∀ p ∈ ps, Reflexive p.numbers) : Reflexive r.numbers := by
  rw [numbers, points_ofPoints? hr]
  exact Reflexive.flatMap hps

namespace Placement

variable {m : Placement Float}

theorem reflexive_points (hm : m.IsSound) {ps : List (Point Float)} (hps : ∀ p ∈ ps, Reflexive p.numbers) :
    ∀ p ∈ ps.map m.point, Reflexive p.numbers := by
  intro p hp
  obtain ⟨q, hq, rfl⟩ := List.mem_map.1 hp
  exact reflexive_point hm (hps q hq)

/-- What is drawn, unpainted, has no width. -/
theorem reflexive_drawn (hm : m.IsSound) {n : Node Float} (hn : ∀ a ∈ n.numbers, Scalar.isFinite a = true) :
    ∀ p ∈ m.drawn n, Reflexive p.numbers ∧ p.style.width? = none := by
  have hnone : Reflexive ([] : List Float) := List.forall_mem_nil _
  cases n with
  | path path =>
    intro p hp
    obtain ⟨⟨kind, ps⟩, he, hp⟩ := List.mem_filterMap.1 hp
    obtain ⟨route, hroute, rfl⟩ := Option.map_eq_some_iff.1 hp
    have hpoints := Path.reflexive_edges (fun s hs a ha => hn a (List.mem_flatMap.2 ⟨s, hs, ha⟩)) (kind, ps) he
    have hnumbers := Route.reflexive_of_points hroute (reflexive_points hm hpoints)
    exact ⟨(Reflexive.append hnumbers hnone).append hnone, rfl⟩
  | rect b => exact List.forall_mem_singleton.2 ⟨((reflexive_box hm hn).append hnone).append hnone, rfl⟩
  | ellipse b => exact List.forall_mem_singleton.2 ⟨((reflexive_box hm hn).append hnone).append hnone, rfl⟩
  | reference name b => exact List.forall_mem_singleton.2 ⟨((reflexive_box hm hn).append hnone).append hnone, rfl⟩
  | image src b => exact List.forall_mem_singleton.2 ⟨((reflexive_box hm hn).append hnone).append hnone, rfl⟩
  | _ => exact List.forall_mem_nil _

theorem reflexive_primitives (hm : m.IsSound) {ns : List (Node Float)}
    (hns : ∀ n ∈ ns, ∀ a ∈ n.numbers, Scalar.isFinite a = true) :
    ∀ p ∈ m.primitives ns, Reflexive p.numbers := by
  induction ns with
  | nil => exact List.forall_mem_nil _
  | cons n ns ih =>
    obtain ⟨hn, hrest⟩ := List.forall_mem_cons.1 hns
    rw [primitives]
    split
    · refine List.forall_mem_append.2 ⟨?_, ih hrest⟩
      intro p hp
      obtain ⟨q, hq, rfl⟩ := List.mem_map.1 hp
      obtain ⟨hnumbers, hwidth⟩ := reflexive_drawn hm hn q hq
      refine Primitive.reflexive_mapStyle hnumbers (Style.reflexive_painting ?_ fun k hk => ?_)
      · rw [Style.numbers, hwidth]
        exact List.forall_mem_nil _
      · exact hrest k ((List.takeWhile_sublist _).subset hk)
    · exact ih hrest

end Placement

/-! ## Connections -/

namespace Bench

variable {bench : Bench Float}

theorem reflexive_claim? {fits : Primitive Float → Bool} {ps qs : List (Primitive Float)}
    (h : claim? fits ps = some qs) (hps : ∀ p ∈ ps, Reflexive p.numbers) :
    ∀ q ∈ qs, Reflexive q.numbers := by
  induction ps generalizing qs with
  | nil => cases h
  | cons p ps ih =>
    obtain ⟨hp, hrest⟩ := List.forall_mem_cons.1 hps
    simp only [claim?, changeFirst?] at h
    split at h
    · cases h
      refine List.forall_mem_cons.2 ⟨?_, hrest⟩
      cases p <;> exact hp
    · obtain ⟨rs, hrs, rfl⟩ := Option.map_eq_some_iff.1 h
      exact List.forall_mem_cons.2 ⟨hp, ih hrs hrest⟩

theorem reflexive_spot? (hm : bench.placement.IsSound) (hside : Scalar.isFinite bench.options.spotSize = true)
    (hsize : bench.size.isFinite = true) {a : Anchor Float} (ha : ∀ x ∈ a.numbers, Scalar.isFinite x = true)
    {marker : Marker Float} (h : bench.spot? a = some marker) : Reflexive marker.numbers := by
  obtain ⟨label, -, rfl⟩ := Option.map_eq_some_iff.1 h
  obtain ⟨hw, hh⟩ := Point.isFinite_iff.1 hsize
  have hax := ha a.x (by simp [Anchor.numbers])
  have hay := ha a.y (by simp [Anchor.numbers])
  have hcenter : Reflexive ((⟨a.x, a.y⟩ : Point Float) * bench.size).numbers :=
    Point.reflexive_iff.2 ⟨mul_self_beq_of_isFinite hax hw, mul_self_beq_of_isFinite hay hh⟩
  obtain ⟨hx, hy⟩ := Point.reflexive_iff.1 (Placement.reflexive_point hm hcenter)
  have hhalf := isFinite_half hside
  have hself := beq_self_of_isFinite hside
  exact List.forall_mem_cons.2 ⟨sub_self_beq hx hhalf, List.forall_mem_cons.2 ⟨sub_self_beq hy hhalf,
    List.forall_mem_cons.2 ⟨hself, List.forall_mem_singleton.2 hself⟩⟩⟩

/-- Whether all parts hold numbers. -/
structure IsSound (parts : Parts Float) : Prop where
  primitives : ∀ p ∈ parts.primitives, Reflexive p.numbers
  markers : ∀ m ∈ parts.markers, Reflexive m.numbers

theorem isSound_claimOr {parts : Parts Float} (hparts : IsSound parts)
    {claimed? : Option (List (Primitive Float))} {markers : List (Marker Float)}
    (hclaimed : ∀ qs, claimed? = some qs → ∀ q ∈ qs, Reflexive q.numbers)
    (hmarkers : ∀ m ∈ markers, Reflexive m.numbers) : IsSound (parts.claimOr claimed? markers) := by
  cases claimed? with
  | some qs => exact ⟨hclaimed qs rfl, hparts.markers⟩
  | none => exact ⟨hparts.primitives, List.forall_mem_append.2 ⟨hparts.markers, hmarkers⟩⟩

theorem isSound_edge (hm : bench.placement.IsSound) {parts : Parts Float} (hparts : IsSound parts)
    {t : EdgeTrace Float} (ht : ∀ a ∈ t.numbers, Scalar.isFinite a = true) :
    IsSound (bench.edge parts t) := by
  have hpoints : ∀ p ∈ t.points.map bench.placement.point, Reflexive p.numbers :=
    Placement.reflexive_points hm fun p hp =>
      Point.reflexive_of_isFinite (Point.isFinite_of_numbers fun a ha => ht a (List.mem_flatMap.2 ⟨p, hp, ha⟩))
  rw [edge_eq]
  refine isSound_claimOr hparts ?_ ?_
  · intro qs hqs
    split at hqs
    · exact reflexive_claim? hqs hparts.primitives
    · cases hqs
  · intro marker hmarker
    obtain ⟨route, hroute, rfl⟩ := Option.map_eq_some_iff.1 (Option.mem_toList.1 hmarker)
    exact Route.reflexive_of_points hroute hpoints

theorem isSound_region (hm : bench.placement.IsSound) {parts : Parts Float} (hparts : IsSound parts)
    {t : RegionTrace Float} (ht : ∀ a ∈ t.numbers, Scalar.isFinite a = true) :
    IsSound (bench.region parts t) := by
  have hbox : Reflexive (bench.placement.box t.box).numbers := Placement.reflexive_box hm ht
  rw [region_eq]
  refine isSound_claimOr hparts ?_ (List.forall_mem_singleton.2 hbox)
  intro qs hqs
  split at hqs
  · exact reflexive_claim? hqs hparts.primitives
  · cases hqs

theorem isSound_connect (hm : bench.placement.IsSound) (hside : Scalar.isFinite bench.options.spotSize = true)
    (hsize : bench.size.isFinite = true) {parts : Parts Float} (hparts : IsSound parts) {c : Connection Float}
    (hc : ∀ a ∈ c.numbers, Scalar.isFinite a = true) : IsSound (bench.connect parts c) := by
  cases c with
  | anchor a =>
    refine ⟨hparts.primitives, List.forall_mem_append.2 ⟨hparts.markers, ?_⟩⟩
    intro marker hmarker
    exact reflexive_spot? hm hside hsize hc (Option.mem_toList.1 hmarker)
  | edge t => exact isSound_edge hm hparts hc
  | region t => exact isSound_region hm hparts hc
  | unknown tag => exact hparts

theorem isSound_connections (hm : bench.placement.IsSound)
    (hside : Scalar.isFinite bench.options.spotSize = true) (hsize : bench.size.isFinite = true)
    {parts : Parts Float} (hparts : IsSound parts) {cs : List (Connection Float)}
    (hcs : ∀ c ∈ cs, ∀ a ∈ c.numbers, Scalar.isFinite a = true) :
    IsSound (cs.foldl bench.connect parts) := by
  induction cs generalizing parts with
  | nil => exact hparts
  | cons c cs ih =>
    obtain ⟨hc, hrest⟩ := List.forall_mem_cons.1 hcs
    exact ih (isSound_connect hm hside hsize hparts hc) hrest

end Bench

/-- **The parts of a finite stencil hold numbers**, when it is drawn at its own size. -/
theorem Stencil.reflexive_decompose {s : Stencil Float} {options : DecomposeOptions Float} {b : Box Float}
    (hs : ∀ a ∈ s.numbers, Scalar.isFinite a = true) (hside : Scalar.isFinite options.spotSize = true)
    (hx : Scalar.isFinite b.x = true) (hy : Scalar.isFinite b.y = true) (hw : b.w = s.w) (hh : b.h = s.h)
    (hpos : 0 < s.w ∧ 0 < s.h) : Reflexive (s.decompose options b).numbers := by
  have hfw := hs s.w (by simp [numbers])
  have hfh := hs s.h (by simp [numbers])
  have hm := Placement.isSound_of hx hy hw hh hfw hfh hpos
  have hnodes : ∀ n ∈ s.foreground, ∀ a ∈ n.numbers, Scalar.isFinite a = true :=
    fun n hn a ha => hs a (numbers_subset_of_node hn ha)
  have hconnections : ∀ c ∈ s.connections, ∀ a ∈ c.numbers, Scalar.isFinite a = true :=
    fun c hc a ha => hs a (numbers_subset_of_connection hc ha)
  have hsize : (⟨s.w, s.h⟩ : Point Float).isFinite = true := Point.isFinite_iff.2 ⟨hfw, hfh⟩
  have hnone : ∀ m ∈ ([] : List (Marker Float)), Reflexive m.numbers := List.forall_mem_nil _
  have hstart : Bench.IsSound ⟨(Placement.of s b).primitives s.foreground, []⟩ :=
    ⟨Placement.reflexive_primitives hm hnodes, hnone⟩
  have hsound := @Bench.isSound_connections ⟨options, Placement.of s b, ⟨s.w, s.h⟩⟩ hm hside hsize _ hstart _
    hconnections
  exact (Reflexive.flatMap hsound.primitives).append (Reflexive.flatMap hsound.markers)

end StencilKit
