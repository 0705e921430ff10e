/-
Taking a stencil apart commutes with a homomorphism of numbers.

Whether the numbers of a stencil are changed before it is taken apart or in what it is taken apart
into makes no difference (`Stencil.map_decompose`), since each step of the decomposition only adds,
multiplies, compares and divides by positive numbers. For the doubles with one zero this says that the
signs of zeros in a stencil matter to nothing but the signs of zeros in its parts.
-/
import StencilKit.Proofs.Coordinates.Homomorphism

namespace StencilKit

section

variable {α β : Type} [Scalar α] [Scalar β] {φ : α → β} (h : Scalar.Hom φ)
include h

/-! ## Points and boxes -/

namespace Point

theorem map_add (p q : Point α) : (p + q).map φ = p.map φ + q.map φ :=
  congr (congrArg mk (h.add p.x q.x)) (h.add p.y q.y)

theorem map_sub (p q : Point α) : (p - q).map φ = p.map φ - q.map φ :=
  congr (congrArg mk (h.sub p.x q.x)) (h.sub p.y q.y)

theorem map_mul (p q : Point α) : (p * q).map φ = p.map φ * q.map φ :=
  congr (congrArg mk (h.mul p.x q.x)) (h.mul p.y q.y)

theorem map_beq (p q : Point α) : (p.map φ == q.map φ) = (p == q) := by
  show (φ p.x == φ q.x && φ p.y == φ q.y) = (p.x == q.x && p.y == q.y)
  rw [h.beq, h.beq]

theorem map_distance (p q : Point α) : φ (p.distance q) = (p.map φ).distance (q.map φ) := by
  show φ (Scalar.sqrt ((p.x - q.x) * (p.x - q.x) + (p.y - q.y) * (p.y - q.y))) = _
  rw [h.sqrt, h.add, h.mul, h.mul, h.sub, h.sub]
  rfl

theorem map_isNear (tolerance : α) (p q : Point α) :
    isNear (φ tolerance) (p.map φ) (q.map φ) = isNear tolerance p q := by
  rw [isNear, isNear, ← map_distance h]
  exact decide_eq_decide.2 (h.le _ _)

theorem map_beyond (control mid : Point α) :
    (control.beyond mid).map φ = (control.map φ).beyond (mid.map φ) := by
  have hshrunk : ∀ p : Point α, (p.shrunk Scalar.half).map φ = (p.map φ).shrunk Scalar.half := by
    intro p
    show (⟨φ (p.x / Scalar.half), φ (p.y / Scalar.half)⟩ : Point β) = ⟨φ p.x / Scalar.half, φ p.y / Scalar.half⟩
    rw [h.div _ _ h.half_pos, h.div _ _ h.half_pos, h.half]
  rw [beyond, map_add h, hshrunk, map_sub h]
  rfl

end Point

theorem Stencil.map_scaleTo (s : Stencil α) (size : Point α) :
    (s.scaleTo size).map φ = (s.map φ).scaleTo (size.map φ) := by
  have hiff : (0 < (s.map φ).w ∧ 0 < (s.map φ).h) ↔ (0 < s.w ∧ 0 < s.h) := and_congr (h.pos s.w) (h.pos s.h)
  rw [scaleTo, scaleTo]
  by_cases hpos : 0 < s.w ∧ 0 < s.h
  · rw [if_pos hpos, if_pos (hiff.2 hpos)]
    exact congr (congrArg Point.mk (h.div size.x s.w hpos.1)) (h.div size.y s.h hpos.2)
  · rw [if_neg hpos, if_neg (mt hiff.1 hpos)]
    exact congr (congrArg Point.mk h.one) h.one

end

/-! ## Placements -/

section

variable {α β : Type}

def Placement.map (f : α → β) (m : Placement α) : Placement β := ⟨m.origin.map f, m.scale.map f⟩

variable [Scalar α] [Scalar β] {φ : α → β} (h : Scalar.Hom φ)
include h

namespace Placement

theorem map_of (s : Stencil α) (b : Box α) : (Placement.of s b).map φ = Placement.of (s.map φ) (b.map φ) :=
  congrArg (Placement.mk _) (s.map_scaleTo h b.size)

theorem map_point (m : Placement α) (p : Point α) : (m.point p).map φ = (m.map φ).point (p.map φ) := by
  rw [point, Point.map_add h, Point.map_mul h]
  rfl

theorem map_points (m : Placement α) (ps : List (Point α)) :
    (ps.map m.point).map (Point.map φ) = (ps.map (Point.map φ)).map (m.map φ).point := by
  simp only [List.map_map, Function.comp_def, map_point h]

theorem map_box (m : Placement α) (b : Box α) : (m.box b).map φ = (m.map φ).box (b.map φ) := by
  have horigin : (m.point b.origin).map φ = (m.map φ).point (b.map φ).origin := map_point h m b.origin
  have hsize : (b.size * m.scale).map φ = (b.map φ).size * (m.map φ).scale := Point.map_mul h b.size m.scale
  show Box.mk ((m.point b.origin).map φ).x ((m.point b.origin).map φ).y ((b.size * m.scale).map φ).x
    ((b.size * m.scale).map φ).y = _
  rw [horigin, hsize]
  rfl

end Placement

end

/-! ## Runs of a path -/

section

variable {α β : Type}

/-- Both points of a quadratic piece. -/
def mapPiece (f : α → β) (q : Point α × Point α) : Point β × Point β := (q.1.map f, q.2.map f)

def Run.map (f : α → β) : Run α → Run β
  | move stop => move (stop.map f)
  | lines first more => lines (first.map f) (more.map (Point.map f))
  | quads first more => quads (mapPiece f first) (more.map (mapPiece f))
  | close => close

def Pen.map (f : α → β) (pen : Pen α) : Pen β := ⟨pen.at?.map (Point.map f), pen.start?.map (Point.map f)⟩

/-- The points of an edge that a run draws. -/
def mapDrawn (f : α → β) (e : EdgeKind × List (Point α)) : EdgeKind × List (Point β) :=
  (e.1, e.2.map (Point.map f))

theorem Path.map_runs (f : α → β) (p : Path α) :
    (runs p).map (Run.map f) = runs (List.map (PathStep.map f) p) := by
  induction p with
  | nil => rfl
  | cons s rest ih =>
    cases s with
    | move p =>
      rw [List.map_cons, PathStep.map, runs, runs, ← ih]
      rfl
    | close =>
      rw [List.map_cons, PathStep.map, runs, runs, ← ih]
      rfl
    | line p =>
      rw [List.map_cons, PathStep.map, runs, runs, ← ih]
      rcases runs rest with _ | ⟨r, rs⟩
      · rfl
      · cases r <;> rfl
    | quad control stop =>
      rw [List.map_cons, PathStep.map, runs, runs, ← ih]
      rcases runs rest with _ | ⟨r, rs⟩
      · rfl
      · cases r <;> rfl

theorem Point.map_getLast? (f : α → β) (p : Point α) (more : List (Point α)) :
    (p :: more).getLast?.map (map f) = (p.map f :: more.map (map f)).getLast? := by
  rw [← List.map_cons, List.getLast?_map]

variable [Scalar α] [Scalar β] {φ : α → β} (h : Scalar.Hom φ)
include h

namespace Run

theorem map_controls (first : Point α × Point α) (more : List (Point α × Point α)) :
    (controls first more).map (Point.map φ) = controls (mapPiece φ first) (more.map (mapPiece φ)) := by
  fun_induction controls first more with
  | case1 => rfl
  | case2 => rfl
  | case3 control mid next q rest ih =>
    rw [List.map_cons, ih, Point.map_beyond h]
    rfl

theorem map_curvePoints (start : Point α) (first : Point α × Point α) (more : List (Point α × Point α)) :
    (curvePoints start first more).map (Point.map φ) =
      curvePoints (start.map φ) (mapPiece φ first) (more.map (mapPiece φ)) := by
  have hlast : (((first :: more).getLast (List.cons_ne_nil _ _)).2).map φ =
      ((mapPiece φ first :: more.map (mapPiece φ)).getLast (List.cons_ne_nil _ _)).2 := by
    have hmap := List.getLast_map (f := mapPiece φ) (l := first :: more) (by simp)
    exact (congrArg Prod.snd hmap).symm
  rw [curvePoints, curvePoints, List.map_append, List.map_cons, List.map_cons, map_controls h, List.map_singleton,
    hlast]
  rfl

theorem map_draw (pen : Pen α) (r : Run α) :
    (r.map φ).draw (pen.map φ) = ((r.draw pen).1.map (mapDrawn φ), (r.draw pen).2.map φ) := by
  obtain ⟨at?, start?⟩ := pen
  cases r with
  | move p => rfl
  | lines p more =>
    cases at? with
    | some a => simp [draw, map, Pen.map, mapDrawn, Point.map_getLast?]
    | none =>
      cases more with
      | nil => rfl
      | cons q more => simp [draw, map, Pen.map, mapDrawn, Point.map_getLast?]
  | quads first more =>
    have hstart : (at?.map (Point.map φ)).getD (first.1.map φ) = (at?.getD first.1).map φ := by
      cases at? <;> rfl
    have hpoints := map_curvePoints h (at?.getD first.1) first more
    have hlast : (curvePoints ((at?.getD first.1).map φ) (mapPiece φ first) (more.map (mapPiece φ))).getLast? =
        (curvePoints (at?.getD first.1) first more).getLast?.map (Point.map φ) := by
      rw [← hpoints, List.getLast?_map]
    have hbegin : (start?.map (Point.map φ)).getD ((at?.getD first.1).map φ) =
        (start?.getD (at?.getD first.1)).map φ := by
      cases start? <;> rfl
    simp only [draw, map, Pen.map, mapPiece, hstart, hbegin]
    simp only [mapPiece] at hlast hpoints
    simp only [hlast, hpoints, Option.map_some, mapDrawn]
  | close =>
    cases at? with
    | none => cases start? <;> rfl
    | some a =>
      cases start? with
      | none => rfl
      | some start =>
        have hbeq := Point.map_beq h a start
        simp only [draw, map, Pen.map, Option.map_some, hbeq]
        cases a == start <;> rfl

theorem map_drawAll (pen : Pen α) (rs : List (Run α)) :
    drawAll (pen.map φ) (rs.map (map φ)) = (drawAll pen rs).map (mapDrawn φ) := by
  induction rs generalizing pen with
  | nil => rfl
  | cons r rs ih =>
    rw [List.map_cons, drawAll, drawAll, map_draw h, List.map_append, ih, ← Option.toList_map]

end Run

theorem Path.map_edges (p : Path α) : edges (List.map (PathStep.map φ) p) = (edges p).map (mapDrawn φ) := by
  rw [edges, edges, ← map_runs]
  exact Run.map_drawAll h ⟨none, none⟩ (runs p)

end

/-! ## Foreground -/

section

variable {α β : Type}

theorem Style.map_paint (f : α → β) (style : Style α) (n : Node α) :
    (style.map f).paint (n.map f) = (style.paint n).map f := by
  cases n <;> rfl

theorem Style.map_painting (f : α → β) (style : Style α) (ns : List (Node α)) :
    (ns.map (Node.map f)).foldl paint (style.map f) = (ns.foldl paint style).map f := by
  induction ns generalizing style with
  | nil => rfl
  | cons n ns ih => rw [List.map_cons, List.foldl_cons, List.foldl_cons, map_paint, ih]

@[simp] theorem Node.draws_map (f : α → β) (n : Node α) : (n.map f).draws = n.draws := by
  cases n <;> rfl

theorem Route.map_ofPoints? (f : α → β) (ps : List (Point α)) :
    ofPoints? (ps.map (Point.map f)) = (ofPoints? ps).map (Route.map f) := by
  match ps with
  | [] => rfl
  | [p] => rfl
  | source :: p :: ps =>
    have hlast := List.getLast_map (f := Point.map f) (l := p :: ps) (by simp)
    have hbends : (p :: ps).dropLast.map (Point.map f) = (p.map f :: ps.map (Point.map f)).dropLast :=
      List.map_dropLast
    simp only [List.map_cons] at hlast
    simp [ofPoints?, Route.map, hlast, hbends]

variable [Scalar α] [Scalar β] {φ : α → β} (h : Scalar.Hom φ)
include h

namespace Placement

theorem map_edge? (m : Placement α) (kind : EdgeKind) (ps : List (Point α)) :
    (m.map φ).edge? kind (ps.map (Point.map φ)) = (m.edge? kind ps).map (Primitive.map φ) := by
  rw [edge?, edge?, ← map_points h, Route.map_ofPoints?, Option.map_map, Option.map_map]
  rfl

theorem map_drawn (m : Placement α) (n : Node α) :
    (m.map φ).drawn (n.map φ) = (m.drawn n).map (Primitive.map φ) := by
  cases n with
  | path p =>
    show (Path.edges (List.map (PathStep.map φ) p)).filterMap _ = _
    rw [Path.map_edges h, List.filterMap_map, drawn, List.map_filterMap]
    congr 1
    funext e
    exact map_edge? h m e.1 e.2
  | rect b => simp [drawn, Node.map, Primitive.map, Style.map, map_box h]
  | ellipse b => simp [drawn, Node.map, Primitive.map, Style.map, map_box h]
  | reference name b => simp [drawn, Node.map, Primitive.map, Style.map, map_box h]
  | image src b => simp [drawn, Node.map, Primitive.map, Style.map, map_box h]
  | _ => rfl

theorem map_primitives (m : Placement α) (ns : List (Node α)) :
    (m.map φ).primitives (ns.map (Node.map φ)) = (m.primitives ns).map (Primitive.map φ) := by
  induction ns with
  | nil => rfl
  | cons n ns ih =>
    rw [List.map_cons, primitives, primitives, Node.draws_map]
    split
    · have hpainting :
          (ns.map (Node.map φ)).takeWhile (!·.draws) = (ns.takeWhile (!·.draws)).map (Node.map φ) := by
        rw [List.takeWhile_map]
        simp only [Function.comp_def, Node.draws_map]
      have hstyle : ∀ p : Primitive α, (p.map φ).mapStyle (fun style =>
          ((ns.takeWhile (!·.draws)).map (Node.map φ)).foldl Style.paint style) =
            (p.mapStyle fun style => (ns.takeWhile (!·.draws)).foldl Style.paint style).map φ := by
        intro p
        cases p <;> simp only [Primitive.map, Primitive.mapStyle, Style.map_painting]
      rw [map_drawn h, ih, hpainting, List.map_append, List.map_map]
      dsimp only
      rw [List.map_map]
      congr 1
      exact List.map_congr_left fun p _ => hstyle p
    · exact ih

end Placement

end

/-! ## Connections -/

theorem map_changeFirst? {T U : Type} {g : T → U} {p : T → Bool} {q : U → Bool} {f : T → T} {k : U → U}
    (hp : ∀ x, q (g x) = p x) (hf : ∀ x, k (g x) = g (f x)) (xs : List T) :
    changeFirst? q k (xs.map g) = (changeFirst? p f xs).map (List.map g) := by
  induction xs with
  | nil => rfl
  | cons x xs ih =>
    rw [List.map_cons, changeFirst?, changeFirst?, hp, ih]
    split
    · rw [hf]
      rfl
    · rw [Option.map_map, Option.map_map]
      rfl

section

variable {α β : Type}

namespace Parts

/-- The parts with an outline given back that was claimed, or else with more markers. -/
def claimOr (parts : Parts α) (claimed? : Option (List (Primitive α))) (markers : List (Marker α)) : Parts α :=
  match claimed? with
  | some primitives => { parts with primitives }
  | none => { parts with markers := parts.markers ++ markers }

theorem map_claimOr (φ : α → β) (parts : Parts α) (claimed? : Option (List (Primitive α))) (markers : List (Marker α)) :
    (parts.claimOr claimed? markers).map φ =
      (parts.map φ).claimOr (claimed?.map (List.map (Primitive.map φ))) (markers.map (Marker.map φ)) := by
  cases claimed? <;> simp [claimOr, map]

end Parts

variable [Scalar α]

namespace Bench

/-- An edge trace gives an outline back if it can, and else makes a marker. -/
theorem edge_eq (bench : Bench α) (parts : Parts α) (t : EdgeTrace α) :
    bench.edge parts t = parts.claimOr
      (if t.own then
        claim? (Primitive.fitsEdge bench.options.matchTolerance t.kind (t.points.map bench.placement.point))
          parts.primitives
      else none)
      ((Route.ofPoints? (t.points.map bench.placement.point)).map fun route =>
        (⟨Tag.labelOf t.name, .along ⟨t.kind, route⟩⟩ : Marker α)).toList := rfl

theorem region_eq (bench : Bench α) (parts : Parts α) (t : RegionTrace α) :
    bench.region parts t = parts.claimOr
      (if t.own ∧ t.kind = .outline then
        claim? (Primitive.fitsRegion bench.options.matchTolerance t.shape (bench.placement.box t.box))
          parts.primitives
      else none)
      [⟨Tag.labelOf t.name, .region t.kind t.shape (bench.placement.box t.box)⟩] := rfl

end Bench

end

section

variable {α β : Type}

def DecomposeOptions.map (f : α → β) (o : DecomposeOptions α) : DecomposeOptions β :=
  ⟨f o.spotSize, f o.matchTolerance⟩

def Bench.map (f : α → β) (bench : Bench α) : Bench β :=
  ⟨bench.options.map f, bench.placement.map f, bench.size.map f⟩

variable [Scalar α] [Scalar β] {φ : α → β} (h : Scalar.Hom φ)
include h

theorem Primitive.map_fitsEdge (tolerance : α) (kind : EdgeKind) (ps : List (Point α)) (p : Primitive α) :
    fitsEdge (φ tolerance) kind (ps.map (Point.map φ)) (p.map φ) = fitsEdge tolerance kind ps p := by
  cases p with
  | edge e style outline markers =>
    have hpoints : (e.map φ).points = e.points.map (Point.map φ) := by
      simp [Edge.points, Edge.map, Route.points, Route.map]
    have hnear : (fun ab : Point α × Point α => Point.isNear (φ tolerance) (ab.1.map φ) (ab.2.map φ)) =
        fun ab => Point.isNear tolerance ab.1 ab.2 := funext fun ab => Point.map_isNear h tolerance ab.1 ab.2
    show ((e.map φ).kind == kind && (e.map φ).points.length == (ps.map (Point.map φ)).length &&
      ((e.map φ).points.zip (ps.map (Point.map φ))).all fun ab => Point.isNear (φ tolerance) ab.1 ab.2) = _
    rw [hpoints, List.length_map, List.length_map, List.zip_map, List.all_map]
    show (e.kind == kind && e.points.length == ps.length &&
      (e.points.zip ps).all fun ab => Point.isNear (φ tolerance) (ab.1.map φ) (ab.2.map φ)) = _
    rw [hnear]
    rfl
  | _ => rfl

theorem Primitive.map_fitsRegion (tolerance : α) (shape : ShapeRef) (b : Box α) (p : Primitive α) :
    fitsRegion (φ tolerance) shape (b.map φ) (p.map φ) = fitsRegion tolerance shape b p := by
  cases p with
  | stencil s c style outline markers =>
    have horigin := Point.map_isNear h tolerance c.origin b.origin
    have hsize := Point.map_isNear h tolerance c.size b.size
    show (s == shape && Point.isNear (φ tolerance) (c.origin.map φ) (b.origin.map φ) &&
      Point.isNear (φ tolerance) (c.size.map φ) (b.size.map φ)) = _
    rw [horigin, hsize]
    rfl
  | _ => rfl

namespace Bench

omit [Scalar α] [Scalar β] h in
theorem map_claim? {q : Primitive β → Bool} {p : Primitive α → Bool} (hp : ∀ x, q (x.map φ) = p x)
    (ps : List (Primitive α)) :
    claim? q (ps.map (Primitive.map φ)) = (claim? p ps).map (List.map (Primitive.map φ)) := by
  refine map_changeFirst? hp ?_ ps
  intro x
  cases x <;> rfl

theorem map_spot? (bench : Bench α) (a : Anchor α) :
    (bench.map φ).spot? (a.map φ) = (bench.spot? a).map (Marker.map φ) := by
  have hbox : ∀ p : Point α, (bench.map φ).spotBox (p.map φ) = (bench.spotBox p).map φ := by
    intro p
    show Box.mk (φ p.x - φ bench.options.spotSize / Scalar.two) (φ p.y - φ bench.options.spotSize / Scalar.two) _ _ =
      Box.mk (φ (p.x - bench.options.spotSize / Scalar.two)) (φ (p.y - bench.options.spotSize / Scalar.two)) _ _
    rw [h.sub, h.sub, h.div _ _ h.two_pos, h.two]
    rfl
  have hpoint : (bench.map φ).placement.point (⟨φ a.x, φ a.y⟩ * (bench.map φ).size) =
      (bench.placement.point (⟨a.x, a.y⟩ * bench.size)).map φ := by
    rw [Placement.map_point h, Point.map_mul h]
    rfl
  rw [spot?, spot?, Option.map_map]
  show (spotLabel? a.name).map (fun label => (⟨label, .spot ((bench.map φ).spotBox
    ((bench.map φ).placement.point (⟨φ a.x, φ a.y⟩ * (bench.map φ).size)))⟩ : Marker β)) = _
  rw [hpoint, hbox]
  rfl

theorem map_edge (bench : Bench α) (parts : Parts α) (t : EdgeTrace α) :
    (bench.map φ).edge (parts.map φ) (t.map φ) = (bench.edge parts t).map φ := by
  obtain ⟨name, kind, own, ps⟩ := t
  have hpoints : (ps.map (Point.map φ)).map (bench.map φ).placement.point =
      (ps.map bench.placement.point).map (Point.map φ) := (Placement.map_points h _ _).symm
  have hmarker : (Route.ofPoints? ((ps.map bench.placement.point).map (Point.map φ))).map
      (fun route => (⟨Tag.labelOf name, .along ⟨kind, route⟩⟩ : Marker β)) =
        ((Route.ofPoints? (ps.map bench.placement.point)).map fun route =>
          (⟨Tag.labelOf name, .along ⟨kind, route⟩⟩ : Marker α)).map (Marker.map φ) := by
    rw [Route.map_ofPoints?, Option.map_map, Option.map_map]
    rfl
  have hclaim := map_claim? (Primitive.map_fitsEdge h bench.options.matchTolerance kind
    (ps.map bench.placement.point)) parts.primitives
  simp only [edge_eq, EdgeTrace.map, hpoints, hmarker, Option.toList_map]
  rw [Parts.map_claimOr, apply_ite (Option.map _)]
  exact congrArg (fun claimed? => (parts.map φ).claimOr (if own then claimed? else none) _) hclaim

theorem map_region (bench : Bench α) (parts : Parts α) (t : RegionTrace α) :
    (bench.map φ).region (parts.map φ) (t.map φ) = (bench.region parts t).map φ := by
  obtain ⟨name, kind, own, shape, b⟩ := t
  have hbox : (bench.map φ).placement.box (b.map φ) = (bench.placement.box b).map φ :=
    (Placement.map_box h bench.placement b).symm
  have hclaim := map_claim? (Primitive.map_fitsRegion h bench.options.matchTolerance shape
    (bench.placement.box b)) parts.primitives
  simp only [region_eq, RegionTrace.map, hbox]
  rw [Parts.map_claimOr, apply_ite (Option.map _)]
  exact congrArg
    (fun claimed? => (parts.map φ).claimOr (if own ∧ kind = .outline then claimed? else none) _) hclaim

theorem map_connect (bench : Bench α) (parts : Parts α) (c : Connection α) :
    (bench.map φ).connect (parts.map φ) (c.map φ) = (bench.connect parts c).map φ := by
  cases c with
  | anchor a =>
    show Parts.mk (parts.primitives.map (Primitive.map φ))
      (parts.markers.map (Marker.map φ) ++ ((bench.map φ).spot? (a.map φ)).toList) = _
    rw [map_spot? h, Option.toList_map, ← List.map_append]
    rfl
  | edge t => exact map_edge h bench parts t
  | region t => exact map_region h bench parts t
  | unknown tag => rfl

end Bench

/-- **Taking a stencil apart commutes with a homomorphism of numbers.** -/
theorem Stencil.map_decompose (s : Stencil α) (options : DecomposeOptions α) (placement : Box α) :
    (s.map φ).decompose (options.map φ) (placement.map φ) = (s.decompose options placement).map φ := by
  have hfold : ∀ (bench : Bench α) (cs : List (Connection α)) (parts : Parts α),
      (cs.map (Connection.map φ)).foldl (bench.map φ).connect (parts.map φ) =
        (cs.foldl bench.connect parts).map φ := by
    intro bench cs
    induction cs with
    | nil => intro parts; rfl
    | cons c cs ih =>
      intro parts
      rw [List.map_cons, List.foldl_cons, List.foldl_cons, Bench.map_connect h, ih]
  have hbegin : (⟨(Placement.of (s.map φ) (placement.map φ)).primitives (s.map φ).foreground, []⟩ : Parts β) =
      (⟨(Placement.of s placement).primitives s.foreground, []⟩ : Parts α).map φ := by
    rw [← Placement.map_of h]
    show Parts.mk (((Placement.of s placement).map φ).primitives (s.foreground.map (Node.map φ))) [] = _
    rw [Placement.map_primitives h]
    rfl
  rw [decompose, decompose, ← hfold, hbegin, ← Placement.map_of h]
  rfl

end

end StencilKit
