/-
Drawings in another place.

In exact coordinates nothing depends on where a drawing lies: what is measured of points that are moved alike
stays the same, and what is made of them moves with them. That goes for the boxes around things, and for the
points that edges and outlines are sampled at.
-/
import StencilKit.Proofs.Coordinates.Samples

namespace StencilKit

section

variable {K : Type} [Field K] [LinearOrder K] [FloorRing K] [Transcendental K] (d : Point K)

/-! ## Points and boxes -/

namespace Point

@[simp] theorem add_sub_add (p q : Point K) : p + d - (q + d) = p - q :=
  Point.ext (add_sub_add_right_eq_sub _ _ _) (add_sub_add_right_eq_sub _ _ _)

theorem add_add (p q : Point K) : p + q + d = p + (q + d) := Point.ext (add_assoc _ _ _) (add_assoc _ _ _)

theorem isNear_add (tolerance : K) (p q : Point K) : isNear tolerance (p + d) (q + d) = isNear tolerance p q := by
  rw [isNear, isNear, distance, distance, add_sub_add]

theorem lerp_add (p q : Point K) (t : K) : (p + d).lerp (q + d) t = p.lerp q t + d := by
  have hcoordinate : ∀ a b e : K, (a + e) * (1 - t) + (b + e) * t = a * (1 - t) + b * t + e := by
    intro a b e
    ring
  exact Point.ext (hcoordinate _ _ _) (hcoordinate _ _ _)

theorem midway_add (p q : Point K) : (p + d).midway (q + d) = p.midway q + d := lerp_add d p q Scalar.half

end Point

namespace Box

variable (b : Box K)

@[simp] theorem origin_moved : (b.moved d).origin = b.origin + d := rfl

@[simp] theorem size_moved : (b.moved d).size = b.size := rfl

@[simp] theorem far_moved : (b.moved d).far = b.far + d :=
  Point.ext (add_right_comm _ _ _) (add_right_comm _ _ _)

theorem center_moved : (b.moved d).center = b.center + d :=
  Point.ext (add_right_comm _ _ _) (add_right_comm _ _ _)

theorem ellipsePoint_moved (θ : K) : (b.moved d).ellipsePoint θ = b.ellipsePoint θ + d := by
  rw [ellipsePoint, center_moved, size_moved]
  exact Point.ext (add_right_comm _ _ _) (add_right_comm _ _ _)

theorem toLocal_moved (p : Point K) : (b.moved d).toLocal (p + d) = b.toLocal p := Point.add_sub_add d p b.origin

theorem boxToLocal_moved (r : Box K) : (b.moved d).boxToLocal (r.moved d) = b.boxToLocal r := by
  have hcoordinate : ∀ u v e : K, u + e + -(v + e) = u + -v := by
    intro u v e
    ring
  exact Box.ext (hcoordinate _ _ _) (hcoordinate _ _ _) rfl rfl

theorem moved_moved (e : Point K) : (b.moved d).moved e = b.moved (d + e) :=
  Box.ext (add_assoc _ _ _) (add_assoc _ _ _) rfl rfl

end Box

/-! ## Curves -/

/-- A piece of a curve in another place. -/
def Quadratic.moved (q : Quadratic K) (d : Point K) : Quadratic K := ⟨q.start + d, q.control + d, q.stop + d⟩

namespace Quadratic

theorem point_moved (q : Quadratic K) (t : K) : (q.moved d).point t = q.point t + d := by
  rw [point_eq, point_eq]
  simp only [moved, Point.lerp_add]

theorem smoothFrom_moved : ∀ (start : Point K) (ps : List (Point K)),
    smoothFrom (start + d) (ps.map (· + d)) = (smoothFrom start ps).map (·.moved d)
  | _, [] | _, [_] | _, [_, _] => rfl
  | start, control :: next :: p :: rest => by
    simp only [List.map_cons, smoothFrom, Point.midway_add]
    exact congrArg _ (smoothFrom_moved (control.midway next) (next :: p :: rest))

theorem smooth_moved (ps : List (Point K)) : smooth (ps.map (· + d)) = (smooth ps).map (·.moved d) := by
  cases ps with
  | nil => rfl
  | cons start rest => exact smoothFrom_moved d start rest

end Quadratic

end

variable {K : Type} [Field K] [LinearOrder K] [IsStrictOrderedRing K] [FloorRing K] [Transcendental K]

/-! ## Around things -/

namespace Extent

/-- Ranges in another place. -/
def moved (e : Extent K) (d : Point K) : Extent K where
  xs := e.xs.map fun (lo, hi) => (lo + d.x, hi + d.x)
  ys := e.ys.map fun (lo, hi) => (lo + d.y, hi + d.y)

variable (d : Point K)

theorem insert_moved (e : Extent K) (p : Point K) : (e.moved d).insert (p + d) = (e.insert p).moved d := by
  have hrange : ∀ (r : Range K) (a t : K), Range.insert (r.map fun (lo, hi) => (lo + t, hi + t)) (a + t) =
      (r.insert a).map fun (lo, hi) => (lo + t, hi + t) := by
    intro r a t
    cases r with
    | none => simp [Range.insert, Range.single, Scalar.largest?]
    | some ends => simp [Range.insert, min_add_add_right, max_add_add_right]
  rw [insert, insert, moved, moved]
  exact congr (congrArg mk (hrange e.xs p.x d.x)) (hrange e.ys p.y d.y)

theorem ofPoints_moved (ps : List (Point K)) : ofPoints (ps.map (· + d)) = (ofPoints ps).moved d := by
  suffices h : ∀ e : Extent K, (ps.map (· + d)).foldl insert (e.moved d) = (ps.foldl insert e).moved d from h empty
  induction ps with
  | nil => exact fun _ => rfl
  | cons p ps ih =>
    intro e
    rw [List.map_cons, List.foldl_cons, insert_moved, ih]
    rfl

theorem box?_moved (e : Extent K) : (e.moved d).box? = e.box?.map (·.moved d) := by
  have hcorners : ∀ p q : Point K, Box.ofCorners (p + d) (q + d) = (Box.ofCorners p q).moved d := by
    intro p q
    refine Box.ext ?_ ?_ ?_ ?_ <;>
      simp [Box.ofCorners, Box.moved, min_add_add_right, max_add_add_right, add_sub_add_right_eq_sub]
  obtain ⟨xs, ys⟩ := e
  cases xs with
  | none => rfl
  | some xs =>
    cases ys with
    | none => rfl
    | some ys => exact congrArg some (hcorners ⟨xs.1, ys.1⟩ ⟨xs.2, ys.2⟩)

/-- **The box around some boxes moves with them.** -/
theorem box?_ofBoxes_moved (bs : List (Box K)) :
    (ofBoxes (bs.map (·.moved d))).box? = (ofBoxes bs).box?.map (·.moved d) := by
  rw [ofBoxes_eq, ofBoxes_eq, ← box?_moved, ← ofPoints_moved, List.flatMap_map, List.map_flatMap]
  simp

omit [IsStrictOrderedRing K] in
/-- Where there is a point, there is a box around it. -/
theorem box?_ofPoints_ne_none {ps : List (Point K)} (hps : ps ≠ []) : (ofPoints ps).box? ≠ none := by
  obtain ⟨b, hb, -⟩ := (holds_ofPoints (List.head_mem hps)).exists_box
  rw [hb]
  exact Option.some_ne_none b

end Extent

omit [IsStrictOrderedRing K] in
theorem Box.getD_moved {b? : Option (Box K)} (h : b? ≠ none) (d : Point K) :
    (b?.map (·.moved d)).getD .null = (b?.getD .null).moved d := by
  cases b? with
  | none => exact absurd rfl h
  | some b => rfl

variable (d : Point K)

omit [IsStrictOrderedRing K] in
@[simp] theorem Edge.points_moved (e : Edge K) : (e.moved d).points = e.points.map (· + d) := by
  simp [points, moved, Route.points, Route.moved]

theorem Edge.bounds_moved (e : Edge K) : (e.moved d).bounds = e.bounds.moved d := by
  have hpoints : (e.moved d).route.points = e.route.points.map (· + d) := e.points_moved d
  rw [bounds, Route.bounds, hpoints, Extent.ofPoints_moved, Extent.box?_moved]
  exact Box.getD_moved (Extent.box?_ofPoints_ne_none (List.cons_ne_nil _ _)) d

/-- **The box around a primitive moves with it**, unless the primitive is a group without edges. -/
theorem Primitive.bounds_moved {p : Primitive K} (h : ∀ edges style, p = .group edges style → edges ≠ []) :
    (p.moved d).bounds = p.bounds.moved d := by
  cases p with
  | edge e style outline markers => exact e.bounds_moved d
  | group edges style =>
    have hbounds : (edges.map (·.moved d)).map Edge.bounds = (edges.map Edge.bounds).map (·.moved d) := by
      simp [Edge.bounds_moved]
    obtain ⟨e, rest, rfl⟩ := List.exists_cons_of_ne_nil (h edges style rfl)
    rw [moved, bounds, hbounds, Extent.box?_ofBoxes_moved]
    refine Box.getD_moved ?_ d
    rw [Extent.ofBoxes_eq]
    exact Extent.box?_ofPoints_ne_none (List.cons_ne_nil _ _)
  | _ => rfl

/-! ## Samples -/

namespace Progression

theorem toList_below_add (a b step t : K) :
    (below (a + t) (b + t) step).toList = (below a b step).toList.map (· + t) := by
  have hproper : isProper (a + t) (b + t) step = isProper a b step := by
    rw [Bool.eq_iff_iff, isProper_iff, isProper_iff, add_le_add_iff_right]
  have hwhole : wholeSteps (a + t) (b + t) step = wholeSteps a b step := by
    rw [wholeSteps, wholeSteps, add_sub_add_right_eq_sub]
  have hrest : hasRemainder (a + t) (b + t) step = hasRemainder a b step := by
    rw [hasRemainder, hasRemainder, hwhole, add_sub_add_right_eq_sub]
  rw [below, below, hproper, hwhole, hrest, toList, toList, List.map_map]
  exact List.map_congr_left fun k _ => add_right_comm _ _ _

end Progression

namespace Sampling

omit [IsStrictOrderedRing K] in
theorem atAbscissa_add (a b : Point K) (x : K) : atAbscissa (a + d) (b + d) (x + d.x) = atAbscissa a b x + d := by
  refine Point.ext rfl ?_
  simp only [atAbscissa, Point.add_x, Point.add_y, add_sub_add_right_eq_sub]
  ring

theorem atHeight_add {a b : Point K} (hy : a.y ≠ b.y) (y : K) :
    atHeight (a + d) (b + d) (y + d.y) = atHeight a b y + d := by
  have hmoved : (a + d).y ≠ (b + d).y := by simpa using hy
  rw [atHeight_eq hmoved, atHeight_eq hy, Point.lerp_add, Point.add_y, Point.add_y, add_sub_add_right_eq_sub,
    add_sub_add_right_eq_sub]

theorem segment_moved (step : K) (a b : Point K) :
    segment step (a + d) (b + d) = (segment step a b).map (· + d) := by
  have hsteep : isSteep (a + d) (b + d) = isSteep a b := by
    simp only [isSteep, Point.add_x, Point.add_y, add_sub_add_right_eq_sub]
  have hlesser : ∀ u v t : K, Scalar.lesser (u + t) (v + t) = Scalar.lesser u v + t := by
    intro u v t
    rw [Scalar.lesser_eq, Scalar.lesser_eq, min_add_add_right]
  have hgreater : ∀ u v t : K, Scalar.greater (u + t) (v + t) = Scalar.greater u v + t := by
    intro u v t
    rw [Scalar.greater_eq, Scalar.greater_eq, max_add_add_right]
  rw [segment, segment, hsteep]
  split
  · rename_i hsteep
    -- A steep line is not level, and so its height tells the point.
    have hy : a.y ≠ b.y := by
      intro hy
      rw [isSteep, decide_eq_true_eq, Scalar.magnitude_eq, Scalar.magnitude_eq, hy, sub_self, abs_zero] at hsteep
      exact absurd hsteep (not_lt.2 (abs_nonneg _))
    rw [Point.add_y, Point.add_y, hlesser, hgreater, Progression.toList_below_add, List.map_map, List.map_map]
    exact List.map_congr_left fun y _ => atHeight_add d hy y
  · rw [Point.add_x, Point.add_x, hlesser, hgreater, Progression.toList_below_add, List.map_map, List.map_map]
    exact List.map_congr_left fun x _ => atAbscissa_add d a b x

theorem line_moved (step : K) : ∀ ps : List (Point K), line step (ps.map (· + d)) = (line step ps).map (· + d)
  | [] | [_] => rfl
  | a :: b :: rest => by
    have hrest := line_moved step (b :: rest)
    rw [List.map_cons] at hrest
    rw [List.map_cons, List.map_cons, line, line, segment_moved, List.map_append, hrest]

theorem edge_moved (options : SamplingOptions K) (kind : EdgeKind) (ps : List (Point K)) :
    edge options kind (ps.map (· + d)) = (edge options kind ps).map (· + d) := by
  cases kind with
  | line => exact line_moved d options.lineStep ps
  | curve =>
    show curve options (ps.map (· + d)) = (curve options ps).map (· + d)
    rw [curve, curve, List.length_map]
    split
    · exact line_moved d options.lineStep ps
    · rw [Quadratic.smooth_moved, List.flatMap_map, List.map_flatMap]
      refine List.flatMap_congr fun q _ => ?_
      rw [List.map_map]
      exact List.map_congr_left fun t _ => q.point_moved d t

theorem rectOutline_moved (step : K) (b : Box K) : rectOutline step (b.moved d) = (rectOutline step b).map (· + d) := by
  rw [rectOutline, rectOutline, Box.far_moved, Point.add_x, Point.add_y, Box.moved,
    Progression.toList_below_add, Progression.toList_below_add, List.map_append, List.flatMap_map, List.flatMap_map,
    List.map_flatMap, List.map_flatMap]
  rfl

omit [IsStrictOrderedRing K] in
theorem ellipseOutline_moved (options : SamplingOptions K) (b : Box K) :
    ellipseOutline options (b.moved d) = (ellipseOutline options b).map (· + d) := by
  rw [ellipseOutline, ellipseOutline, List.map_map]
  exact List.map_congr_left fun θ _ => b.ellipsePoint_moved d θ

omit [IsStrictOrderedRing K] in
/-- What a region is scanned for depends on its size alone. -/
theorem Scanner.scan_moved (scanner : Scanner K) (options : SamplingOptions K) (kind : RegionKind) (shape : ShapeRef)
    (b : Box K) : scanner.scan options kind shape (b.moved d) =
      (scanner.scan options kind shape b).map (·.map (· + d)) := by
  have hsilhouette : scanner.silhouette options.flattening shape (b.moved d) =
      scanner.silhouette options.flattening shape b := by
    cases shape <;> rfl
  rw [scan, scan, hsilhouette]
  cases scanner.silhouette options.flattening shape b with
  | error e => rfl
  | ok outlines =>
    have hpoints : ∀ ps : List (Point K), ps.map (b.origin + d + ·) = (ps.map (b.origin + ·)).map (· + d) := by
      intro ps
      rw [List.map_map]
      exact List.map_congr_left fun p _ => Point.ext (add_right_comm _ _ _) (add_right_comm _ _ _)
    exact congrArg Except.ok (hpoints _)

theorem Scanner.region_moved (scanner : Scanner K) (options : SamplingOptions K) (kind : RegionKind) (shape : ShapeRef)
    (b : Box K) : scanner.region options kind shape (b.moved d) =
      (scanner.region options kind shape b).map (·.map (· + d)) := by
  match kind, shape with
  | .outline, .rectangle => exact congrArg _ (rectOutline_moved d options.rectStep b)
  | .outline, .ellipse => exact congrArg _ (ellipseOutline_moved d options b)
  | .outline, .named _ | .outline, .embedded _ | .area, _ => exact scanner.scan_moved d options _ _ b

omit [IsStrictOrderedRing K] in
theorem anchor_moved (frame : Box K) (name : String) (p : Point K) :
    anchor (frame.moved d) name (p + d) = anchor frame name p := by
  rw [anchor, anchor, Box.toLocal_moved]
  rfl

end Sampling

end StencilKit
