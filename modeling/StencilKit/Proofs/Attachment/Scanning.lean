/-
What scanning a region keeps.

A region is scanned by walking a grid over its box, column by column (`IsColumnwise`), and asking of each point how it
is hit. The hit test may be any, as long as its answer depends on the silhouette and the point alone; and which
silhouette it is asked about does not depend on what is to be kept. So the outline and the area of a region are scanned
both or neither, and what is kept for the outline is kept for the area as well, in the order of the walk
(`scan_outline_area`).
-/
import Mathlib.Data.List.Basic
import StencilKit.Attachment.Sampling
import StencilKit.Proofs.Stencil.Elements

namespace StencilKit

/-- The entries for one of some things, each with all of some others, come after those for the things before it. -/
theorem getElem?_flatMap_map {T U V : Type} (f : T → U → V) {xs : List T} {ys : List U} {i j : Nat}
    (hi : i < xs.length) (hj : j < ys.length) :
    (xs.flatMap fun x => ys.map (f x))[i * ys.length + j]? = some (f xs[i] ys[j]) := by
  induction xs generalizing i with
  | nil => exact absurd hi (Nat.not_lt_zero i)
  | cons x xs ih =>
    rw [List.flatMap_cons]
    cases i with
    | zero =>
      rw [List.getElem?_append_left (by simpa using hj)]
      simp [hj]
    | succ i =>
      have hskip : (i + 1) * ys.length + j - (ys.map (f x)).length = i * ys.length + j := by
        rw [List.length_map, Nat.succ_mul]
        omega
      rw [List.getElem?_append_right (by rw [List.length_map, Nat.succ_mul]; omega), hskip]
      exact ih (Nat.lt_of_succ_lt_succ hi)

namespace Sampling

open Scalar (count)

variable {α : Type} [Scalar α]

/-! ## Walking a grid -/

/-- How many points of a grid there are along a length. -/
def stops (step length : α) : Nat := (Progression.through 0 length step).count

/-- The point of a grid in a column and a row, both counted from zero, relative to the region. -/
def gridPoint (step : α) (i j : Nat) : Point α := ⟨0 + count i * step, 0 + count j * step⟩

/-- Whether points are those of a grid over a box, in the order of a walk through one column after the other. -/
structure IsColumnwise (step : α) (b : Box α) (ps : List (Point α)) : Prop where
  length : ps.length = stops step b.w * stops step b.h
  getElem? : ∀ i < stops step b.w, ∀ j < stops step b.h,
    ps[i * stops step b.h + j]? = some (b.origin + gridPoint step i j)

theorem grid_eq (step w h : α) : grid step w h =
    (List.range (stops step w)).flatMap fun i => (List.range (stops step h)).map (gridPoint step i) := by
  rw [grid, Progression.toList, Progression.toList, List.flatMap_map]
  simp only [List.map_map]
  rfl

/-- **A scan walks the grid column by column.** -/
theorem isColumnwise_grid (step : α) (b : Box α) : IsColumnwise step b ((grid step b.w b.h).map (b.origin + ·)) where
  length := by
    rw [List.length_map, grid_eq]
    simp [List.map_const']
  getElem? i hi j hj := by
    have hi : i < (List.range (stops step b.w)).length := by rwa [List.length_range]
    have hj : j < (List.range (stops step b.h)).length := by rwa [List.length_range]
    have hpoint := getElem?_flatMap_map (gridPoint step) hi hj
    simp only [List.length_range, List.getElem_range, ← grid_eq] at hpoint
    rw [List.getElem?_map, hpoint]
    rfl

/-! ## Keeping what is hit -/

/-- Whether a point is one of a grid over a box, and one that is wanted, seen from the corner of the box. -/
def IsWantedAt (step : α) (b : Box α) (wanted : Point α → Prop) (p : Point α) : Prop :=
  ∃ i < stops step b.w, ∃ j < stops step b.h, wanted (gridPoint step i j) ∧ b.origin + gridPoint step i j = p

/-- The points of a grid that are kept, where they lie in the drawing plane. -/
def kept (step : α) (b : Box α) (keep : Point α → Bool) : List (Point α) :=
  ((grid step b.w b.h).filter keep).map (b.origin + ·)

theorem mem_kept_iff {step : α} {b : Box α} {keep : Point α → Bool} {p : Point α} :
    p ∈ kept step b keep ↔ IsWantedAt step b (fun q => keep q = true) p := by
  simp only [kept, grid_eq, IsWantedAt, List.mem_map, List.mem_filter, List.mem_flatMap, List.mem_range]
  constructor
  · rintro ⟨_, ⟨⟨i, hi, j, hj, rfl⟩, hkeep⟩, hp⟩
    exact ⟨i, hi, j, hj, hkeep, hp⟩
  · rintro ⟨i, hi, j, hj, hkeep, hp⟩
    exact ⟨_, ⟨⟨i, hi, j, hj, rfl⟩, hkeep⟩, hp⟩

theorem kept_sublist_grid (step : α) (b : Box α) (keep : Point α → Bool) :
    (kept step b keep).Sublist ((grid step b.w b.h).map (b.origin + ·)) :=
  List.filter_sublist.map _

/-- Whoever keeps more keeps all that others keep, in the same order. -/
theorem kept_sublist_kept {step : α} {b : Box α} {keep keep' : Point α → Bool}
    (h : ∀ p, keep p = true → keep' p = true) : (kept step b keep).Sublist (kept step b keep') :=
  (List.monotone_filter_right _ h).map _

namespace Scanner

variable {scanner : Scanner α} {options : SamplingOptions α} {shape : ShapeRef} {b : Box α}

theorem scan_of_error {failure : Failure α} (h : scanner.silhouette options.flattening shape b = .error failure)
    (kind : RegionKind) : scanner.scan options kind shape b = .error failure := by
  rw [scan, h]
  rfl

theorem scan_of_ok {outlines : Silhouette α} (h : scanner.silhouette options.flattening shape b = .ok outlines)
    (kind : RegionKind) : scanner.scan options kind shape b =
      .ok (kept options.gridStep b fun p => keeps kind (scanner.hit outlines p)) := by
  rw [scan, h]
  rfl

/-- A shape has no silhouette only if it is not built in and what it refers to cannot be had. -/
theorem of_silhouette_eq_error {failure : Failure α} {n : Nat} (h : scanner.silhouette n shape b = .error failure) :
    shape ≠ .rectangle ∧ shape ≠ .ellipse ∧ scanner.resolve shape = .error failure := by
  cases shape with
  | rectangle | ellipse => cases h
  | named name | embedded token => exact ⟨by simp, by simp, map_eq_error h⟩

/-- **The outline and the area of a region** fail to be scanned for the same reason, which is that what the shape refers
to cannot be had, or are both scanned. Then the points of the outline are those of the grid that are on the stroke, and
those of the area the ones in the fill or on the stroke, all of them in the order in which the grid is walked. -/
theorem scan_outline_area (scanner : Scanner α) (options : SamplingOptions α) (shape : ShapeRef) (b : Box α) :
    (∃ failure, (shape ≠ .rectangle ∧ shape ≠ .ellipse ∧ scanner.resolve shape = .error failure) ∧
      scanner.scan options .outline shape b = .error failure ∧ scanner.scan options .area shape b = .error failure) ∨
    ∃ outlines outline area all, scanner.silhouette options.flattening shape b = .ok outlines ∧
      scanner.scan options .outline shape b = .ok outline ∧ scanner.scan options .area shape b = .ok area ∧
      outline.Sublist area ∧ area.Sublist all ∧ IsColumnwise options.gridStep b all ∧
      outline.length ≤ area.length ∧
      (∀ p, p ∈ outline ↔ IsWantedAt options.gridStep b (fun q => (scanner.hit outlines q).onStroke = true) p) ∧
      ∀ p, p ∈ area ↔ IsWantedAt options.gridStep b
        (fun q => (scanner.hit outlines q).onFill = true ∨ (scanner.hit outlines q).onStroke = true) p := by
  cases hsilhouette : scanner.silhouette options.flattening shape b with
  | error failure =>
    exact .inl ⟨failure, of_silhouette_eq_error hsilhouette, scan_of_error hsilhouette .outline,
      scan_of_error hsilhouette .area⟩
  | ok outlines =>
    have hsublist : (kept options.gridStep b fun p => keeps .outline (scanner.hit outlines p)).Sublist
        (kept options.gridStep b fun p => keeps .area (scanner.hit outlines p)) :=
      kept_sublist_kept fun p h => Bool.or_eq_true_iff.2 (.inr h)
    refine .inr ⟨outlines, _, _, _, rfl, scan_of_ok hsilhouette .outline, scan_of_ok hsilhouette .area, hsublist,
      kept_sublist_grid _ _ _, isColumnwise_grid _ _, hsublist.length_le, fun p => mem_kept_iff, fun p => ?_⟩
    simp only [mem_kept_iff, keeps, Bool.or_eq_true]

end Scanner

end Sampling

end StencilKit
