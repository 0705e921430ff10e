/-
The attributes of a stencil's elements are read back: numbers, points, boxes and lists of points.

A number is read back as the same number, and a zero as a zero without a sign (`plain`), so what is
read is the drawing under this map. It is read at all just when every number is finite and no size is
negative. Only the characters of numerals matter for lists of points: they are neither blanks nor commas.
-/
import StencilKit.Proofs.Binary64.Plain
import StencilKit.Proofs.Decimal.RoundTrip
import StencilKit.Proofs.Text.Blank
import StencilKit.Stencil.Interpretation
import StencilKit.Stencil.Markup

namespace StencilKit.Interpretation

open Binary64 (plain isFinite_plain checkFinite_eq_ok not_lt_zero plain_lt_zero)
open Decimal (numeral numeralChars of_mem_numeralChars of_isDigit read_numeralChars)
open Xml (Element bind_eq_ok)

/-! ## Numbers -/

/-- What holds of the characters of numerals. -/
theorem of_numeralChars {p : Char → Prop} {x : Float} {c : Char} (hc : c ∈ numeralChars x)
    (h : ∀ d ∈ ['0', '1', '2', '3', '4', '5', '6', '7', '8', '9', '.', '-', 'N', 'a', 'i', 'n', 'f'], p d) : p c := by
  rcases of_mem_numeralChars hc with hdigit | hother
  · exact of_isDigit hdigit fun d hd => h d (List.mem_append_left ['.', '-', 'N', 'a', 'i', 'n', 'f'] hd)
  · exact h c (List.mem_append_right ['0', '1', '2', '3', '4', '5', '6', '7', '8', '9'] hother)

theorem isBlank_of_numeral {x : Float} : ∀ c ∈ numeralChars x, isBlank c = false :=
  fun _ hc => of_numeralChars (p := fun c => isBlank c = false) hc (by decide)

theorem comma_not_mem (x : Float) : ',' ∉ numeralChars x := by
  intro hc
  have := of_numeralChars (p := fun c => c ≠ ',') hc (by decide)
  exact this rfl

theorem require_eq {e : Element} {name value : String} (he : e.get? name = some value) :
    require e name = .ok value := by
  rw [require, he]

theorem mapError_eq_ok {ε ε' T : Type} {f : ε → ε'} {r : Except ε T} {x : T} : r.mapError f = .ok x ↔ r = .ok x := by
  cases r <;> simp [Except.mapError]

theorem map_eq_ok_iff {ε T U : Type} {r : Except ε T} {f : T → U} {y : U} :
    r.map f = .ok y ↔ ∃ x, r = .ok x ∧ f x = y := by
  cases r <;> simp [Except.map]

theorem number_eq_ok {e : Element} {name : String} {x y : Float} (he : e.get? name = some (numeral x)) :
    number e name = .ok y ↔ Scalar.isFinite x = true ∧ y = plain x := by
  have hread : Decimal.read (trimBlanks (numeral x).toList) = some (plain x) := by
    rw [numeral, String.toList_ofList, trimBlanks_eq_self isBlank_of_numeral, read_numeralChars]
  rw [number, require_eq he]
  simp only [bind, Except.bind, hread]
  rw [mapError_eq_ok, checkFinite_eq_ok, isFinite_plain]

/-! ## Points and boxes -/

theorem point_eq_ok {e : Element} {x y : String} {p q : Point Float} (hx : e.get? x = some (numeral p.x))
    (hy : e.get? y = some (numeral p.y)) :
    point e x y = .ok q ↔ (∀ a ∈ p.numbers, Scalar.isFinite a = true) ∧ q = p.map plain := by
  simp only [point, bind_eq_ok, number_eq_ok hx, number_eq_ok hy, Point.numbers, List.forall_mem_cons]
  constructor
  · rintro ⟨_, ⟨hfx, rfl⟩, _, ⟨hfy, rfl⟩, h⟩
    exact ⟨⟨hfx, hfy, List.forall_mem_nil _⟩, (Except.ok.inj h).symm⟩
  · rintro ⟨⟨hfx, hfy, -⟩, rfl⟩
    exact ⟨_, ⟨hfx, rfl⟩, _, ⟨hfy, rfl⟩, rfl⟩

theorem extent_eq_ok {e : Element} {name : String} {x : Float} {u : Unit} :
    extent e name x = .ok u ↔ Scalar.isFinite x = true ∧ 0 ≤ x := by
  rw [extent]
  by_cases hx : Scalar.isFinite x = true
  · have hcheck : Scalar.checkExtent x = if x < 0 then .error .negative else .ok x := by
      rw [Scalar.checkExtent, checkFinite_eq_ok.2 ⟨hx, rfl⟩]
      rfl
    rw [hcheck, and_iff_right hx, ← not_lt_zero hx]
    by_cases hneg : x < 0
    · rw [if_pos hneg]
      exact iff_of_false nofun (not_not_intro hneg)
    · rw [if_neg hneg]
      exact iff_of_true rfl hneg
  · refine iff_of_false ?_ fun h => hx h.1
    rw [Scalar.checkExtent]
    cases hcheck : Scalar.checkFinite x with
    | ok y => exact absurd (checkFinite_eq_ok.1 hcheck).1 hx
    | error flaw => nofun

theorem extent_plain_eq_ok {e : Element} {name : String} {x : Float} {u : Unit} (hx : Scalar.isFinite x = true) :
    extent e name (plain x) = .ok u ↔ 0 ≤ x := by
  have hplain := (isFinite_plain x).trans hx
  rw [extent_eq_ok, and_iff_right hplain, ← not_lt_zero hplain, plain_lt_zero, not_lt_zero hx]

theorem box_eq_ok {e : Element} {b c : Box Float} (hx : e.get? "x" = some (numeral b.x))
    (hy : e.get? "y" = some (numeral b.y)) (hw : e.get? "w" = some (numeral b.w))
    (hh : e.get? "h" = some (numeral b.h)) :
    box e = .ok c ↔ (∀ a ∈ b.numbers, Scalar.isFinite a = true) ∧ (0 ≤ b.w ∧ 0 ≤ b.h) ∧ c = b.map plain := by
  simp only [box, bind_eq_ok, number_eq_ok hx, number_eq_ok hy, number_eq_ok hw, number_eq_ok hh, Box.numbers,
    List.forall_mem_cons]
  constructor
  · rintro ⟨_, ⟨hfw, rfl⟩, _, ⟨hfh, rfl⟩, _, hsw, _, hsh, _, ⟨hfx, rfl⟩, _, ⟨hfy, rfl⟩, h⟩
    exact ⟨⟨hfx, hfy, hfw, hfh, List.forall_mem_nil _⟩, ⟨(extent_plain_eq_ok hfw).1 hsw, (extent_plain_eq_ok hfh).1 hsh⟩, (Except.ok.inj h).symm⟩
  · rintro ⟨⟨hfx, hfy, hfw, hfh, -⟩, ⟨hsw, hsh⟩, rfl⟩
    exact ⟨_, ⟨hfw, rfl⟩, _, ⟨hfh, rfl⟩, (), (extent_plain_eq_ok hfw).2 hsw, (), (extent_plain_eq_ok hfh).2 hsh, _, ⟨hfx, rfl⟩,
      _, ⟨hfy, rfl⟩, rfl⟩

/-! ## Lists of points -/

/-- The word of a point. -/
def pairChars (p : Point Float) : List Char := numeralChars p.x ++ ',' :: numeralChars p.y

theorem pair?_eq_some {p q : Point Float} :
    pair? (pairChars p) = some q ↔ (∀ a ∈ p.numbers, Scalar.isFinite a = true) ∧ q = p.map plain := by
  have hfinite : (p.map plain).isFinite = true ↔ ∀ a ∈ p.numbers, Scalar.isFinite a = true := by
    simp [Point.isFinite, Point.map, Point.numbers]
  have hpair : pair? (pairChars p) = if (p.map plain).isFinite then some (p.map plain) else none := by
    rw [pair?, pairChars, splitAtFirst_append (comma_not_mem p.x)]
    simp only [bind, Option.bind, read_numeralChars]
    rfl
  rw [hpair, ← hfinite]
  split
  · rename_i h
    rw [Option.some.injEq, and_iff_right h, eq_comm]
  · rename_i h
    exact iff_of_false (Option.some_ne_none q).symm fun hq => h hq.1

theorem isBlank_of_pair {p : Point Float} : ∀ c ∈ pairChars p, isBlank c = false := by
  intro c hc
  rcases List.mem_append.1 hc with hc | hc
  · exact isBlank_of_numeral c hc
  · rcases List.mem_cons.1 hc with rfl | hc
    · decide
    · exact isBlank_of_numeral c hc

theorem words_pointsChars (ps : List (Point Float)) : words (Markup.pointsChars ps) = ps.map pairChars := by
  have hne : ∀ p, pairChars p ≠ [] := by simp [pairChars]
  induction ps with
  | nil => rfl
  | cons p ps ih =>
    cases ps with
    | nil => exact words_singleton (hne p) isBlank_of_pair
    | cons q qs =>
      have htext : Markup.pointsChars (p :: q :: qs) = pairChars p ++ ' ' :: Markup.pointsChars (q :: qs) := by
        simp [Markup.pointsChars, pairChars]
      rw [htext, words_cons (hne p) isBlank_of_pair, ih]
      rfl

/-- **A list of points is read back**, just when all are finite. -/
theorem points_eq_ok {e : Element} {ps qs : List (Point Float)}
    (he : e.get? "points" = some (Markup.pointsText ps)) :
    points e = .ok qs ↔ (∀ a ∈ ps.flatMap Point.numbers, Scalar.isFinite a = true) ∧ qs = ps.map (Point.map plain) := by
  have hpairs : (ps.map pairChars).mapM pair? = some qs ↔
      (∀ a ∈ ps.flatMap Point.numbers, Scalar.isFinite a = true) ∧ qs = ps.map (Point.map plain) := by
    rw [List.mapM_map]
    clear he
    induction ps generalizing qs with
    | nil => exact ⟨fun h => ⟨List.forall_mem_nil _, (Option.some.inj h).symm⟩, fun h => congrArg some h.2.symm⟩
    | cons p ps ih =>
      simp only [List.mapM_cons, Option.bind_eq_bind, Option.bind_eq_some_iff, Function.comp_apply, pair?_eq_some, ih,
        List.flatMap_cons, List.forall_mem_append, List.map_cons]
      constructor
      · rintro ⟨_, ⟨hp, rfl⟩, _, ⟨hps, rfl⟩, h⟩
        exact ⟨⟨hp, hps⟩, (Option.some.inj h).symm⟩
      · rintro ⟨⟨hp, hps⟩, rfl⟩
        exact ⟨_, ⟨hp, rfl⟩, _, ⟨hps, rfl⟩, rfl⟩
  rw [points, require_eq he, ← hpairs]
  simp only [bind, Except.bind]
  rw [Markup.pointsText, String.toList_ofList, words_pointsChars]
  cases (ps.map pairChars).mapM pair? <;> simp

end StencilKit.Interpretation
