/-
What is asked of the elements of a stencil.

Where an element stands and what it is called tell whether it means anything, what has to be found in it,
and where its own children stand (`Level.rule?`). So a tree comes to a list of requirements in document
order (`requirements`), of which each is met or refused for a reason (`Requirement.Met`,
`Requirement.Refused`). A reader obeys a list of requirements if it answers only when all are met, and
otherwise fails by the first that is not (`Obeys`); readers that follow each other obey their requirements
one after the other.
-/
import StencilKit.Proofs.Stencil.Attributes

namespace StencilKit.Schema

open Decimal (numeral)
open Interpretation (Result)
open Xml (Element)

/-! ## Demands -/

/-- Something that an element can be asked for. -/
inductive Demand where
  /-- To be called so. -/
  | called (tag : String)
  /-- An attribute. -/
  | value (name : String)
  /-- An attribute that is a finite number. -/
  | number (name : String)
  /-- A number in an attribute that is not negative. -/
  | extent (name : String)
  /-- A list of points. -/
  | points
  /-- A part of a region that there is, if it names one. -/
  | part

/-- An element that something is asked of. -/
structure Requirement where
  element : Element
  demand : Demand

/-- An attribute holds a number, with blanks around it or without. -/
def Holds (e : Element) (name raw : String) (x : Float) : Prop :=
  e.get? name = some raw ∧ Decimal.read (trimBlanks raw.toList) = some x

theorem Holds.unique {e : Element} {name raw raw' : String} {x x' : Float} (h : Holds e name raw x)
    (h' : Holds e name raw' x') : raw = raw' ∧ x = x' := by
  obtain ⟨hget, hread⟩ := h
  obtain ⟨hget', hread'⟩ := h'
  obtain rfl := Option.some.inj (hget.symm.trans hget')
  exact ⟨rfl, Option.some.inj (hread.symm.trans hread')⟩

/-- A word is a point: two finite numbers with a comma between them. -/
def IsPair (word : List Char) (p : Point Float) : Prop :=
  ∃ xs ys, word = xs ++ ',' :: ys ∧ ',' ∉ xs ∧ Decimal.read xs = some p.x ∧ Decimal.read ys = some p.y ∧
    p.isFinite = true

namespace Requirement

/-- When an element has what is asked of it. -/
def Met : Requirement → Prop
  | ⟨e, .called tag⟩ => e.tag = tag
  | ⟨e, .value name⟩ => ∃ raw, e.get? name = some raw
  | ⟨e, .number name⟩ => ∃ raw x, Holds e name raw x ∧ Scalar.isFinite x = true
  | ⟨e, .extent name⟩ => ∃ raw x, Holds e name raw x ∧ 0 ≤ x
  | ⟨e, .points⟩ => ∃ raw, e.get? "points" = some raw ∧ ∀ word ∈ words raw.toList, ∃ p, IsPair word p
  | ⟨e, .part⟩ => ∀ word ∈ e.get? "kind", word = "area" ∨ word = "outline"

/-- Why an element is refused for what is asked of it. -/
inductive Refused : Requirement → Failure Float → Prop
  | called {e : Element} {tag : String} (h : e.tag ≠ tag) : Refused ⟨e, .called tag⟩ (.unexpectedRoot e.tag)
  | noValue {e : Element} {name : String} (h : e.get? name = none) :
    Refused ⟨e, .value name⟩ (.missingAttribute e.tag name)
  | noNumber {e : Element} {name : String} (h : e.get? name = none) :
    Refused ⟨e, .number name⟩ (.missingAttribute e.tag name)
  | unreadable {e : Element} {name raw : String} (h : e.get? name = some raw)
    (hread : Decimal.read (trimBlanks raw.toList) = none) :
    Refused ⟨e, .number name⟩ (.invalidAttribute e.tag name raw none)
  | notFinite {e : Element} {name raw : String} {x : Float} (h : Holds e name raw x) (hx : Scalar.isFinite x = false) :
    Refused ⟨e, .number name⟩
      (.invalidAttribute e.tag name raw (some (if Scalar.isNaN x then .nan else .infinite)))
  | negative {e : Element} {name raw : String} {x : Float} (h : Holds e name raw x)
    (hfinite : Scalar.isFinite x = true) (hx : x < 0) :
    Refused ⟨e, .extent name⟩ (.invalidAttribute e.tag name (numeral x) (some .negative))
  | noPoints {e : Element} (h : e.get? "points" = none) : Refused ⟨e, .points⟩ (.missingAttribute e.tag "points")
  | noPair {e : Element} {raw : String} {word : List Char} (h : e.get? "points" = some raw)
    (hword : word ∈ words raw.toList) (hpair : ∀ p, ¬ IsPair word p) :
    Refused ⟨e, .points⟩ (.invalidAttribute e.tag "points" raw none)
  | noPart {e : Element} {word : String} (h : e.get? "kind" = some word) (harea : word ≠ "area")
    (houtline : word ≠ "outline") : Refused ⟨e, .part⟩ (.invalidAttribute e.tag "kind" word none)

/-- Nothing is refused that is met. -/
theorem Refused.not_met {r : Requirement} {f : Failure Float} (h : r.Refused f) : ¬ r.Met := by
  cases h with
  | called h => exact h
  | noValue h =>
    rintro ⟨raw, hraw⟩
    cases h.symm.trans hraw
  | noNumber h =>
    rintro ⟨raw, x, ⟨hraw, -⟩, -⟩
    cases h.symm.trans hraw
  | unreadable h hread =>
    rintro ⟨raw, x, ⟨hraw, hx⟩, -⟩
    obtain rfl := Option.some.inj (h.symm.trans hraw)
    cases hread.symm.trans hx
  | notFinite h hx =>
    rintro ⟨raw, x', h', hx'⟩
    obtain ⟨rfl, rfl⟩ := h.unique h'
    cases hx.symm.trans hx'
  | negative h hfinite hx =>
    rintro ⟨raw, x', h', hx'⟩
    obtain ⟨rfl, rfl⟩ := h.unique h'
    exact (Binary64.not_lt_zero hfinite).2 hx' hx
  | noPoints h =>
    rintro ⟨raw, hraw, -⟩
    cases h.symm.trans hraw
  | noPair h hword hpair =>
    rintro ⟨raw, hraw, hall⟩
    obtain rfl := Option.some.inj (h.symm.trans hraw)
    obtain ⟨p, hp⟩ := hall _ hword
    exact hpair p hp
  | noPart h harea houtline =>
    intro hall
    rcases hall _ h with hw | hw
    · exact harea hw
    · exact houtline hw

/-- There is one reason for which something is refused. -/
theorem Refused.unique {r : Requirement} {f f' : Failure Float} (h : r.Refused f) (h' : r.Refused f') : f = f' := by
  cases h with
  | called _ =>
    cases h'
    rfl
  | noValue _ =>
    cases h'
    rfl
  | noNumber h =>
    cases h' with
    | noNumber _ => rfl
    | unreadable h' _ => cases h.symm.trans h'
    | notFinite h' _ => cases h.symm.trans h'.1
  | unreadable h hread =>
    cases h' with
    | noNumber h' => cases h.symm.trans h'
    | unreadable h' _ =>
      obtain rfl := Option.some.inj (h.symm.trans h')
      rfl
    | notFinite h' _ =>
      obtain rfl := Option.some.inj (h.symm.trans h'.1)
      cases hread.symm.trans h'.2
  | notFinite h hx =>
    cases h' with
    | noNumber h' => cases h'.symm.trans h.1
    | unreadable h' hread =>
      obtain rfl := Option.some.inj (h'.symm.trans h.1)
      cases hread.symm.trans h.2
    | notFinite h' _ =>
      obtain ⟨rfl, rfl⟩ := h.unique h'
      rfl
  | negative h _ _ =>
    cases h' with
    | negative h' _ _ =>
      obtain ⟨rfl, rfl⟩ := h.unique h'
      rfl
  | noPoints h =>
    cases h' with
    | noPoints _ => rfl
    | noPair h' _ _ => cases h.symm.trans h'
  | noPair h _ _ =>
    cases h' with
    | noPoints h' => cases h'.symm.trans h
    | noPair h' _ _ =>
      obtain rfl := Option.some.inj (h.symm.trans h')
      rfl
  | noPart h _ _ =>
    cases h' with
    | noPart h' _ _ =>
      obtain rfl := Option.some.inj (h.symm.trans h')
      rfl

end Requirement

/-- The first requirement that is not met is refused for this reason. -/
inductive FirstRefused : List Requirement → Failure Float → Prop
  | here {r : Requirement} {rs : List Requirement} {f : Failure Float} (h : r.Refused f) : FirstRefused (r :: rs) f
  | later {r : Requirement} {rs : List Requirement} {f : Failure Float} (h : r.Met) (hrs : FirstRefused rs f) :
    FirstRefused (r :: rs) f

namespace FirstRefused

variable {rs : List Requirement} {f f' : Failure Float}

theorem not_met (h : FirstRefused rs f) : ¬ ∀ r ∈ rs, r.Met := by
  induction h with
  | here h => exact fun hall => h.not_met (hall _ List.mem_cons_self)
  | later _ _ ih => exact fun hall => ih fun r hr => hall r (List.mem_cons_of_mem _ hr)

theorem unique (h : FirstRefused rs f) (h' : FirstRefused rs f') : f = f' := by
  induction h with
  | here h =>
    cases h' with
    | here h' => exact h.unique h'
    | later hmet _ => exact absurd hmet h.not_met
  | later hmet _ ih =>
    cases h' with
    | here h' => exact absurd hmet h'.not_met
    | later _ h' => exact ih h'

/-- What is refused is an element, and not a text. -/
theorem ne_malformedText (h : FirstRefused rs f) (message : String) (offset : Nat) :
    f ≠ .malformedText message offset := by
  induction h with
  | here h => cases h <;> nofun
  | later _ _ ih => exact ih

theorem append (h : FirstRefused rs f) (more : List Requirement) : FirstRefused (rs ++ more) f := by
  induction h with
  | here h => exact .here h
  | later hmet _ ih => exact .later hmet ih

theorem append_left {before : List Requirement} (hmet : ∀ r ∈ before, r.Met) (h : FirstRefused rs f) :
    FirstRefused (before ++ rs) f := by
  induction before with
  | nil => exact h
  | cons r before ih =>
    obtain ⟨hr, hbefore⟩ := List.forall_mem_cons.1 hmet
    exact .later hr (ih hbefore)

end FirstRefused

/-! ## Where elements stand -/

/-- A place for elements in the tree of a stencil. -/
inductive Level where
  /-- The root stands by itself. -/
  | document
  /-- In the root. -/
  | shape
  | connections
  | foreground
  | path
  /-- Where nothing has a meaning. -/
  | leaf

/-- What an element that has a meaning is asked for, in this order, and where its children stand. -/
structure Rule where
  demands : List Demand
  inside : Level := .leaf

/-- What a box is asked for. -/
def boxDemands : List Demand := [.number "w", .number "h", .extent "w", .extent "h", .number "x", .number "y"]

/-- The rule for an element of this name, if it has a meaning at this place. -/
def Level.rule? : Level → String → Option Rule
  | document, _ => some { demands := [.called "shape", .number "w", .number "h"], inside := .shape }
  | shape, "connections" => some { demands := [], inside := .connections }
  | shape, "foreground" => some { demands := [], inside := .foreground }
  | connections, "constraint" => some { demands := [.number "x", .number "y"] }
  | connections, "lineattack" | connections, "curveattack" => some { demands := [.points] }
  | connections, "areaattack" => some { demands := .part :: .value "shape" :: boxDemands }
  | foreground, "path" => some { demands := [], inside := .path }
  | foreground, "rect" | foreground, "roundrect" | foreground, "ellipse" => some { demands := boxDemands }
  | foreground, "include-shape" => some { demands := .value "name" :: boxDemands }
  | foreground, "image" => some { demands := .value "src" :: boxDemands }
  | foreground, "dashed" | foreground, "stroke" | foreground, "fillstroke" => some { demands := [] }
  | foreground, "dashpattern" => some { demands := [.value "pattern"] }
  | foreground, "strokewidth" => some { demands := [.number "width"] }
  | foreground, "strokecolor" | foreground, "fillcolor" => some { demands := [.value "color"] }
  | path, "move" | path, "line" => some { demands := [.number "x", .number "y"] }
  | path, "quad" => some { demands := [.number "x1", .number "y1", .number "x2", .number "y2"] }
  | path, "close" => some { demands := [] }
  | _, _ => none

mutual

/-- What is required of an element at its place, and of those inside it, in document order. -/
def requirements (level : Level) : Element → List Requirement
  | .node tag attributes children =>
    match level.rule? tag with
    | none => []
    | some rule => rule.demands.map (⟨.node tag attributes children, ·⟩) ++ requirementsAll rule.inside children

/-- What is required of elements in a row. -/
def requirementsAll (level : Level) : List Element → List Requirement
  | [] => []
  | e :: es => requirements level e ++ requirementsAll level es

end

theorem requirementsAll_eq (level : Level) (es : List Element) :
    requirementsAll level es = es.flatMap (requirements level) := by
  induction es with
  | nil => rfl
  | cons e es ih => rw [requirementsAll, ih, List.flatMap_cons]

theorem requirements_of_none {level : Level} {e : Element} (h : level.rule? e.tag = none) :
    requirements level e = [] := by
  obtain ⟨tag, attributes, children⟩ := e
  rw [Element.tag] at h
  rw [requirements, h]

theorem requirements_of_some {level : Level} {e : Element} {rule : Rule} (h : level.rule? e.tag = some rule) :
    requirements level e = rule.demands.map (⟨e, ·⟩) ++ e.children.flatMap (requirements rule.inside) := by
  obtain ⟨tag, attributes, children⟩ := e
  rw [Element.tag] at h
  simp only [requirements, h, requirementsAll_eq, Element.children]

/-- Where nothing has a meaning, nothing is required. -/
theorem requirements_leaf (e : Element) : requirements .leaf e = [] := requirements_of_none rfl

theorem requirements_of_leaf {level : Level} {e : Element} {demands : List Demand}
    (h : level.rule? e.tag = some { demands }) : requirements level e = demands.map (⟨e, ·⟩) := by
  rw [requirements_of_some h, List.flatMap_eq_nil_iff.2 fun d _ => requirements_leaf d, List.append_nil]

/-! ## Readers -/

/-- A reader answers only if all that is required is met, and it fails by the first requirement that is not. -/
structure Obeys {T : Type} (rs : List Requirement) (x : Result T) : Prop where
  met : ∀ a, x = .ok a → ∀ r ∈ rs, r.Met
  refused : ∀ f, x = .error f → FirstRefused rs f

namespace Obeys

variable {T U : Type} {rs rs' : List Requirement} {x : Result T}

theorem ok_iff (h : Obeys rs x) : (∃ a, x = .ok a) ↔ ∀ r ∈ rs, r.Met := by
  refine ⟨fun ⟨a, ha⟩ => h.met a ha, fun hmet => ?_⟩
  cases hx : x with
  | ok a => exact ⟨a, rfl⟩
  | error f => exact absurd hmet (h.refused f hx).not_met

theorem error_iff (h : Obeys rs x) (f : Failure Float) : x = .error f ↔ FirstRefused rs f := by
  refine ⟨h.refused f, fun hf => ?_⟩
  cases hx : x with
  | ok a => exact absurd (h.met a hx) hf.not_met
  | error f' => rw [(h.refused f' hx).unique hf]

theorem ok (a : T) : Obeys [] (.ok a : Result T) := ⟨fun _ _ => List.forall_mem_nil _, nofun⟩

theorem cons {r : Requirement} (hr : r.Met) (hx : Obeys rs x) : Obeys (r :: rs) x :=
  ⟨fun a ha => List.forall_mem_cons.2 ⟨hr, hx.met a ha⟩, fun f hf => .later hr (hx.refused f hf)⟩

theorem of_met {r : Requirement} {a : T} (h : r.Met) : Obeys [r] (.ok a : Result T) := cons h (ok a)

theorem of_refused {r : Requirement} {f : Failure Float} (h : r.Refused f) : Obeys [r] (.error f : Result T) :=
  ⟨nofun, fun _ hf => Except.error.inj hf ▸ .here h⟩

theorem bind {g : T → Result U} (hx : Obeys rs x) (hg : ∀ a, x = .ok a → Obeys rs' (g a)) :
    Obeys (rs ++ rs') (x >>= g) := by
  cases h : x with
  | error f =>
    exact ⟨nofun, fun f' hf => (Except.error.inj hf) ▸ (hx.refused f h).append rs'⟩
  | ok a =>
    have hmet := hx.met a h
    exact ⟨fun b hb => List.forall_mem_append.2 ⟨hmet, (hg a h).met b hb⟩,
      fun f hf => ((hg a h).refused f hf).append_left hmet⟩

theorem map (hx : Obeys rs x) (g : T → U) : Obeys rs (x.map g) := by
  have h := hx.bind fun a _ => ok (g a)
  rw [List.append_nil] at h
  cases x <;> exact h

/-- What is read in a row is required in a row. -/
theorem mapM {read : Element → Result T} {require : Element → List Requirement}
    (h : ∀ e, Obeys (require e) (read e)) (es : List Element) : Obeys (es.flatMap require) (es.mapM read) := by
  induction es with
  | nil => exact ok []
  | cons e es ih =>
    rw [List.mapM_cons, List.flatMap_cons]
    refine (h e).bind fun a _ => ?_
    have hrest := ih.bind fun as _ => ok (a :: as)
    rwa [List.append_nil] at hrest

theorem foldlM {read : T → Element → Result T} {require : Element → List Requirement}
    (h : ∀ a e, Obeys (require e) (read a e)) (es : List Element) (a : T) :
    Obeys (es.flatMap require) (es.foldlM read a) := by
  induction es generalizing a with
  | nil => exact ok a
  | cons e es ih =>
    rw [List.foldlM_cons, List.flatMap_cons]
    exact (h a e).bind fun b _ => ih b

end Obeys

end StencilKit.Schema
