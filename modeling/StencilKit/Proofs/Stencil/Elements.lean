/-
The elements of a stencil are read back.

Each entry that has a meaning is written as one element, with all that the entry holds in attributes,
and that element is read as the entry again, its numbers without the signs of zeros and its shape as
what the shape's name means. It is read just when all numbers are finite and no box has a negative size
(`Interpretable`). Texts are no matter for that: only markup asks something of them.
-/
import Mathlib.Data.List.Forall2
import StencilKit.Proofs.Stencil.Attributes
import StencilKit.Proofs.Xml.Documents

namespace StencilKit

open Binary64 (plain)
open Decimal (numeral numeralChars)
open Xml (Element isWord isLiteral respaced IsText)

/-! ## What can be written -/

/-- What has to hold of the things a stencil holds, so that its text keeps them. -/
structure Writable (numbers : List Float) (boxes : List (Box Float)) (shapes : List ShapeRef)
    (texts : List String) : Prop where
  finite : ∀ a ∈ numbers, Scalar.isFinite a = true
  sizes : ∀ b ∈ boxes, 0 ≤ b.w ∧ 0 ≤ b.h
  named : ∀ r ∈ shapes, ShapeRef.ofName r.name = r
  literal : ∀ t ∈ texts, ∀ c ∈ t.toList, isLiteral c = true

instance {numbers : List Float} {boxes : List (Box Float)} {shapes : List ShapeRef} {texts : List String} :
    Decidable (Writable numbers boxes shapes texts) :=
  decidable_of_iff ((∀ a ∈ numbers, Scalar.isFinite a = true) ∧ (∀ b ∈ boxes, 0 ≤ b.w ∧ 0 ≤ b.h) ∧
      (∀ r ∈ shapes, ShapeRef.ofName r.name = r) ∧ ∀ t ∈ texts, ∀ c ∈ t.toList, isLiteral c = true)
    ⟨fun ⟨finite, sizes, named, literal⟩ => ⟨finite, sizes, named, literal⟩,
      fun ⟨finite, sizes, named, literal⟩ => ⟨finite, sizes, named, literal⟩⟩

/-- What has to hold of the numbers and boxes of a thing, so that its elements are read. -/
structure Interpretable (numbers : List Float) (boxes : List (Box Float)) : Prop where
  finite : ∀ a ∈ numbers, Scalar.isFinite a = true
  sizes : ∀ b ∈ boxes, 0 ≤ b.w ∧ 0 ≤ b.h

instance {numbers : List Float} {boxes : List (Box Float)} : Decidable (Interpretable numbers boxes) :=
  decidable_of_iff ((∀ a ∈ numbers, Scalar.isFinite a = true) ∧ ∀ b ∈ boxes, 0 ≤ b.w ∧ 0 ≤ b.h)
    ⟨fun ⟨finite, sizes⟩ => ⟨finite, sizes⟩, fun ⟨finite, sizes⟩ => ⟨finite, sizes⟩⟩

theorem interpretable_append {numbers numbers' : List Float} {boxes boxes' : List (Box Float)} :
    Interpretable (numbers ++ numbers') (boxes ++ boxes') ↔
      Interpretable numbers boxes ∧ Interpretable numbers' boxes' := by
  constructor
  · rintro ⟨hfinite, hsizes⟩
    rw [List.forall_mem_append] at hfinite hsizes
    exact ⟨⟨hfinite.1, hsizes.1⟩, ⟨hfinite.2, hsizes.2⟩⟩
  · rintro ⟨h, h'⟩
    exact ⟨List.forall_mem_append.2 ⟨h.finite, h'.finite⟩, List.forall_mem_append.2 ⟨h.sizes, h'.sizes⟩⟩

theorem interpretable_flatMap {T : Type} {numbers : T → List Float} {boxes : T → List (Box Float)} {xs : List T} :
    Interpretable (xs.flatMap numbers) (xs.flatMap boxes) ↔ ∀ x ∈ xs, Interpretable (numbers x) (boxes x) := by
  induction xs with
  | nil => exact iff_of_true ⟨List.forall_mem_nil _, List.forall_mem_nil _⟩ (List.forall_mem_nil _)
  | cons x xs ih =>
    rw [List.flatMap_cons, List.flatMap_cons, interpretable_append, ih, List.forall_mem_cons]

/-- A thing of numbers alone. -/
theorem interpretable_numbers {numbers : List Float} :
    Interpretable numbers [] ↔ ∀ a ∈ numbers, Scalar.isFinite a = true :=
  ⟨(·.finite), fun h => ⟨h, List.forall_mem_nil _⟩⟩

/-- A thing of one box. -/
theorem interpretable_box {b : Box Float} :
    Interpretable b.numbers [b] ↔ (∀ a ∈ b.numbers, Scalar.isFinite a = true) ∧ 0 ≤ b.w ∧ 0 ≤ b.h :=
  ⟨fun h => ⟨h.finite, h.sizes b (List.mem_singleton_self b)⟩, fun h => ⟨h.1, List.forall_mem_singleton.2 h.2⟩⟩

variable {α : Type}

namespace Connection

def boxes : Connection α → List (Box α)
  | region t => [t.box]
  | _ => []

def shapes : Connection α → List ShapeRef
  | region t => [t.shape]
  | _ => []

def texts : Connection α → List String
  | anchor a => [a.name]
  | edge t => [t.name]
  | region t => [t.name, t.shape.name]
  | unknown tag => [tag]

def isKnown : Connection α → Bool
  | unknown _ => false
  | _ => true

/-- An entry with other texts, and another shape. -/
def mapTexts (f : String → String) (g : ShapeRef → ShapeRef) : Connection α → Connection α
  | anchor a => anchor { a with name := f a.name }
  | edge t => edge { t with name := f t.name }
  | region t => region { t with name := f t.name, shape := g t.shape }
  | unknown tag => unknown tag

end Connection

namespace Node

def boxes : Node α → List (Box α)
  | rect b | ellipse b | reference _ b | image _ b => [b]
  | _ => []

def texts : Node α → List String
  | reference text _ | image text _ | dashPattern text | strokeColor text | fillColor text | unknown text => [text]
  | _ => []

def isKnown : Node α → Bool
  | unknown _ => false
  | _ => true

/-- An entry with other texts. -/
def mapTexts (f : String → String) : Node α → Node α
  | reference name b => reference (f name) b
  | image src b => image (f src) b
  | dashPattern pattern => dashPattern (f pattern)
  | strokeColor color => strokeColor (f color)
  | fillColor color => fillColor (f color)
  | n => n

end Node

namespace Stencil

def boxes (s : Stencil α) : List (Box α) :=
  s.connections.flatMap Connection.boxes ++ s.foreground.flatMap Node.boxes

/-- The shapes of the regions that a stencil tells of. -/
def shapes (s : Stencil α) : List ShapeRef := s.connections.flatMap Connection.shapes

def texts (s : Stencil α) : List String :=
  s.strokeWidth :: (s.connections.flatMap Connection.texts ++ s.foreground.flatMap Node.texts)

/-- Whether every entry has a meaning. -/
def isKnown (s : Stencil α) : Bool := s.connections.all (·.isKnown) && s.foreground.all (·.isKnown)

end Stencil

/-! ## What is written -/

theorem literal_numeral (x : Float) : ∀ c ∈ (numeral x).toList, isLiteral c = true := by
  rw [numeral, String.toList_ofList]
  exact fun c hc => Interpretation.of_numeralChars (p := fun c => isLiteral c = true) hc (by decide)

theorem literal_pointsText (ps : List (Point Float)) : ∀ c ∈ (Markup.pointsText ps).toList, isLiteral c = true := by
  rw [Markup.pointsText, String.toList_ofList]
  have hpoint : ∀ p : Point Float, ∀ c ∈ numeralChars p.x ++ ',' :: numeralChars p.y, isLiteral c = true := by
    intro p
    have hx := literal_numeral p.x
    have hy := literal_numeral p.y
    rw [numeral, String.toList_ofList] at hx hy
    exact List.forall_mem_append.2 ⟨hx, List.forall_mem_cons.2 ⟨by decide, hy⟩⟩
  induction ps with
  | nil => exact List.forall_mem_nil _
  | cons p ps ih =>
    cases ps with
    | nil => exact hpoint p
    | cons q qs =>
      rw [Markup.pointsChars]
      · exact List.forall_mem_append.2 ⟨hpoint p, List.forall_mem_cons.2 ⟨by decide, ih⟩⟩
      · exact List.cons_ne_nil q qs

@[simp] theorem isText_numeral (x : Float) : IsText (numeral x).toList := Xml.isText_of_isLiteral (literal_numeral x)

@[simp] theorem isText_pointsText (ps : List (Point Float)) : IsText (Markup.pointsText ps).toList :=
  Xml.isText_of_isLiteral (literal_pointsText ps)

@[simp] theorem respaced_numeral (x : Float) : respaced (numeral x) = numeral x :=
  Xml.respaced_eq_self (literal_numeral x)

@[simp] theorem respaced_pointsText (ps : List (Point Float)) : respaced (Markup.pointsText ps) = Markup.pointsText ps :=
  Xml.respaced_eq_self (literal_pointsText ps)

/-- Attributes whose names are written out. -/
theorem wellNamed_of_names (names : List String) {attributes : List (String × String)}
    (hnames : attributes.map (·.1) = names)
    (h : (names.all fun n => isWord n.toList && n != "xmlns") = true ∧ names.Nodup) : Xml.WellNamed attributes where
  words a ha := by
    have hmem : a.1 ∈ names := hnames ▸ List.mem_map_of_mem ha
    have := List.all_eq_true.1 h.1 a.1 hmem
    simpa using this
  distinct := hnames ▸ h.2

/-- An element that may have children. -/
theorem wellNamed_branch {tag : String} {attributes : List (String × String)} {children : List Element}
    (htag : isWord tag.toList = true) (hholds : Markup.holds tag = true) (h : Xml.WellNamed attributes)
    (hchildren : ∀ e ∈ children, e.WellNamed Markup.holds) :
    (Element.node tag attributes children).WellNamed Markup.holds := by
  refine .node htag h ?_ hchildren
  intro hnot
  rw [hholds] at hnot
  cases hnot

/-- An element without children, whose attribute names are written out. -/
theorem wellNamed_leaf {tag : String} {attributes : List (String × String)} (names : List String)
    (htag : isWord tag.toList = true) (hnames : attributes.map (·.1) = names)
    (h : (names.all fun n => isWord n.toList && n != "xmlns") = true ∧ names.Nodup) :
    (Element.leaf tag attributes).WellNamed Markup.holds :=
  .node htag (wellNamed_of_names names hnames h) (fun _ => rfl) (List.forall_mem_nil _)

theorem isText_leaf {tag : String} {attributes : List (String × String)} :
    (Element.leaf tag attributes).IsText ↔ ∀ a ∈ attributes, IsText a.2.toList := by
  rw [Element.leaf, Element.isText_node, and_iff_left (List.forall_mem_nil _)]

@[simp] theorem respaced_leaf (tag : String) (attributes : List (String × String)) :
    (Element.leaf tag attributes).respaced = .leaf tag (Xml.respaceValues attributes) := by
  rw [Element.leaf, Element.respaced, Xml.respacedAll, Element.leaf]

theorem isText_pointAttributes (x y : String) (p : Point Float) :
    ∀ a ∈ Markup.pointAttributes x y p, IsText a.2.toList := by
  simp [Markup.pointAttributes]

theorem isText_boxAttributes (b : Box Float) : ∀ a ∈ Markup.boxAttributes b, IsText a.2.toList := by
  simp [Markup.boxAttributes]

theorem isText_ownAttributes (own : Bool) : ∀ a ∈ Markup.ownAttributes own, IsText a.2.toList := by
  cases own
  · exact List.forall_mem_nil _
  · exact List.forall_mem_singleton.2 (by decide)

@[simp] theorem respaceValues_pointAttributes (x y : String) (p : Point Float) :
    Xml.respaceValues (Markup.pointAttributes x y p) = Markup.pointAttributes x y p := by
  simp [Markup.pointAttributes]

@[simp] theorem respaceValues_boxAttributes (b : Box Float) :
    Xml.respaceValues (Markup.boxAttributes b) = Markup.boxAttributes b := by
  simp [Markup.boxAttributes]

@[simp] theorem respaceValues_ownAttributes (own : Bool) :
    Xml.respaceValues (Markup.ownAttributes own) = Markup.ownAttributes own := by
  cases own
  · rfl
  · decide

theorem wellNamed_ofConnection {c : Connection Float} {e : Element} (h : Markup.ofConnection? c = some e) :
    e.WellNamed Markup.holds := by
  cases c with
  | anchor a =>
    cases h
    exact wellNamed_leaf ["x", "y", "name", "perimeter"] (by decide) rfl (by decide)
  | edge t =>
    obtain ⟨name, kind, own, ps⟩ := t
    cases h
    have htag : isWord (Markup.edgeTag kind).toList = true := by cases kind <;> decide
    cases own
    · exact wellNamed_leaf ["name", "points"] htag rfl (by decide)
    · exact wellNamed_leaf ["name", "owner", "points"] htag rfl (by decide)
  | region t =>
    obtain ⟨name, kind, own, shape, b⟩ := t
    cases h
    cases own
    · exact wellNamed_leaf ["name", "kind", "shape", "x", "y", "w", "h"] (by decide) rfl (by decide)
    · exact wellNamed_leaf ["name", "kind", "owner", "shape", "x", "y", "w", "h"] (by decide) rfl (by decide)
  | unknown tag => cases h

theorem wellNamed_ofStep (s : PathStep Float) : (Markup.ofStep s).WellNamed Markup.holds := by
  cases s with
  | move p | line p => exact wellNamed_leaf ["x", "y"] (by decide) rfl (by decide)
  | quad control stop => exact wellNamed_leaf ["x1", "y1", "x2", "y2"] (by decide) rfl (by decide)
  | close => exact wellNamed_leaf [] (by decide) rfl (by decide)

theorem wellNamed_ofNode {n : Node Float} {e : Element} (h : Markup.ofNode? n = some e) :
    e.WellNamed Markup.holds := by
  cases n with
  | path p =>
    cases h
    refine wellNamed_branch (by decide) (by decide) (wellNamed_of_names [] rfl (by decide)) ?_
    intro e he
    obtain ⟨s, -, rfl⟩ := List.mem_map.1 he
    exact wellNamed_ofStep s
  | rect b | ellipse b =>
    cases h
    exact wellNamed_leaf ["x", "y", "w", "h"] (by decide) rfl (by decide)
  | reference name b =>
    cases h
    exact wellNamed_leaf ["name", "x", "y", "w", "h"] (by decide) rfl (by decide)
  | image src b =>
    cases h
    exact wellNamed_leaf ["src", "x", "y", "w", "h"] (by decide) rfl (by decide)
  | dashed on =>
    cases h
    exact wellNamed_leaf ["dashed"] (by decide) rfl (by decide)
  | dashPattern pattern =>
    cases h
    exact wellNamed_leaf ["pattern"] (by decide) rfl (by decide)
  | strokeWidth width =>
    cases h
    exact wellNamed_leaf ["width"] (by decide) rfl (by decide)
  | strokeColor color | fillColor color =>
    cases h
    exact wellNamed_leaf ["color"] (by decide) rfl (by decide)
  | stroke | fillStroke =>
    cases h
    exact wellNamed_leaf [] (by decide) rfl (by decide)
  | unknown tag => cases h

/-- A document may hold an entry if it may hold its texts. -/
theorem isText_ofConnection {c : Connection Float} {e : Element} (h : Markup.ofConnection? c = some e) :
    e.IsText ↔ ∀ t ∈ c.texts, IsText t.toList := by
  cases c with
  | anchor a =>
    cases h
    have hzero : IsText "0".toList := by decide
    simp only [isText_leaf, List.forall_mem_cons, Connection.texts]
    exact ⟨fun h => ⟨h.2.2.1, nofun⟩, fun h => ⟨isText_numeral a.x, isText_numeral a.y, h.1, hzero, nofun⟩⟩
  | edge t =>
    cases h
    simp only [isText_leaf, List.forall_mem_append, List.forall_mem_cons, isText_pointsText, Connection.texts,
      List.cons_append]
    exact ⟨fun h => ⟨h.1, nofun⟩, fun h => ⟨h.1, isText_ownAttributes t.own, trivial, nofun⟩⟩
  | region t =>
    cases h
    have hword : IsText (Markup.regionWord t.kind).toList := by cases t.kind <;> decide
    simp only [isText_leaf, List.forall_mem_append, List.forall_mem_cons, Connection.texts]
    exact ⟨fun h => ⟨h.1.1.1, h.2.1, nofun⟩, fun h => ⟨⟨⟨h.1, hword, nofun⟩, isText_ownAttributes t.own⟩, h.2.1,
      isText_boxAttributes t.box⟩⟩
  | unknown tag => cases h

theorem isText_ofStep (s : PathStep Float) : (Markup.ofStep s).IsText := by
  cases s with
  | move p | line p => exact isText_leaf.2 (isText_pointAttributes _ _ p)
  | quad control stop =>
    exact isText_leaf.2
      (List.forall_mem_append.2 ⟨isText_pointAttributes _ _ control, isText_pointAttributes _ _ stop⟩)
  | close => exact isText_leaf.2 (List.forall_mem_nil _)

theorem isText_ofNode {n : Node Float} {e : Element} (h : Markup.ofNode? n = some e) :
    e.IsText ↔ ∀ t ∈ n.texts, IsText t.toList := by
  cases n with
  | path p =>
    cases h
    refine iff_of_true (Element.isText_node.2 ⟨List.forall_mem_nil _, ?_⟩) (List.forall_mem_nil _)
    intro e he
    obtain ⟨s, -, rfl⟩ := List.mem_map.1 he
    exact isText_ofStep s
  | rect b | ellipse b =>
    cases h
    exact iff_of_true (isText_leaf.2 (isText_boxAttributes b)) (List.forall_mem_nil _)
  | reference text b | image text b =>
    cases h
    simp only [isText_leaf, List.forall_mem_cons, Node.texts]
    exact ⟨fun h => ⟨h.1, nofun⟩, fun h => ⟨h.1, isText_boxAttributes b⟩⟩
  | dashed on =>
    cases h
    refine iff_of_true (isText_leaf.2 (List.forall_mem_singleton.2 ?_)) (List.forall_mem_nil _)
    cases on <;> decide
  | dashPattern text | strokeColor text | fillColor text =>
    cases h
    simp [isText_leaf, Node.texts]
  | strokeWidth width =>
    cases h
    simp [isText_leaf, Node.texts]
  | stroke | fillStroke =>
    cases h
    exact iff_of_true (isText_leaf.2 (List.forall_mem_nil _)) (List.forall_mem_nil _)
  | unknown tag => cases h

/-- A shape under the name that is read for its name. -/
def ShapeRef.respaced (r : ShapeRef) : ShapeRef := .named (Xml.respaced r.name)

/-- What is read for the element of an entry is the element of another entry. -/
theorem respaced_ofConnection (c : Connection Float) :
    (Markup.ofConnection? c).map Element.respaced = Markup.ofConnection? (c.mapTexts respaced ShapeRef.respaced) := by
  cases c with
  | anchor a =>
    have hzero : respaced "0" = "0" := by decide
    simp [Markup.ofConnection?, Connection.mapTexts, hzero]
  | edge t => simp [Markup.ofConnection?, Connection.mapTexts]
  | region t =>
    have hword : respaced (Markup.regionWord t.kind) = Markup.regionWord t.kind := by cases t.kind <;> decide
    simp [Markup.ofConnection?, Connection.mapTexts, hword, ShapeRef.respaced, ShapeRef.name]
  | unknown tag => rfl

theorem respaced_ofStep (s : PathStep Float) : (Markup.ofStep s).respaced = Markup.ofStep s := by
  cases s <;> simp [Markup.ofStep]

theorem respaced_ofNode (n : Node Float) :
    (Markup.ofNode? n).map Element.respaced = Markup.ofNode? (n.mapTexts respaced) := by
  cases n with
  | path p =>
    have hsteps : (List.map Markup.ofStep p).map Element.respaced = List.map Markup.ofStep p := by
      rw [List.map_map]
      exact List.map_congr_left fun s _ => respaced_ofStep s
    simp [Markup.ofNode?, Node.mapTexts, Element.respaced, Xml.respacedAll_eq_map, hsteps]
  | dashed on =>
    have hword : respaced (if on then "1" else "0") = if on then "1" else "0" := by cases on <;> decide
    simp [Markup.ofNode?, Node.mapTexts, hword]
  | _ => simp [Markup.ofNode?, Node.mapTexts]

/-! ## What is read -/

/-- What the name of a shape means. -/
def ShapeRef.renamed (r : ShapeRef) : ShapeRef := .ofName r.name

/-- When what is written of something can be read, and what is read then. -/
def ReadsBack {T U : Type} (write? : T → Option Element) (read : Element → Interpretation.Result U) (x : T)
    (readable : Prop) (y : U) : Prop :=
  ∃ e, write? x = some e ∧ ∀ z, read e = .ok z ↔ readable ∧ z = y

/-- What is written as one element. The reader is only told the element's tag, so it is not evaluated on the
element. -/
theorem leaf_readsBack {T U : Type} {write? : T → Option Element} {read : Element → Interpretation.Result U} {x : T}
    {y : U} {readable : Prop} {tag : String} {attributes : List (String × String)}
    (hwrite : write? x = some (.leaf tag attributes))
    (hread : ∀ e, e = .leaf tag attributes → e.tag = tag → ∀ z, read e = .ok z ↔ readable ∧ z = y) :
    ReadsBack write? read x readable y :=
  ⟨.leaf tag attributes, hwrite, hread _ rfl rfl⟩

/-- What a mapping makes of a list, one by one. -/
theorem forall₂_of_mapM {ε β γ : Type} {f : β → Except ε γ} {xs : List β} {ys : List γ} (h : xs.mapM f = .ok ys) :
    List.Forall₂ (fun x y => f x = .ok y) xs ys := by
  induction xs generalizing ys with
  | nil =>
    cases h
    exact .nil
  | cons x xs ih =>
    simp only [List.mapM_cons, Xml.bind_eq_ok, pure, Except.pure, Except.ok.injEq] at h
    obtain ⟨y, hy, ys, hys, rfl⟩ := h
    exact .cons hy (ih hys)

/-- Each result of a mapping comes from somewhere. -/
theorem exists_of_mem_mapM {ε β γ : Type} {f : β → Except ε γ} {xs : List β} {ys : List γ}
    (h : xs.mapM f = .ok ys) : ∀ y ∈ ys, ∃ x ∈ xs, f x = .ok y := by
  intro y hy
  obtain ⟨i, rfl⟩ := List.mem_iff_get.1 hy
  obtain ⟨hlength, hget⟩ := List.forall₂_iff_get.1 (forall₂_of_mapM h)
  have hi : i < xs.length := hlength.symm ▸ i.2
  exact ⟨xs.get ⟨i, hi⟩, List.get_mem xs ⟨i, hi⟩, hget i hi i.2⟩

theorem bind_eq_error {ε T U : Type} {x : Except ε T} {f : T → Except ε U} {e : ε} :
    x >>= f = .error e ↔ x = .error e ∨ ∃ a, x = .ok a ∧ f a = .error e := by
  cases x with
  | error e' => simp [bind, Except.bind]
  | ok a => simp [bind, Except.bind]

theorem map_eq_error {ε T U : Type} {f : T → U} {x : Except ε T} {e : ε} (h : x.map f = .error e) : x = .error e := by
  cases x with
  | error e' =>
    cases h
    rfl
  | ok a => cases h

/-- What runs through a list fails at one of its members. -/
theorem exists_error_of_mapM {ε T U : Type} {f : T → Except ε U} {xs : List T} {e : ε} (h : xs.mapM f = .error e) :
    ∃ x ∈ xs, f x = .error e := by
  induction xs with
  | nil => cases h
  | cons x xs ih =>
    rw [List.mapM_cons] at h
    rcases bind_eq_error.1 h with hx | ⟨y, -, h⟩
    · exact ⟨x, List.mem_cons_self, hx⟩
    · rcases bind_eq_error.1 h with hxs | ⟨ys, -, h⟩
      · obtain ⟨x', hx', hfail⟩ := ih hxs
        exact ⟨x', List.mem_cons_of_mem x hx', hfail⟩
      · cases h

/-- Things in a row are written and read one by one. -/
theorem mapM_readsBack {T U : Type} {write? : T → Option Element} {read : Element → Interpretation.Result U}
    {readable : T → Prop} {g : T → U} {xs : List T} (h : ∀ x ∈ xs, ReadsBack write? read x (readable x) (g x))
    (zs : List U) :
    (xs.filterMap write?).mapM read = .ok zs ↔ (∀ x ∈ xs, readable x) ∧ zs = xs.map g := by
  induction xs generalizing zs with
  | nil => exact ⟨fun h => ⟨List.forall_mem_nil _, (Except.ok.inj h).symm⟩, fun h => congrArg Except.ok h.2.symm⟩
  | cons x xs ih =>
    obtain ⟨⟨e, hwrite, hread⟩, hrest⟩ := List.forall_mem_cons.1 h
    rw [List.filterMap_cons_some hwrite, List.mapM_cons, List.forall_mem_cons, List.map_cons]
    simp only [Xml.bind_eq_ok, hread, ih hrest]
    constructor
    · rintro ⟨_, ⟨hx, rfl⟩, _, ⟨hxs, rfl⟩, h⟩
      exact ⟨⟨hx, hxs⟩, (Except.ok.inj h).symm⟩
    · rintro ⟨⟨hx, hxs⟩, rfl⟩
      exact ⟨_, ⟨hx, rfl⟩, _, ⟨hxs, rfl⟩, rfl⟩

theorem ok_eq_ok_iff {T : Type} {readable : Prop} (h : readable) {y z : T} :
    (Except.ok y : Interpretation.Result T) = .ok z ↔ readable ∧ z = y := by
  rw [Except.ok.injEq, and_iff_right h, eq_comm]

theorem map_box_eq_ok {T : Type} {e : Element} {b : Box Float} (hx : e.get? "x" = some (numeral b.x))
    (hy : e.get? "y" = some (numeral b.y)) (hw : e.get? "w" = some (numeral b.w)) (hh : e.get? "h" = some (numeral b.h))
    (f : Box Float → T) (z : T) :
    (Interpretation.box e).map f = .ok z ↔ Interpretable b.numbers [b] ∧ z = f (b.map plain) := by
  rw [Interpretation.map_eq_ok_iff, interpretable_box]
  simp only [Interpretation.box_eq_ok hx hy hw hh]
  constructor
  · rintro ⟨_, ⟨hfinite, hsize, rfl⟩, rfl⟩
    exact ⟨⟨hfinite, hsize⟩, rfl⟩
  · rintro ⟨⟨hfinite, hsize⟩, rfl⟩
    exact ⟨_, ⟨hfinite, hsize, rfl⟩, rfl⟩

theorem anchor_readsBack (a : Anchor Float) :
    ReadsBack Markup.ofConnection? Interpretation.connection (.anchor a) (Interpretable a.numbers [])
      (.anchor (a.map plain)) := by
  refine leaf_readsBack rfl fun e he htag z => ?_
  have hx : e.get? "x" = some (numeral a.x) := by rw [he]; rfl
  have hy : e.get? "y" = some (numeral a.y) := by rw [he]; rfl
  have hname : Interpretation.nameOf e = a.name := by rw [he]; rfl
  rw [interpretable_numbers]
  simp only [Interpretation.connection, htag, Interpretation.anchor, Xml.bind_eq_ok, Interpretation.number_eq_ok hx,
    Interpretation.number_eq_ok hy, hname, Anchor.numbers, List.forall_mem_cons]
  constructor
  · rintro ⟨_, ⟨hfx, rfl⟩, _, ⟨hfy, rfl⟩, h⟩
    exact ⟨⟨hfx, hfy, List.forall_mem_nil _⟩, (Except.ok.inj h).symm⟩
  · rintro ⟨⟨hfx, hfy, -⟩, rfl⟩
    exact ⟨_, ⟨hfx, rfl⟩, _, ⟨hfy, rfl⟩, rfl⟩

theorem edge_readsBack (t : EdgeTrace Float) :
    ReadsBack Markup.ofConnection? Interpretation.connection (.edge t) (Interpretable t.numbers [])
      (.edge (t.map plain)) := by
  obtain ⟨name, kind, own, ps⟩ := t
  refine leaf_readsBack rfl fun e he htag z => ?_
  have hname : Interpretation.nameOf e = name := by rw [he]; rfl
  have hown : Interpretation.isOwn e = own := by rw [he]; cases own <;> rfl
  have hpoints : e.get? "points" = some (Markup.pointsText ps) := by rw [he]; cases own <;> rfl
  have hread : Interpretation.connection e = Interpretation.edgeTrace kind e := by
    unfold Interpretation.connection
    rw [htag]
    cases kind <;> rfl
  rw [interpretable_numbers, hread, Interpretation.edgeTrace, hname, hown]
  simp only [Xml.bind_eq_ok, Interpretation.points_eq_ok hpoints]
  constructor
  · rintro ⟨_, ⟨hfinite, rfl⟩, h⟩
    exact ⟨hfinite, (Except.ok.inj h).symm⟩
  · rintro ⟨hfinite, rfl⟩
    exact ⟨_, ⟨hfinite, rfl⟩, rfl⟩

theorem region_readsBack (t : RegionTrace Float) :
    ReadsBack Markup.ofConnection? Interpretation.connection (.region t) (Interpretable t.numbers [t.box])
      (.region { t.map plain with shape := t.shape.renamed }) := by
  obtain ⟨name, kind, own, shape, b⟩ := t
  refine leaf_readsBack rfl fun e he htag z => ?_
  have hname : Interpretation.nameOf e = name := by rw [he]; rfl
  have hkind : Interpretation.regionKind e = .ok kind := by
    have hget : e.get? "kind" = some (Markup.regionWord kind) := by rw [he]; rfl
    rw [Interpretation.regionKind, hget]
    cases kind <;> rfl
  have hown : Interpretation.isOwn e = own := by rw [he]; cases own <;> rfl
  have hshape : Interpretation.require e "shape" = .ok shape.name :=
    Interpretation.require_eq (by rw [he]; cases own <;> rfl)
  have hread : Interpretation.connection e =
      (Interpretation.box e).map fun b => .region ⟨name, kind, own, shape.renamed, b⟩ := by
    simp only [Interpretation.connection, htag, Interpretation.regionTrace, hname, hkind, hown, hshape]
    cases Interpretation.box e <;> rfl
  rw [hread]
  exact map_box_eq_ok (by rw [he]; cases own <;> rfl) (by rw [he]; cases own <;> rfl) (by rw [he]; cases own <;> rfl)
    (by rw [he]; cases own <;> rfl) _ z

/-- **A connection is read back**, its shape as what the shape's name means. -/
theorem connection_readsBack {c : Connection Float} (hknown : c.isKnown = true) :
    ReadsBack Markup.ofConnection? Interpretation.connection c (Interpretable c.numbers c.boxes)
      ((c.mapTexts id ShapeRef.renamed).map plain) := by
  cases c with
  | anchor a => exact anchor_readsBack a
  | edge t => exact edge_readsBack t
  | region t => exact region_readsBack t
  | unknown tag => cases hknown

theorem map_point_eq_ok {T : Type} {e : Element} {x y : String} {p : Point Float} (hx : e.get? x = some (numeral p.x))
    (hy : e.get? y = some (numeral p.y)) (f : Point Float → T) (z : T) :
    (Interpretation.point e x y).map f = .ok z ↔
      (∀ n ∈ p.numbers, Scalar.isFinite n = true) ∧ z = f (p.map plain) := by
  rw [Interpretation.map_eq_ok_iff]
  simp only [Interpretation.point_eq_ok hx hy]
  constructor
  · rintro ⟨_, ⟨hfinite, rfl⟩, rfl⟩
    exact ⟨hfinite, rfl⟩
  · rintro ⟨hfinite, rfl⟩
    exact ⟨_, ⟨hfinite, rfl⟩, rfl⟩

theorem step_readsBack (s : PathStep Float) :
    ReadsBack (fun s => some (Markup.ofStep s)) Interpretation.step? s (∀ n ∈ s.numbers, Scalar.isFinite n = true)
      (some (s.map plain)) := by
  cases s with
  | move p | line p =>
    refine leaf_readsBack rfl fun e he htag z => ?_
    simp only [Interpretation.step?, htag]
    exact map_point_eq_ok (by rw [he]; rfl) (by rw [he]; rfl) _ z
  | quad control stop =>
    refine leaf_readsBack rfl fun e he htag z => ?_
    have hx₁ : e.get? "x1" = some (numeral control.x) := by rw [he]; rfl
    have hy₁ : e.get? "y1" = some (numeral control.y) := by rw [he]; rfl
    have hx₂ : e.get? "x2" = some (numeral stop.x) := by rw [he]; rfl
    have hy₂ : e.get? "y2" = some (numeral stop.y) := by rw [he]; rfl
    simp only [Interpretation.step?, htag, Xml.bind_eq_ok, Interpretation.point_eq_ok hx₁ hy₁,
      Interpretation.point_eq_ok hx₂ hy₂, PathStep.numbers, List.forall_mem_append]
    constructor
    · rintro ⟨_, ⟨hcontrol, rfl⟩, _, ⟨hstop, rfl⟩, h⟩
      exact ⟨⟨hcontrol, hstop⟩, (Except.ok.inj h).symm⟩
    · rintro ⟨⟨hcontrol, hstop⟩, rfl⟩
      exact ⟨_, ⟨hcontrol, rfl⟩, _, ⟨hstop, rfl⟩, rfl⟩
  | close =>
    refine leaf_readsBack rfl fun e he htag z => ?_
    simp only [Interpretation.step?, htag]
    exact ok_eq_ok_iff (List.forall_mem_nil _)

theorem path_readsBack (p : Path Float) :
    ReadsBack Markup.ofNode? Interpretation.node (.path p) (Interpretable (Node.path p).numbers [])
      (.path (List.map (PathStep.map plain) p)) := by
  refine ⟨_, rfl, fun z => ?_⟩
  have hsteps : ∀ zs, (List.map Markup.ofStep p).mapM Interpretation.step? = .ok zs ↔
      (∀ s ∈ p, ∀ n ∈ s.numbers, Scalar.isFinite n = true) ∧ zs = List.map (fun s => some (PathStep.map plain s)) p := by
    rw [← List.filterMap_eq_map]
    exact mapM_readsBack fun s _ => step_readsBack s
  have htag : (Element.node "path" [] (List.map Markup.ofStep p)).tag = "path" := rfl
  have hread : Interpretation.node (.node "path" [] (List.map Markup.ofStep p)) =
      ((List.map Markup.ofStep p).mapM Interpretation.step?).map fun steps => .path (steps.filterMap id) := by
    simp only [Interpretation.node, htag, Interpretation.path, Element.children]
    cases (List.map Markup.ofStep p).mapM Interpretation.step? <;> rfl
  have hnumbers : Interpretable (Node.path p).numbers [] ↔ ∀ s ∈ p, ∀ n ∈ s.numbers, Scalar.isFinite n = true := by
    rw [interpretable_numbers]
    show (∀ n ∈ List.flatMap PathStep.numbers p, Scalar.isFinite n = true) ↔ _
    simp only [List.mem_flatMap, forall_exists_index, and_imp]
    exact ⟨fun h s hs n hn => h n s hs hn, fun h n s hs hn => h s hs n hn⟩
  have hkept : List.filterMap id (List.map (fun s => some (PathStep.map plain s)) p) = List.map (PathStep.map plain) p := by
    rw [List.filterMap_map]
    exact congrFun (List.filterMap_eq_map (f := PathStep.map plain)) p
  rw [hread, Interpretation.map_eq_ok_iff, hnumbers]
  simp only [hsteps]
  constructor
  · rintro ⟨_, ⟨hfinite, rfl⟩, rfl⟩
    exact ⟨hfinite, by rw [hkept]⟩
  · rintro ⟨hfinite, rfl⟩
    exact ⟨_, ⟨hfinite, rfl⟩, by rw [hkept]⟩

theorem node_readsBack {n : Node Float} (hknown : n.isKnown = true) :
    ReadsBack Markup.ofNode? Interpretation.node n (Interpretable n.numbers n.boxes) (n.map plain) := by
  cases n with
  | path p => exact path_readsBack p
  | rect b | ellipse b =>
    refine leaf_readsBack rfl fun e he htag z => ?_
    simp only [Interpretation.node, htag]
    exact map_box_eq_ok (by rw [he]; rfl) (by rw [he]; rfl) (by rw [he]; rfl) (by rw [he]; rfl) _ z
  | reference name b =>
    refine leaf_readsBack rfl fun e he htag z => ?_
    have hname : Interpretation.require e "name" = .ok name := Interpretation.require_eq (by rw [he]; rfl)
    have hread : Interpretation.node e = (Interpretation.box e).map (.reference name) := by
      simp only [Interpretation.node, htag, hname]
      cases Interpretation.box e <;> rfl
    rw [hread]
    exact map_box_eq_ok (by rw [he]; rfl) (by rw [he]; rfl) (by rw [he]; rfl) (by rw [he]; rfl) _ z
  | image src b =>
    refine leaf_readsBack rfl fun e he htag z => ?_
    have hsrc : Interpretation.require e "src" = .ok src := Interpretation.require_eq (by rw [he]; rfl)
    have hread : Interpretation.node e = (Interpretation.box e).map (.image src) := by
      simp only [Interpretation.node, htag, hsrc]
      cases Interpretation.box e <;> rfl
    rw [hread]
    exact map_box_eq_ok (by rw [he]; rfl) (by rw [he]; rfl) (by rw [he]; rfl) (by rw [he]; rfl) _ z
  | dashed on =>
    refine leaf_readsBack rfl fun e he htag z => ?_
    have hget : e.get? "dashed" = some (if on then "1" else "0") := by rw [he]; rfl
    have hread : Interpretation.node e = .ok (.dashed on) := by
      simp only [Interpretation.node, htag, hget]
      cases on <;> rfl
    rw [hread]
    exact ok_eq_ok_iff ⟨List.forall_mem_nil _, List.forall_mem_nil _⟩
  | dashPattern pattern =>
    refine leaf_readsBack rfl fun e he htag z => ?_
    have hpattern : Interpretation.require e "pattern" = .ok pattern := Interpretation.require_eq (by rw [he]; rfl)
    simp only [Interpretation.node, htag, hpattern]
    exact ok_eq_ok_iff ⟨List.forall_mem_nil _, List.forall_mem_nil _⟩
  | strokeWidth width =>
    refine leaf_readsBack rfl fun e he htag z => ?_
    have hwidth : e.get? "width" = some (numeral width) := by rw [he]; rfl
    simp only [Interpretation.node, htag, Interpretation.map_eq_ok_iff, Interpretation.number_eq_ok hwidth]
    rw [show (Node.strokeWidth width).boxes = [] from rfl, interpretable_numbers]
    constructor
    · rintro ⟨_, ⟨hfinite, rfl⟩, rfl⟩
      exact ⟨List.forall_mem_singleton.2 hfinite, rfl⟩
    · rintro ⟨hfinite, rfl⟩
      exact ⟨_, ⟨hfinite width (List.mem_singleton_self width), rfl⟩, rfl⟩
  | strokeColor color | fillColor color =>
    refine leaf_readsBack rfl fun e he htag z => ?_
    have hcolor : Interpretation.require e "color" = .ok color := Interpretation.require_eq (by rw [he]; rfl)
    simp only [Interpretation.node, htag, hcolor]
    exact ok_eq_ok_iff ⟨List.forall_mem_nil _, List.forall_mem_nil _⟩
  | stroke | fillStroke =>
    refine leaf_readsBack rfl fun e he htag z => ?_
    simp only [Interpretation.node, htag]
    exact ok_eq_ok_iff ⟨List.forall_mem_nil _, List.forall_mem_nil _⟩
  | unknown tag => cases hknown

end StencilKit
