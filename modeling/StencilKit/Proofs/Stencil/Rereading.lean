/-
A stencil that was read can be read again.

Reading has looked at everything that has a meaning: numbers are finite and sizes not negative, every text
is text that a document may hold, and every shape is what its name means (`isSound_of_ofText`). That is all
that the text of a stencil needs to be read. What it is read as is settled by its texts: tabs and line ends,
which an attribute may have denoted by references, are written as they are and come back as spaces
(`literal_reread`).
-/
import StencilKit.Proofs.Drawing.ShapeRef
import StencilKit.Proofs.Stencil.RoundTrip

namespace StencilKit

open Binary64 (plain checkFinite_eq_ok)
open Xml (Element IsText bind_eq_ok respaced isLiteral isLiteral_of_mem_respaced)

theorem Xml.Element.IsText.get? {e : Element} (he : e.IsText) {name value : String} (h : e.get? name = some value) :
    Xml.IsText value.toList := by
  cases e with
  | node tag attributes children =>
    obtain ⟨l₁, l₂, rfl, -⟩ := List.lookup_eq_some_iff.1 h
    exact (Element.isText_node.1 he).1 (name, value) (List.mem_append_right l₁ List.mem_cons_self)

theorem Xml.Element.IsText.children {e : Element} (he : e.IsText) : ∀ d ∈ e.children, d.IsText := by
  cases e
  exact (Element.isText_node.1 he).2

theorem Xml.isText_of_mem_entries {name : String} {es : List Element} (hes : ∀ e ∈ es, e.IsText) :
    ∀ d ∈ Xml.entries name es, d.IsText := by
  intro d hd
  obtain ⟨e, he, hd⟩ := List.mem_flatMap.1 hd
  exact (hes e (List.mem_filter.1 he).1).children d hd

/-- What reading sees to, of the things that an entry holds. -/
structure Legible (numbers : List Float) (boxes : List (Box Float)) (shapes : List ShapeRef)
    (texts : List String) : Prop where
  interpretable : Interpretable numbers boxes
  named : ∀ r ∈ shapes, ShapeRef.ofName r.name = r
  texts : ∀ t ∈ texts, IsText t.toList

/-! ## Reading the parts of an entry -/

namespace Interpretation

variable {e : Element}

theorem isText_of_require (he : e.IsText) {name value : String} (h : require e name = .ok value) :
    IsText value.toList := by
  unfold require at h
  split at h
  · rename_i hget
    cases h
    exact he.get? hget
  · cases h

theorem isText_nameOf (he : e.IsText) : IsText (nameOf e).toList := by
  unfold nameOf
  cases h : e.get? "name" with
  | none => exact Xml.isText_nil
  | some value => exact he.get? h

theorem isFinite_of_number {name : String} {x : Float} (h : number e name = .ok x) : Scalar.isFinite x = true := by
  simp only [number, bind_eq_ok] at h
  obtain ⟨raw, -, h⟩ := h
  split at h
  · cases h
  · obtain ⟨hfinite, rfl⟩ := checkFinite_eq_ok.1 (mapError_eq_ok.1 h)
    exact hfinite

theorem finite_of_point {x y : String} {p : Point Float} (h : point e x y = .ok p) :
    ∀ a ∈ p.numbers, Scalar.isFinite a = true := by
  simp only [point, bind_eq_ok] at h
  obtain ⟨px, hx, py, hy, h⟩ := h
  cases h
  exact List.forall_mem_cons.2 ⟨isFinite_of_number hx, List.forall_mem_singleton.2 (isFinite_of_number hy)⟩

theorem interpretable_of_box {b : Box Float} (h : box e = .ok b) : Interpretable b.numbers [b] := by
  simp only [box, bind_eq_ok] at h
  obtain ⟨w, hw, hh, hhh, _, hsw, _, hsh, x, hx, y, hy, h⟩ := h
  cases h
  refine interpretable_box.2 ⟨?_, (extent_eq_ok.1 hsw).2, (extent_eq_ok.1 hsh).2⟩
  exact List.forall_mem_cons.2 ⟨isFinite_of_number hx, List.forall_mem_cons.2 ⟨isFinite_of_number hy,
    List.forall_mem_cons.2 ⟨isFinite_of_number hw, List.forall_mem_singleton.2 (isFinite_of_number hhh)⟩⟩⟩

theorem finite_of_pair? {word : List Char} {p : Point Float} (h : pair? word = some p) :
    ∀ a ∈ p.numbers, Scalar.isFinite a = true := by
  simp only [pair?, Option.bind_eq_bind, Option.bind_eq_some_iff] at h
  obtain ⟨_, -, x, -, y, -, h⟩ := h
  split at h
  · rename_i hfinite
    cases h
    obtain ⟨hx, hy⟩ := Bool.and_eq_true_iff.1 hfinite
    exact List.forall_mem_cons.2 ⟨hx, List.forall_mem_singleton.2 hy⟩
  · cases h

theorem finite_of_pairs {words : List (List Char)} {ps : List (Point Float)} (h : words.mapM pair? = some ps) :
    ∀ a ∈ ps.flatMap Point.numbers, Scalar.isFinite a = true := by
  induction words generalizing ps with
  | nil =>
    cases h
    exact List.forall_mem_nil _
  | cons word words ih =>
    simp only [List.mapM_cons, Option.bind_eq_bind, Option.bind_eq_some_iff] at h
    obtain ⟨p, hp, qs, hqs, h⟩ := h
    cases h
    rw [List.flatMap_cons, List.forall_mem_append]
    exact ⟨finite_of_pair? hp, ih hqs⟩

theorem finite_of_points {ps : List (Point Float)} (h : points e = .ok ps) :
    ∀ a ∈ ps.flatMap Point.numbers, Scalar.isFinite a = true := by
  simp only [points, bind_eq_ok] at h
  obtain ⟨raw, -, h⟩ := h
  split at h
  · rename_i qs hqs
    cases h
    exact finite_of_pairs hqs
  · cases h

/-! ## Reading entries -/

theorem interpretable_of_edgeTrace {kind : EdgeKind} {c : Connection Float} (h : edgeTrace kind e = .ok c) :
    Interpretable c.numbers c.boxes := by
  simp only [edgeTrace, bind_eq_ok] at h
  obtain ⟨ps, hps, h⟩ := h
  cases h
  exact interpretable_numbers.2 (finite_of_points hps)

/-- A connection that was read has finite numbers and no negative size. -/
theorem interpretable_of_connection {c : Connection Float} (h : connection e = .ok c) :
    Interpretable c.numbers c.boxes := by
  unfold connection at h
  split at h
  · simp only [anchor, bind_eq_ok] at h
    obtain ⟨x, hx, y, hy, h⟩ := h
    cases h
    exact interpretable_numbers.2
      (List.forall_mem_cons.2 ⟨isFinite_of_number hx, List.forall_mem_singleton.2 (isFinite_of_number hy)⟩)
  · exact interpretable_of_edgeTrace h
  · exact interpretable_of_edgeTrace h
  · simp only [regionTrace, bind_eq_ok] at h
    obtain ⟨kind, -, shape, -, b, hb, h⟩ := h
    cases h
    exact interpretable_of_box hb
  · cases h
    exact interpretable_numbers.2 (List.forall_mem_nil _)

theorem legible_of_edgeTrace (he : e.IsText) {kind : EdgeKind} {c : Connection Float} (h : edgeTrace kind e = .ok c) :
    Legible c.numbers c.boxes c.shapes c.texts := by
  have hinterpretable := interpretable_of_edgeTrace h
  simp only [edgeTrace, bind_eq_ok] at h
  obtain ⟨ps, -, h⟩ := h
  cases h
  exact ⟨hinterpretable, List.forall_mem_nil _, List.forall_mem_singleton.2 (isText_nameOf he)⟩

/-- **A connection that was read is legible**, unless its meaning is unknown. -/
theorem legible_of_connection (he : e.IsText) {c : Connection Float} (h : connection e = .ok c)
    (hknown : c.isKnown = true) : Legible c.numbers c.boxes c.shapes c.texts := by
  have hinterpretable := interpretable_of_connection h
  unfold connection at h
  split at h
  · simp only [anchor, bind_eq_ok] at h
    obtain ⟨x, -, y, -, h⟩ := h
    cases h
    exact ⟨hinterpretable, List.forall_mem_nil _, List.forall_mem_singleton.2 (isText_nameOf he)⟩
  · exact legible_of_edgeTrace he h
  · exact legible_of_edgeTrace he h
  · simp only [regionTrace, bind_eq_ok] at h
    obtain ⟨kind, -, shape, hshape, b, -, h⟩ := h
    cases h
    refine ⟨hinterpretable, List.forall_mem_singleton.2 (ShapeRef.ofName_name_ofName shape), ?_⟩
    refine List.forall_mem_cons.2 ⟨isText_nameOf he, List.forall_mem_singleton.2 ?_⟩
    exact ShapeRef.forall_mem_name_ofName (isText_of_require he hshape) (by decide) (by decide)
  · cases h
    cases hknown

theorem finite_of_step? {s? : Option (PathStep Float)} (h : step? e = .ok s?) :
    ∀ s ∈ s?, ∀ a ∈ s.numbers, Scalar.isFinite a = true := by
  rintro s rfl
  unfold step? at h
  split at h
  · obtain ⟨p, hp, h⟩ := map_eq_ok_iff.1 h
    cases h
    exact finite_of_point hp
  · obtain ⟨p, hp, h⟩ := map_eq_ok_iff.1 h
    cases h
    exact finite_of_point hp
  · simp only [bind_eq_ok] at h
    obtain ⟨control, hcontrol, stop, hstop, h⟩ := h
    cases h
    exact List.forall_mem_append.2 ⟨finite_of_point hcontrol, finite_of_point hstop⟩
  · cases h
    exact List.forall_mem_nil _
  · cases h

theorem finite_of_path {p : Path Float} (h : path e = .ok p) :
    ∀ a ∈ (Node.path p).numbers, Scalar.isFinite a = true := by
  simp only [path, bind_eq_ok] at h
  obtain ⟨steps, hsteps, h⟩ := h
  cases h
  intro a ha
  obtain ⟨s, hs, ha⟩ := List.mem_flatMap.1 ha
  obtain ⟨s?, hs?, hs⟩ := List.mem_filterMap.1 hs
  obtain ⟨d, -, hd⟩ := exists_of_mem_mapM hsteps s? hs?
  exact finite_of_step? hd s hs a ha

/-- A node of the foreground that was read has finite numbers and no negative size. -/
theorem interpretable_of_node {n : Node Float} (h : node e = .ok n) : Interpretable n.numbers n.boxes := by
  have hbox : ∀ {f : Box Float → Node Float}, (∀ b, (f b).numbers = b.numbers ∧ (f b).boxes = [b]) →
      (box e).map f = .ok n → Interpretable n.numbers n.boxes := by
    intro f hf hmap
    obtain ⟨b, hb, rfl⟩ := map_eq_ok_iff.1 hmap
    obtain ⟨hnumbers, hboxes⟩ := hf b
    rw [hnumbers, hboxes]
    exact interpretable_of_box hb
  have hnone : Interpretable [] [] := interpretable_numbers.2 (List.forall_mem_nil _)
  unfold node at h
  split at h
  · obtain ⟨p, hp, rfl⟩ := map_eq_ok_iff.1 h
    exact interpretable_numbers.2 (finite_of_path hp)
  · exact hbox (fun _ => ⟨rfl, rfl⟩) h
  · exact hbox (fun _ => ⟨rfl, rfl⟩) h
  · exact hbox (fun _ => ⟨rfl, rfl⟩) h
  · simp only [bind_eq_ok] at h
    obtain ⟨name, -, b, hb, h⟩ := h
    cases h
    exact interpretable_of_box hb
  · simp only [bind_eq_ok] at h
    obtain ⟨src, -, b, hb, h⟩ := h
    cases h
    exact interpretable_of_box hb
  · cases h
    exact hnone
  · obtain ⟨pattern, -, rfl⟩ := map_eq_ok_iff.1 h
    exact hnone
  · obtain ⟨width, hwidth, rfl⟩ := map_eq_ok_iff.1 h
    exact interpretable_numbers.2 (List.forall_mem_singleton.2 (isFinite_of_number hwidth))
  · obtain ⟨color, -, rfl⟩ := map_eq_ok_iff.1 h
    exact hnone
  · obtain ⟨color, -, rfl⟩ := map_eq_ok_iff.1 h
    exact hnone
  · cases h
    exact hnone
  · cases h
    exact hnone
  · cases h
    exact hnone

theorem isText_of_map {name : String} {f : String → Node Float} {n : Node Float} (he : e.IsText)
    (hf : ∀ text, (f text).texts = [text]) (h : (require e name).map f = .ok n) :
    ∀ t ∈ n.texts, IsText t.toList := by
  obtain ⟨text, htext, rfl⟩ := map_eq_ok_iff.1 h
  rw [hf text]
  exact List.forall_mem_singleton.2 (isText_of_require he htext)

/-- The texts of a node that was read are texts of its element, unless its meaning is unknown. -/
theorem isText_of_node (he : e.IsText) {n : Node Float} (h : node e = .ok n) (hknown : n.isKnown = true) :
    ∀ t ∈ n.texts, IsText t.toList := by
  have hnone : ∀ {T : Type} {x : Result T} {f : T → Node Float}, (∀ a, (f a).texts = []) → x.map f = .ok n →
      ∀ t ∈ n.texts, IsText t.toList := by
    intro T x f hf hmap
    obtain ⟨a, -, rfl⟩ := map_eq_ok_iff.1 hmap
    rw [hf a]
    exact List.forall_mem_nil _
  unfold node at h
  split at h
  · exact hnone (fun _ => rfl) h
  · exact hnone (fun _ => rfl) h
  · exact hnone (fun _ => rfl) h
  · exact hnone (fun _ => rfl) h
  · simp only [bind_eq_ok] at h
    obtain ⟨name, hname, b, -, h⟩ := h
    cases h
    exact List.forall_mem_singleton.2 (isText_of_require he hname)
  · simp only [bind_eq_ok] at h
    obtain ⟨src, hsrc, b, -, h⟩ := h
    cases h
    exact List.forall_mem_singleton.2 (isText_of_require he hsrc)
  · cases h
    exact List.forall_mem_nil _
  · exact isText_of_map he (fun _ => rfl) h
  · exact hnone (fun _ => rfl) h
  · exact isText_of_map he (fun _ => rfl) h
  · exact isText_of_map he (fun _ => rfl) h
  · cases h
    exact List.forall_mem_nil _
  · cases h
    exact List.forall_mem_nil _
  · cases h
    cases hknown

/-- **A node of the foreground that was read is legible**, unless its meaning is unknown. -/
theorem legible_of_node (he : e.IsText) {n : Node Float} (h : node e = .ok n) (hknown : n.isKnown = true) :
    Legible n.numbers n.boxes [] n.texts :=
  ⟨interpretable_of_node h, List.forall_mem_nil _, isText_of_node he h hknown⟩

end Interpretation

/-! ## Reading a stencil -/

namespace Stencil

variable {s : Stencil Float}

/-- What reading sees to, entry by entry. -/
structure IsSound (s : Stencil Float) : Prop where
  w : Scalar.isFinite s.w = true
  h : Scalar.isFinite s.h = true
  strokeWidth : IsText s.strokeWidth.toList
  connections : ∀ c ∈ s.connections, c.isKnown = true → Legible c.numbers c.boxes c.shapes c.texts
  foreground : ∀ n ∈ s.foreground, n.isKnown = true → Legible n.numbers n.boxes [] n.texts

theorem isSound_of_ofElement {e : Element} (he : e.IsText) (h : Stencil.ofElement e = .ok s) : s.IsSound := by
  obtain ⟨-, w, height, cs, ns, hw, hh, hcs, hns, rfl⟩ := ofElement_eq_ok.1 h
  refine ⟨Interpretation.isFinite_of_number hw, Interpretation.isFinite_of_number hh, ?_, fun c hc => ?_,
    fun n hn => ?_⟩
  · cases hstroke : e.get? "strokewidth" with
    | none => exact (by decide : IsText "1".toList)
    | some value => exact he.get? hstroke
  · obtain ⟨d, hd, hread⟩ := exists_of_mem_mapM hcs c hc
    exact Interpretation.legible_of_connection (Xml.isText_of_mem_entries he.children d hd) hread
  · obtain ⟨d, hd, hread⟩ := exists_of_mem_mapM hns n hn
    exact Interpretation.legible_of_node (Xml.isText_of_mem_entries he.children d hd) hread

/-- **Reading sees to all that writing needs.** -/
theorem isSound_of_ofText {text : String} (h : Stencil.ofText text = .ok s) : s.IsSound := by
  simp only [ofText] at h
  split at h
  · rename_i e hread
    exact isSound_of_ofElement (Xml.isText_of_readDocument hread).2 h
  · cases h

theorem IsSound.isReadable (hs : s.IsSound) : s.known.IsReadable := by
  have hc : ∀ c ∈ s.known.connections, Legible c.numbers c.boxes c.shapes c.texts := fun c hc =>
    hs.connections c (List.mem_filter.1 hc).1 (List.mem_filter.1 hc).2
  have hn : ∀ n ∈ s.known.foreground, Legible n.numbers n.boxes [] n.texts := fun n hn =>
    hs.foreground n (List.mem_filter.1 hn).1 (List.mem_filter.1 hn).2
  refine ⟨interpretable_iff.2 ⟨⟨hs.w, hs.h⟩, fun c hmem => (hc c hmem).interpretable,
    fun n hmem => (hn n hmem).interpretable⟩, ?_⟩
  refine List.forall_mem_cons.2 ⟨hs.strokeWidth, List.forall_mem_append.2 ⟨fun t ht => ?_, fun t ht => ?_⟩⟩
  · obtain ⟨c, hmem, ht⟩ := List.mem_flatMap.1 ht
    exact (hc c hmem).texts t ht
  · obtain ⟨n, hmem, ht⟩ := List.mem_flatMap.1 ht
    exact (hn n hmem).texts t ht

theorem IsSound.named (hs : s.IsSound) : ∀ r ∈ s.known.shapes, ShapeRef.ofName r.name = r := by
  intro r hr
  obtain ⟨c, hc, hr⟩ := List.mem_flatMap.1 hr
  obtain ⟨hc, hknown⟩ := List.mem_filter.1 hc
  exact (hs.connections c hc hknown).named r hr

end Stencil

/-! ## What comes of the texts -/

theorem flatMap_eq_of_beq {T U : Type} [BEq T] {g : T → List U} (hg : ∀ x y : T, (x == y) = true → g x = g y)
    {xs ys : List T} (h : (xs == ys) = true) : xs.flatMap g = ys.flatMap g := by
  induction xs generalizing ys with
  | nil =>
    cases ys with
    | nil => rfl
    | cons y ys => cases h
  | cons x xs ih =>
    cases ys with
    | nil => cases h
    | cons y ys =>
      rw [List.cons_beq_cons, Bool.and_eq_true] at h
      rw [List.flatMap_cons, List.flatMap_cons, hg x y h.1, ih h.2]

section

variable {α β : Type} (f : α → β)

@[simp] theorem Connection.texts_map (c : Connection α) : (c.map f).texts = c.texts := by
  cases c <;> rfl

@[simp] theorem Node.texts_map (n : Node α) : (n.map f).texts = n.texts := by
  cases n <;> rfl

@[simp] theorem Stencil.texts_map (s : Stencil α) : (s.map f).texts = s.texts := by
  simp [texts, Stencil.map, List.flatMap_map]

end

section

variable {α : Type} [BEq α]

theorem Connection.texts_eq_of_beq (c d : Connection α) (h : (c == d) = true) : c.texts = d.texts := by
  cases c with
  | anchor a =>
    cases d <;> try cases h
    rename_i b
    have hbeq : (a.x == b.x && (a.y == b.y && a.name == b.name)) = true := h
    simp only [Bool.and_eq_true, beq_iff_eq] at hbeq
    rw [texts, texts, hbeq.2.2]
  | edge t =>
    cases d <;> try cases h
    rename_i u
    have hbeq : (t.name == u.name && (t.kind == u.kind && (t.own == u.own && t.points == u.points))) = true := h
    simp only [Bool.and_eq_true, beq_iff_eq] at hbeq
    rw [texts, texts, hbeq.1]
  | region t =>
    cases d <;> try cases h
    rename_i u
    have hbeq : (t.name == u.name && (t.kind == u.kind && (t.own == u.own && (t.shape == u.shape &&
      t.box == u.box)))) = true := h
    simp only [Bool.and_eq_true, beq_iff_eq] at hbeq
    rw [texts, texts, hbeq.1, hbeq.2.2.2.1]
  | unknown tag =>
    cases d <;> try cases h
    exact congrArg (fun t => [t]) (eq_of_beq h)

theorem Node.texts_eq_of_beq (n m : Node α) (h : (n == m) = true) : n.texts = m.texts := by
  cases n <;> cases m <;> try cases h
  case reference.reference name b name' b' =>
    have hbeq : (name == name' && b == b') = true := h
    rw [texts, texts, eq_of_beq (Bool.and_eq_true_iff.1 hbeq).1]
  case image.image src b src' b' =>
    have hbeq : (src == src' && b == b') = true := h
    rw [texts, texts, eq_of_beq (Bool.and_eq_true_iff.1 hbeq).1]
  case dashPattern.dashPattern | strokeColor.strokeColor | fillColor.fillColor | unknown.unknown =>
    exact congrArg (fun t => [t]) (eq_of_beq h)
  all_goals rfl

/-- Equal stencils have the same texts. -/
theorem Stencil.texts_eq_of_beq {s t : Stencil α} (h : (s == t) = true) : s.texts = t.texts := by
  have hbeq : (s.w == t.w && (s.h == t.h && (s.fixed == t.fixed && (s.strokeWidth == t.strokeWidth &&
    (s.connections == t.connections && s.foreground == t.foreground))))) = true := h
  simp only [Bool.and_eq_true] at hbeq
  obtain ⟨-, -, -, hstroke, hconnections, hforeground⟩ := hbeq
  rw [texts, texts, eq_of_beq hstroke, flatMap_eq_of_beq Connection.texts_eq_of_beq hconnections,
    flatMap_eq_of_beq Node.texts_eq_of_beq hforeground]

end

/-- Texts that were read where they stand as they are have no tabs and line ends, and so have the names of the
shapes that are meant by them. -/
theorem Connection.literal_mapTexts {c : Connection Float} (hknown : c.isKnown = true)
    (htexts : ∀ t ∈ c.texts, IsText t.toList) :
    ∀ t ∈ (c.mapTexts respaced ShapeRef.reread).texts, ∀ ch ∈ t.toList, isLiteral ch = true := by
  cases c with
  | anchor a =>
    refine List.forall_mem_singleton.2 (isLiteral_of_mem_respaced ?_)
    exact htexts a.name (List.mem_singleton_self _)
  | edge t =>
    refine List.forall_mem_singleton.2 (isLiteral_of_mem_respaced ?_)
    exact htexts t.name (List.mem_singleton_self _)
  | region t =>
    obtain ⟨hname, hshape⟩ := List.forall_mem_cons.1 htexts
    have hshapeName : ∀ ch ∈ (ShapeRef.reread t.shape).name.toList, isLiteral ch = true := by
      have hread := isLiteral_of_mem_respaced (hshape t.shape.name (List.mem_singleton_self _))
      exact ShapeRef.forall_mem_name_ofName hread (by decide) (by decide)
    rw [mapTexts, texts, List.forall_mem_cons, List.forall_mem_singleton]
    dsimp only
    exact ⟨isLiteral_of_mem_respaced hname, hshapeName⟩
  | unknown tag => cases hknown

theorem Node.literal_mapTexts {n : Node Float} (hknown : n.isKnown = true) (htexts : ∀ t ∈ n.texts, IsText t.toList) :
    ∀ t ∈ (n.mapTexts respaced).texts, ∀ ch ∈ t.toList, isLiteral ch = true := by
  cases n with
  | reference text b | image text b =>
    exact List.forall_mem_singleton.2 (isLiteral_of_mem_respaced (htexts text (List.mem_singleton_self _)))
  | dashPattern text | strokeColor text | fillColor text =>
    exact List.forall_mem_singleton.2 (isLiteral_of_mem_respaced (htexts text (List.mem_singleton_self _)))
  | unknown tag => cases hknown
  | path | rect | ellipse | dashed | strokeWidth | stroke | fillStroke => exact List.forall_mem_nil _

namespace Stencil

variable {s : Stencil Float}

/-- What was read where it stands as it is has no tabs and line ends. -/
theorem literal_reread (hs : s.known.IsReadable) : ∀ t ∈ s.reread.texts, ∀ c ∈ t.toList, isLiteral c = true := by
  obtain ⟨hstroke, htexts⟩ := List.forall_mem_cons.1 hs.texts
  obtain ⟨hcs, hns⟩ := List.forall_mem_append.1 htexts
  rw [reread, texts_map]
  refine List.forall_mem_cons.2 ⟨isLiteral_of_mem_respaced hstroke, List.forall_mem_append.2 ⟨?_, ?_⟩⟩
  · intro t ht
    obtain ⟨d, hd, ht⟩ := List.mem_flatMap.1 ht
    obtain ⟨c, hc, rfl⟩ := List.mem_map.1 hd
    exact Connection.literal_mapTexts (List.mem_filter.1 hc).2 (fun u hu => hcs u (List.mem_flatMap.2 ⟨c, hc, hu⟩)) t ht
  · intro t ht
    obtain ⟨m, hm, ht⟩ := List.mem_flatMap.1 ht
    obtain ⟨n, hn, rfl⟩ := List.mem_map.1 hm
    exact Node.literal_mapTexts (List.mem_filter.1 hn).2 (fun u hu => hns u (List.mem_flatMap.2 ⟨n, hn, hu⟩)) t ht

/-- **A stencil that was read can be written and read again**, and it is the same again, apart from its
entries of unknown meaning, unless a text of it has a tab or a line end. -/
theorem ofText_text_of_ofText {text : String} (h : Stencil.ofText text = .ok s) :
    Stencil.ofText s.text = .ok s.reread ∧
      ((s.known == s.reread) = true ↔ ∀ t ∈ s.known.texts, ∀ c ∈ t.toList, ¬ (c = '\n' ∨ c = '\r' ∨ c = '\t')) := by
  have hsound := isSound_of_ofText h
  have hreadable := hsound.isReadable
  refine ⟨ofText_text_eq_ok.2 ⟨hreadable, rfl⟩, fun hsame t ht c hc => ?_, fun hplain => ?_⟩
  · rw [texts_eq_of_beq hsame] at ht
    exact (Xml.isLiteral_iff.1 (literal_reread hreadable t ht c hc)).2
  · have hwritable : s.known.IsWritable :=
      ⟨hreadable.interpretable.finite, hreadable.interpretable.sizes, hsound.named,
        fun t ht c hc => Xml.isLiteral_iff.2 ⟨hreadable.texts t ht c hc, hplain t ht c hc⟩⟩
    have hreread : s.reread = s.known.map plain := by
      rw [← hwritable.reread_eq (isKnown_known s), reread, reread, known_eq_self (isKnown_known s)]
    rw [hreread]
    exact beq_map_plain hwritable

/-- A color with a tab in it, which the text denotes by a reference. -/
def tabbed : Stencil Float :=
  { w := 1, h := 1, fixed := false, strokeWidth := "1", foreground := [.strokeColor "a\tb"] }

def tabbedText : String :=
  "<shape w=\x221\x22 h=\x221\x22><foreground><strokecolor color=\x22a&#9;b\x22/></foreground></shape>"

theorem ofText_tabbedText : Stencil.ofText tabbedText = .ok tabbed := by
  have hread : (Stencil.ofText tabbedText).toOption = some tabbed := by decide +kernel
  cases h : Stencil.ofText tabbedText with
  | error f =>
    rw [h] at hread
    cases hread
  | ok s =>
    rw [h] at hread
    exact congrArg Except.ok (Option.some.inj hread)

theorem ofText_text_of_ofText_tabbed :
    Stencil.ofText tabbedText = .ok tabbed ∧ Stencil.ofText tabbed.text = .ok tabbed.reread ∧
      ((tabbed.known == tabbed.reread) = true ↔
        ∀ t ∈ tabbed.known.texts, ∀ c ∈ t.toList, ¬ (c = '\n' ∨ c = '\r' ∨ c = '\t')) :=
  ⟨ofText_tabbedText, ofText_text_of_ofText ofText_tabbedText⟩

/-- **Writing does not keep all that reading accepts**: the tab is written as it is, and read as a space. -/
theorem not_reread_of_tab :
    ¬ ∀ (text : String) (s : Stencil Float), Stencil.ofText text = .ok s →
      ∃ t, Stencil.ofText s.text = .ok t ∧ (s.known == t) = true := by
  intro hall
  obtain ⟨t, ht, hsame⟩ := hall tabbedText tabbed ofText_tabbedText
  have hchanged : (tabbed.known == tabbed.reread) = false := by decide +kernel
  rw [(ofText_text_eq_ok.1 ht).2, hchanged] at hsame
  cases hsame

end Stencil

end StencilKit
