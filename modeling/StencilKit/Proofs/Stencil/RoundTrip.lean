/-
A stencil is read back from its text.

The tree that is written for a stencil is read as the stencil, entry by entry and in order, with its
numbers without the signs of zeros (`ofElement_toElement_eq_ok`); and the text of that tree is read as the
tree, but for tabs and line ends in its texts. So it is known of every stencil whether its text can be
read, and as what (`ofText_text_eq_ok`). If its texts have no tabs and line ends and its shapes are named as
they are read, then nothing but the sign of a zero is lost, and that does not count for equality.
-/
import StencilKit.Proofs.Stencil.Sections
import StencilKit.Proofs.Xml.Characters

namespace StencilKit

open Binary64 (plain)
open Decimal (numeral)
open Xml (Element isLiteral respaced IsText)

namespace Connection

variable {α : Type}

@[simp] theorem numbers_mapTexts (f : String → String) (g : ShapeRef → ShapeRef) (c : Connection α) :
    (c.mapTexts f g).numbers = c.numbers := by
  cases c <;> rfl

@[simp] theorem boxes_mapTexts (f : String → String) (g : ShapeRef → ShapeRef) (c : Connection α) :
    (c.mapTexts f g).boxes = c.boxes := by
  cases c <;> rfl

@[simp] theorem isKnown_mapTexts (f : String → String) (g : ShapeRef → ShapeRef) (c : Connection α) :
    (c.mapTexts f g).isKnown = c.isKnown := by
  cases c <;> rfl

@[simp] theorem mapTexts_mapTexts (f f' : String → String) (g g' : ShapeRef → ShapeRef) (c : Connection α) :
    (c.mapTexts f g).mapTexts f' g' = c.mapTexts (f' ∘ f) (g' ∘ g) := by
  cases c <;> rfl

theorem mapTexts_eq_self {f : String → String} {g : ShapeRef → ShapeRef} {c : Connection α}
    (hf : ∀ t ∈ c.texts, f t = t) (hg : ∀ r ∈ c.shapes, g r = r) (hknown : c.isKnown = true) : c.mapTexts f g = c := by
  cases c with
  | anchor a => rw [mapTexts, hf a.name (List.mem_singleton_self _)]
  | edge t => rw [mapTexts, hf t.name (List.mem_singleton_self _)]
  | region t => rw [mapTexts, hf t.name List.mem_cons_self, hg t.shape (List.mem_singleton_self _)]
  | unknown tag => cases hknown

end Connection

namespace Node

variable {α : Type}

@[simp] theorem numbers_mapTexts (f : String → String) (n : Node α) : (n.mapTexts f).numbers = n.numbers := by
  cases n <;> rfl

@[simp] theorem boxes_mapTexts (f : String → String) (n : Node α) : (n.mapTexts f).boxes = n.boxes := by
  cases n <;> rfl

@[simp] theorem isKnown_mapTexts (f : String → String) (n : Node α) : (n.mapTexts f).isKnown = n.isKnown := by
  cases n <;> rfl

@[simp] theorem mapTexts_mapTexts (f f' : String → String) (n : Node α) :
    (n.mapTexts f).mapTexts f' = n.mapTexts (f' ∘ f) := by
  cases n <;> rfl

theorem mapTexts_eq_self {f : String → String} {n : Node α} (hf : ∀ t ∈ n.texts, f t = t) : n.mapTexts f = n := by
  cases n <;> simp_all [mapTexts, texts]

end Node

/-- What a shape is read as from its name. -/
def ShapeRef.reread (r : ShapeRef) : ShapeRef := .ofName (Xml.respaced r.name)

theorem ShapeRef.renamed_comp_respaced : ShapeRef.renamed ∘ ShapeRef.respaced = ShapeRef.reread := by
  funext r
  rw [Function.comp_apply, renamed, respaced, name, reread]

namespace Stencil

/-- Whether the text of a stencil keeps it. -/
def IsWritable (s : Stencil Float) : Prop := Writable s.numbers s.boxes s.shapes s.texts

instance (s : Stencil Float) : Decidable s.IsWritable :=
  inferInstanceAs (Decidable (Writable s.numbers s.boxes s.shapes s.texts))

/-- Whether the text of a stencil can be read. -/
structure IsReadable (s : Stencil Float) : Prop where
  interpretable : Interpretable s.numbers s.boxes
  texts : ∀ t ∈ s.texts, IsText t.toList

instance (s : Stencil Float) : Decidable s.IsReadable :=
  decidable_of_iff (Interpretable s.numbers s.boxes ∧ ∀ t ∈ s.texts, IsText t.toList)
    ⟨fun ⟨interpretable, texts⟩ => ⟨interpretable, texts⟩, fun ⟨interpretable, texts⟩ => ⟨interpretable, texts⟩⟩

section

variable {α : Type}

/-- A stencil without the entries of unknown meaning. -/
def known (s : Stencil α) : Stencil α :=
  { s with connections := s.connections.filter (·.isKnown), foreground := s.foreground.filter (·.isKnown) }

/-- A stencil with other texts, and other shapes. -/
def mapTexts (f : String → String) (g : ShapeRef → ShapeRef) (s : Stencil α) : Stencil α :=
  { s with
    strokeWidth := f s.strokeWidth
    connections := s.connections.map (·.mapTexts f g)
    foreground := s.foreground.map (·.mapTexts f) }

@[simp] theorem isKnown_known (s : Stencil α) : s.known.isKnown = true := by
  simp [isKnown, known]

theorem known_eq_self {s : Stencil α} (h : s.isKnown = true) : s.known = s := by
  obtain ⟨hconnections, hforeground⟩ := Bool.and_eq_true_iff.1 h
  rw [known, List.filter_eq_self.2 (List.all_eq_true.1 hconnections), List.filter_eq_self.2 (List.all_eq_true.1 hforeground)]

@[simp] theorem numbers_mapTexts (f : String → String) (g : ShapeRef → ShapeRef) (s : Stencil α) :
    (s.mapTexts f g).numbers = s.numbers := by
  simp [numbers, mapTexts, List.flatMap_map]

@[simp] theorem boxes_mapTexts (f : String → String) (g : ShapeRef → ShapeRef) (s : Stencil α) :
    (s.mapTexts f g).boxes = s.boxes := by
  simp [boxes, mapTexts, List.flatMap_map]

@[simp] theorem isKnown_mapTexts (f : String → String) (g : ShapeRef → ShapeRef) (s : Stencil α) :
    (s.mapTexts f g).isKnown = s.isKnown := by
  simp [isKnown, mapTexts, Function.comp_def]

theorem mapTexts_mapTexts (f f' : String → String) (g g' : ShapeRef → ShapeRef) (s : Stencil α) :
    (s.mapTexts f g).mapTexts f' g' = s.mapTexts (f' ∘ f) (g' ∘ g) := by
  simp [mapTexts, Function.comp_def]

theorem mapTexts_eq_self {f : String → String} {g : ShapeRef → ShapeRef} {s : Stencil α} (hf : ∀ t ∈ s.texts, f t = t)
    (hg : ∀ r ∈ s.shapes, g r = r) (hknown : s.isKnown = true) : s.mapTexts f g = s := by
  have hall := List.all_eq_true.1 (Bool.and_eq_true_iff.1 hknown).1
  obtain ⟨hstroke, hrest⟩ := List.forall_mem_cons.1 hf
  obtain ⟨hconnections, hforeground⟩ := List.forall_mem_append.1 hrest
  have hcs : s.connections.map (·.mapTexts f g) = s.connections := by
    refine (List.map_congr_left fun c hc => ?_).trans (List.map_id _)
    exact Connection.mapTexts_eq_self (fun t ht => hconnections t (List.mem_flatMap.2 ⟨c, hc, ht⟩))
      (fun r hr => hg r (List.mem_flatMap.2 ⟨c, hc, hr⟩)) (hall c hc)
  have hns : s.foreground.map (·.mapTexts f) = s.foreground := by
    refine (List.map_congr_left fun n hn => ?_).trans (List.map_id _)
    exact Node.mapTexts_eq_self fun t ht => hforeground t (List.mem_flatMap.2 ⟨n, hn, ht⟩)
  rw [mapTexts, hstroke, hcs, hns]

end

/-- What the text of a stencil is read as. -/
def reread (s : Stencil Float) : Stencil Float := (s.known.mapTexts respaced ShapeRef.reread).map plain

variable {s : Stencil Float}

/-! ## The tree of a stencil -/

/-- Entries of unknown meaning are not written. -/
theorem toElement_known (s : Stencil Float) : s.known.toElement = s.toElement := by
  have hconnections : (s.connections.filter (·.isKnown)).filterMap Markup.ofConnection? =
      s.connections.filterMap Markup.ofConnection? := by
    rw [List.filterMap_filter]
    refine List.filterMap_congr fun c _ => ?_
    cases c <;> rfl
  have hforeground : (s.foreground.filter (·.isKnown)).filterMap Markup.ofNode? =
      s.foreground.filterMap Markup.ofNode? := by
    rw [List.filterMap_filter]
    refine List.filterMap_congr fun n _ => ?_
    cases n <;> rfl
  rw [toElement, toElement, known, hconnections, hforeground]
  rfl

theorem wellNamed_toElement (s : Stencil Float) : s.toElement.WellNamed Markup.holds := by
  have hnone : Xml.WellNamed [] := wellNamed_of_names [] rfl (by decide)
  have hroot : Xml.WellNamed s.rootAttributes := by
    unfold rootAttributes
    cases s.fixed
    · exact wellNamed_of_names ["h", "w", "strokewidth"] rfl (by decide)
    · exact wellNamed_of_names ["h", "w", "aspect", "strokewidth"] rfl (by decide)
  refine wellNamed_branch (by decide) (by decide) hroot (List.forall_mem_cons.2 ⟨?_, List.forall_mem_singleton.2 ?_⟩)
  · refine wellNamed_branch (by decide) (by decide) hnone fun e he => ?_
    obtain ⟨c, -, hc⟩ := List.mem_filterMap.1 he
    exact wellNamed_ofConnection hc
  · refine wellNamed_branch (by decide) (by decide) hnone fun e he => ?_
    obtain ⟨n, -, hn⟩ := List.mem_filterMap.1 he
    exact wellNamed_ofNode hn

theorem isText_filterMap {T : Type} {write? : T → Option Element} {texts : T → List String}
    (h : ∀ {x : T} {e : Element}, write? x = some e → (e.IsText ↔ ∀ t ∈ texts x, IsText t.toList)) {xs : List T}
    (hwritten : ∀ x ∈ xs, ∃ e, write? x = some e) :
    (∀ e ∈ xs.filterMap write?, e.IsText) ↔ ∀ t ∈ xs.flatMap texts, IsText t.toList := by
  induction xs with
  | nil => exact iff_of_true (List.forall_mem_nil _) (List.forall_mem_nil _)
  | cons x xs ih =>
    obtain ⟨⟨e, hx⟩, hxs⟩ := List.forall_mem_cons.1 hwritten
    rw [List.filterMap_cons_some hx, List.forall_mem_cons, List.flatMap_cons, List.forall_mem_append, h hx, ih hxs]

/-- A document may hold a stencil if it may hold its texts. -/
theorem isText_toElement (hknown : s.isKnown = true) : s.toElement.IsText ↔ ∀ t ∈ s.texts, IsText t.toList := by
  obtain ⟨hconnections, hforeground⟩ := Bool.and_eq_true_iff.1 hknown
  have hroot : (∀ a ∈ s.rootAttributes, IsText a.2.toList) ↔ IsText s.strokeWidth.toList := by
    have haspect : ∀ a ∈ (if s.fixed then [("aspect", "fixed")] else [] : List (String × String)), IsText a.2.toList := by
      cases s.fixed
      · exact List.forall_mem_nil _
      · exact List.forall_mem_singleton.2 (by decide)
    simp only [rootAttributes, List.forall_mem_append, List.forall_mem_cons, isText_numeral]
    exact ⟨fun h => h.2.1, fun h => ⟨⟨⟨trivial, trivial, List.forall_mem_nil _⟩, haspect⟩, h, List.forall_mem_nil _⟩⟩
  have hcs : (∀ e ∈ s.connections.filterMap Markup.ofConnection?, e.IsText) ↔ _ :=
    isText_filterMap isText_ofConnection fun c hc =>
      (connection_readsBack (List.all_eq_true.1 hconnections c hc)).imp fun _ h => h.1
  have hns : (∀ e ∈ s.foreground.filterMap Markup.ofNode?, e.IsText) ↔ _ :=
    isText_filterMap isText_ofNode fun n hn =>
      (node_readsBack (List.all_eq_true.1 hforeground n hn)).imp fun _ h => h.1
  rw [toElement, Element.isText_node, hroot, texts, @List.forall_mem_cons _ _ s.strokeWidth, List.forall_mem_append,
    ← hcs, ← hns]
  simp only [List.forall_mem_cons, Element.isText_node]
  exact and_congr_right fun _ => ⟨fun h => ⟨h.1.2, h.2.1.2⟩, fun h =>
    ⟨⟨List.forall_mem_nil _, h.1⟩, ⟨List.forall_mem_nil _, h.2⟩, List.forall_mem_nil _⟩⟩

/-- What is read for the tree of a stencil is the tree of another stencil. -/
theorem respaced_toElement (s : Stencil Float) :
    s.toElement.respaced = (s.mapTexts respaced ShapeRef.respaced).toElement := by
  have hconnections : (s.connections.filterMap Markup.ofConnection?).map Element.respaced =
      (s.connections.map (·.mapTexts respaced ShapeRef.respaced)).filterMap Markup.ofConnection? := by
    rw [List.map_filterMap, List.filterMap_map]
    exact List.filterMap_congr fun c _ => respaced_ofConnection c
  have hforeground : (s.foreground.filterMap Markup.ofNode?).map Element.respaced =
      (s.foreground.map (·.mapTexts respaced)).filterMap Markup.ofNode? := by
    rw [List.map_filterMap, List.filterMap_map]
    exact List.filterMap_congr fun n _ => respaced_ofNode n
  have hroot : Xml.respaceValues s.rootAttributes = (s.mapTexts respaced ShapeRef.respaced).rootAttributes := by
    have haspect : respaced "fixed" = "fixed" := by decide
    unfold rootAttributes mapTexts
    cases s.fixed <;> simp [haspect]
  simp [toElement, Element.respaced, Xml.respacedAll_eq_map, hconnections, hforeground, hroot, mapTexts]

/-- What has to hold of a stencil's numbers and boxes, entry by entry. -/
theorem interpretable_iff : Interpretable s.numbers s.boxes ↔
    (Scalar.isFinite s.w = true ∧ Scalar.isFinite s.h = true) ∧
      (∀ c ∈ s.connections, Interpretable c.numbers c.boxes) ∧ ∀ n ∈ s.foreground, Interpretable n.numbers n.boxes := by
  rw [← interpretable_flatMap, ← interpretable_flatMap, ← interpretable_append]
  constructor
  · rintro ⟨hfinite, hsizes⟩
    obtain ⟨hfw, hfinite⟩ := List.forall_mem_cons.1 hfinite
    obtain ⟨hfh, hfinite⟩ := List.forall_mem_cons.1 hfinite
    exact ⟨⟨hfw, hfh⟩, hfinite, hsizes⟩
  · rintro ⟨⟨hfw, hfh⟩, hfinite, hsizes⟩
    exact ⟨List.forall_mem_cons.2 ⟨hfw, List.forall_mem_cons.2 ⟨hfh, hfinite⟩⟩, hsizes⟩

/-- **When the tree of a stencil is read, and as what**: as the stencil, its shapes under the names that mean
them. -/
theorem ofElement_toElement_eq_ok {t : Stencil Float} (hknown : s.isKnown = true) :
    Stencil.ofElement s.toElement = .ok t ↔
      Interpretable s.numbers s.boxes ∧ t = (s.mapTexts id ShapeRef.renamed).map plain := by
  obtain ⟨hconnections, hforeground⟩ := Bool.and_eq_true_iff.1 hknown
  have hcs := mapM_readsBack fun c hc => connection_readsBack (List.all_eq_true.1 hconnections c hc)
  have hns := mapM_readsBack fun n hn => node_readsBack (List.all_eq_true.1 hforeground n hn)
  -- The reader is only told what it asks of the tree, so it is not evaluated on the tree.
  obtain ⟨e, he⟩ : ∃ e, e = s.toElement := ⟨_, rfl⟩
  have hw : e.get? "w" = some (numeral s.w) := by rw [he]; rfl
  have hh : e.get? "h" = some (numeral s.h) := by rw [he]; rfl
  have haspect : (e.get? "aspect" == some "fixed") = s.fixed := by
    rw [he]
    unfold toElement Element.get? Element.attributes rootAttributes
    cases s.fixed <;> rfl
  have hstroke : (e.get? "strokewidth").getD "1" = s.strokeWidth := by
    rw [he]
    unfold toElement Element.get? Element.attributes rootAttributes
    cases s.fixed <;> rfl
  have htag : e.tag = "shape" := by rw [he]; rfl
  have hentriesC : Xml.entries "connections" e.children = s.connections.filterMap Markup.ofConnection? := by
    rw [he]
    exact List.append_nil _
  have hentriesN : Xml.entries "foreground" e.children = s.foreground.filterMap Markup.ofNode? := by
    rw [he]
    exact List.append_nil _
  rw [← he, ofElement_eq_ok, and_iff_right htag, haspect, hstroke, hentriesC, hentriesN, interpretable_iff]
  simp only [Interpretation.number_eq_ok hw, Interpretation.number_eq_ok hh, hcs, hns]
  have hsame : ∀ n : Node Float, n.mapTexts id = n := fun n => Node.mapTexts_eq_self fun _ _ => rfl
  constructor
  · rintro ⟨_, _, _, _, ⟨hfw, rfl⟩, ⟨hfh, rfl⟩, ⟨hreadC, rfl⟩, ⟨hreadN, rfl⟩, rfl⟩
    exact ⟨⟨⟨hfw, hfh⟩, hreadC, hreadN⟩, by simp [mapTexts, map, hsame, Function.comp_def]⟩
  · rintro ⟨⟨⟨hfw, hfh⟩, hreadC, hreadN⟩, rfl⟩
    refine ⟨_, _, _, _, ⟨hfw, rfl⟩, ⟨hfh, rfl⟩, ⟨hreadC, rfl⟩, ⟨hreadN, rfl⟩, ?_⟩
    simp [mapTexts, map, hsame, Function.comp_def]

/-! ## The text of a stencil -/

/-- **When the text of a stencil is read, and as what.** -/
theorem ofText_text_eq_ok {t : Stencil Float} :
    Stencil.ofText s.text = .ok t ↔ s.known.IsReadable ∧ t = s.reread := by
  have hreread : s.reread = ((s.known.mapTexts respaced ShapeRef.respaced).mapTexts id ShapeRef.renamed).map plain := by
    rw [reread, mapTexts_mapTexts, ShapeRef.renamed_comp_respaced, Function.id_comp]
  have htext : s.text = .ofList (s.known.toElement.render Markup.holds) := by
    rw [text, toElement_known]
  have hread : Stencil.ofText s.text = .ok t ↔
      ∃ e, Xml.readDocument (s.known.toElement.render Markup.holds) = .ok e ∧ Stencil.ofElement e = .ok t := by
    rw [ofText, htext, String.toList_ofList]
    cases Xml.readDocument (s.known.toElement.render Markup.holds) with
    | ok e => simp
    | error f => simp
  rw [hread, hreread]
  simp only [Xml.readDocument_render_eq_ok (wellNamed_toElement s.known), isText_toElement (isKnown_known s)]
  constructor
  · rintro ⟨_, ⟨htexts, rfl⟩, h⟩
    rw [respaced_toElement, ofElement_toElement_eq_ok (by simp)] at h
    obtain ⟨hinterpretable, rfl⟩ := h
    rw [numbers_mapTexts, boxes_mapTexts] at hinterpretable
    exact ⟨⟨hinterpretable, htexts⟩, rfl⟩
  · rintro ⟨⟨hinterpretable, htexts⟩, rfl⟩
    refine ⟨_, ⟨htexts, rfl⟩, ?_⟩
    rw [respaced_toElement, ofElement_toElement_eq_ok (by simp), numbers_mapTexts, boxes_mapTexts]
    exact ⟨hinterpretable, rfl⟩

/-- What can be written can be read. -/
theorem IsWritable.isReadable (hs : s.IsWritable) : s.IsReadable :=
  ⟨⟨hs.finite, hs.sizes⟩, fun t ht => Xml.isText_of_isLiteral (hs.literal t ht)⟩

/-- What can be written is read as it is, its numbers without the signs of zeros. -/
theorem IsWritable.reread_eq (hs : s.IsWritable) (hknown : s.isKnown = true) : s.reread = s.map plain := by
  rw [reread, known_eq_self hknown]
  refine congrArg _ (mapTexts_eq_self (fun t ht => Xml.respaced_eq_self (hs.literal t ht)) ?_ hknown)
  intro r hr
  obtain ⟨c, hc, hr'⟩ := List.mem_flatMap.1 hr
  have htext : r.name ∈ s.texts := by
    refine List.mem_cons_of_mem _ (List.mem_append_left _ (List.mem_flatMap.2 ⟨c, hc, ?_⟩))
    cases c <;> simp_all [Connection.shapes, Connection.texts]
  rw [ShapeRef.reread, Xml.respaced_eq_self (hs.literal _ htext), hs.named r hr]

/-- **The text of a stencil is read as the stencil**, its numbers without the signs of zeros. -/
theorem ofText_text (hs : s.IsWritable) (hknown : s.isKnown = true) :
    Stencil.ofText s.text = .ok (s.map plain) := by
  refine ofText_text_eq_ok.2 ⟨?_, (hs.reread_eq hknown).symm⟩
  rw [known_eq_self hknown]
  exact hs.isReadable

theorem beq_map_plain (hs : s.IsWritable) : (s == s.map plain) = true := by
  refine beq_of_map Binary64.separates_plain (fun a ha => Binary64.beq_self_of_isFinite (hs.finite a ha)) ?_
  rw [map_map, Binary64.plain_comp_plain]

/-- **Reading undoes writing.** A stencil of finite numbers, sizes that are not negative, shapes that are
named as they are read and texts that markup keeps equals what its text is read as, however many
entries it has, of whatever kinds and in whatever order. -/
theorem text_round_trip (s : Stencil Float) (hs : s.IsWritable) (hknown : s.isKnown = true) :
    ∃ s', Stencil.ofText s.text = .ok s' ∧ (s == s') = true :=
  ⟨s.map plain, ofText_text hs hknown, beq_map_plain hs⟩

/-- A stencil with a negative zero, a token in a shape and marks in its texts. -/
def sample : Stencil Float :=
  { w := 4, h := 2.5, fixed := false, strokeWidth := "1"
    connections := [.edge ⟨"line-0/a<b", .line, true, [⟨0, 1⟩, ⟨4, -0.0⟩]⟩, .anchor ⟨0.5, 1, "x&y"⟩,
      .region ⟨"area-1", .area, false, .embedded "QQ==", ⟨-0.0, 0, 3, 2⟩⟩]
    foreground := [.fillStroke, .path [.move ⟨0, 0.1⟩, .quad ⟨1, 1⟩ ⟨2, 0⟩, .close], .dashed true, .strokeWidth 1.5,
      .reference "\x22q\x22" ⟨0, 0, 1, 1⟩, .stroke] }

theorem text_round_trip_sample : ∃ s', Stencil.ofText sample.text = .ok s' ∧ (sample == s') = true :=
  text_round_trip sample (by decide) (by decide)

end Stencil

end StencilKit
