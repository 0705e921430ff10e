/-
When the text of a composed stencil can be read.

The boxes and the texts that a stencil holds were those of the primitives that it was composed from: boxes
are moved, which leaves their sizes alone, and to texts nothing is added but the heads of tags
(`presentable_of_compose`). Numbers are another matter, as they are computed: coordinates are differences,
and anchors are quotients by the size of the whole. So a stencil that was composed from boxes of sizes that
are not negative and texts that a document may hold can be read just when all its numbers are finite.
-/
import StencilKit.Proofs.Composition.Frame
import StencilKit.Proofs.Stencil.RoundTrip
import StencilKit.Proofs.Stencil.Tags

namespace StencilKit

open Xml (IsText)

/-- What a document asks of boxes and texts. -/
structure Presentable (boxes : List (Box Float)) (texts : List String) : Prop where
  sizes : ∀ b ∈ boxes, 0 ≤ b.w ∧ 0 ≤ b.h
  texts : ∀ t ∈ texts, IsText t.toList

instance {boxes : List (Box Float)} {texts : List String} : Decidable (Presentable boxes texts) :=
  decidable_of_iff ((∀ b ∈ boxes, 0 ≤ b.w ∧ 0 ≤ b.h) ∧ ∀ t ∈ texts, IsText t.toList)
    ⟨fun ⟨sizes, texts⟩ => ⟨sizes, texts⟩, fun ⟨sizes, texts⟩ => ⟨sizes, texts⟩⟩

namespace Presentable

theorem nil : Presentable [] [] := ⟨List.forall_mem_nil _, List.forall_mem_nil _⟩

theorem of_text {t : String} (h : IsText t.toList) : Presentable [] [t] :=
  ⟨List.forall_mem_nil _, List.forall_mem_singleton.2 h⟩

theorem flatMap {T : Type} {boxes : T → List (Box Float)} {texts : T → List String} {xs : List T} :
    Presentable (xs.flatMap boxes) (xs.flatMap texts) ↔ ∀ x ∈ xs, Presentable (boxes x) (texts x) := by
  constructor
  · intro h x hx
    exact ⟨fun b hb => h.sizes b (List.mem_flatMap.2 ⟨x, hx, hb⟩), fun t ht => h.texts t (List.mem_flatMap.2 ⟨x, hx, ht⟩)⟩
  · intro h
    refine ⟨fun b hb => ?_, fun t ht => ?_⟩
    · obtain ⟨x, hx, hb⟩ := List.mem_flatMap.1 hb
      exact (h x hx).sizes b hb
    · obtain ⟨x, hx, ht⟩ := List.mem_flatMap.1 ht
      exact (h x hx).texts t ht

end Presentable

/-! ## What primitives hold -/

section

variable {α : Type}

/-- The boxes of an anchorage that stand in a stencil; of a spot only its center does. -/
def Anchorage.boxes : Anchorage α → List (Box α)
  | spot _ | along _ => []
  | region _ _ b => [b]

def Anchorage.texts : Anchorage α → List String
  | spot _ | along _ => []
  | region _ shape _ => [shape.name]

def Marker.boxes (m : Marker α) : List (Box α) := m.anchorage.boxes

def Marker.texts (m : Marker α) : List String := m.label :: m.anchorage.texts

def Style.texts (s : Style α) : List String := s.stroke :: (s.fill?.toList ++ s.pattern?.toList)

namespace Primitive

/-- The box that a primitive is drawn in, if a stencil tells of it. -/
def ownBoxes : Primitive α → List (Box α)
  | stencil _ b _ _ _ | image _ b _ _ => [b]
  | _ => []

/-- What a primitive is drawn by. -/
def ownTexts : Primitive α → List String
  | stencil shape _ _ _ _ => [shape.name]
  | image src _ _ _ => [src]
  | _ => []

/-- The boxes of a primitive and its markers. -/
def boxes (p : Primitive α) : List (Box α) := p.ownBoxes ++ p.markers.flatMap Marker.boxes

/-- The texts of a primitive, its style and its markers. -/
def texts (p : Primitive α) : List String := p.ownTexts ++ (p.style.texts ++ p.markers.flatMap Marker.texts)

end Primitive

end

namespace Primitive

variable {p : Primitive Float}

theorem presentable_iff : Presentable p.boxes p.texts ↔
    Presentable p.ownBoxes p.ownTexts ∧ Presentable [] p.style.texts ∧ ∀ m ∈ p.markers, Presentable m.boxes m.texts := by
  rw [← Presentable.flatMap]
  constructor
  · rintro ⟨hsizes, htexts⟩
    obtain ⟨hown, hmarkers⟩ := List.forall_mem_append.1 hsizes
    obtain ⟨hownTexts, htexts⟩ := List.forall_mem_append.1 htexts
    obtain ⟨hstyle, hmarkerTexts⟩ := List.forall_mem_append.1 htexts
    exact ⟨⟨hown, hownTexts⟩, ⟨List.forall_mem_nil _, hstyle⟩, ⟨hmarkers, hmarkerTexts⟩⟩
  · rintro ⟨hown, hstyle, hmarkers⟩
    exact ⟨List.forall_mem_append.2 ⟨hown.sizes, hmarkers.sizes⟩,
      List.forall_mem_append.2 ⟨hown.texts, List.forall_mem_append.2 ⟨hstyle.texts, hmarkers.texts⟩⟩⟩

theorem presentable_anchorage_moved {a : Anchorage Float} {label : String} (d : Point Float)
    (h : Presentable a.boxes (label :: a.texts)) : Presentable (a.moved d).boxes (label :: (a.moved d).texts) := by
  cases a with
  | spot b | along e => exact h
  | region kind shape b => exact ⟨List.forall_mem_singleton.2 (h.sizes b (List.mem_singleton_self b)), h.texts⟩

/-- What a primitive lets attach is as presentable as the primitive. -/
theorem presentable_source (hp : Presentable p.boxes p.texts) :
    ∀ source ∈ p.sources, Presentable source.anchorage.boxes (source.label :: source.anchorage.texts) := by
  obtain ⟨hown, -, hmarkers⟩ := presentable_iff.1 hp
  refine List.forall_mem_append.2 ⟨?_, ?_⟩
  · intro source hsource
    have hempty : IsText "".toList := by decide
    unfold ownSource? at hsource
    split at hsource
    · obtain rfl := List.mem_singleton.1 hsource
      exact .of_text hempty
    · obtain rfl := List.mem_singleton.1 hsource
      exact ⟨hown.sizes, List.forall_mem_cons.2 ⟨hempty, hown.texts⟩⟩
    · cases hsource
  · intro source hsource
    obtain ⟨m, hm, rfl⟩ := List.mem_map.1 hsource
    obtain ⟨n, hn, rfl⟩ := List.mem_map.1 hm
    exact presentable_anchorage_moved _ (hmarkers n hn)

end Primitive

/-- The text of a tag is text if its label is. -/
theorem Tag.isText_text {t : Tag} (h : IsText t.label.toList) : IsText t.text.toList := by
  have hdigit : ∀ c : Char, c.isDigit = true → Xml.isChar c = true := fun c hc =>
    Decimal.of_isDigit (p := fun c => Xml.isChar c = true) hc (by decide)
  rw [text, String.toList_ofList]
  refine List.forall_mem_append.2 ⟨List.forall_mem_append.2 ⟨?_, List.forall_mem_cons.2 ⟨by decide, ?_⟩⟩, ?_⟩
  · cases t.kind <;> decide
  · exact fun c hc => hdigit c (Decimal.isDigit_of_mem_toDigits hc)
  · split
    · exact List.forall_mem_nil _
    · exact List.forall_mem_cons.2 ⟨by decide, h⟩

/-! ## What compositions hold -/

namespace Workshop

variable {shop : Workshop Float} {frame : Box Float}

theorem presentable_block {source : Source Float} {k : Nat} {block : List (Connection Float)}
    (hsource : Presentable source.anchorage.boxes (source.label :: source.anchorage.texts))
    (h : shop.block frame source k = .ok block) : ∀ c ∈ block, Presentable c.boxes c.texts := by
  obtain ⟨own, label, anchorage⟩ := source
  have hname : ∀ kind, IsText (Tag.text ⟨kind, .ofNat k, label⟩).toList := fun kind =>
    Tag.isText_text (hsource.texts label List.mem_cons_self)
  have hanchors : ∀ (kind : TagKind) (ps : List (Point Float)),
      ∀ c ∈ ps.map fun p => Connection.anchor (Sampling.anchor frame (Tag.text ⟨kind, .ofNat k, label⟩) p),
        Presentable c.boxes c.texts := by
    intro kind ps c hc
    obtain ⟨p, -, rfl⟩ := List.mem_map.1 hc
    exact .of_text (hname kind)
  cases anchorage with
  | spot b =>
    cases h
    exact hanchors .point _
  | along e =>
    cases h
    exact List.forall_mem_cons.2 ⟨.of_text (hname _), hanchors _ _⟩
  | region kind shape b =>
    obtain ⟨ps, -, rfl⟩ := Xml.map_eq_ok h
    refine List.forall_mem_cons.2 ⟨⟨?_, ?_⟩, hanchors _ _⟩
    · exact List.forall_mem_singleton.2 (hsource.sizes b (List.mem_singleton_self b))
    · exact List.forall_mem_cons.2 ⟨hname _, (List.forall_mem_cons.1 hsource.texts).2⟩

theorem presentable_draw {p : Primitive Float} (hp : Presentable p.ownBoxes p.ownTexts) {n : Node Float}
    (h : shop.draw frame p = .ok (some n)) : Presentable n.boxes n.texts := by
  cases p with
  | edge e style outline markers =>
    cases h
    exact .nil
  | stencil shape b style outline markers =>
    have hsize : ∀ d ∈ [frame.boxToLocal b], 0 ≤ d.w ∧ 0 ≤ d.h :=
      List.forall_mem_singleton.2 (hp.sizes b (List.mem_singleton_self b))
    cases shape with
    | rectangle | ellipse =>
      cases h
      exact ⟨hsize, List.forall_mem_nil _⟩
    | named name | embedded token =>
      cases h
      exact ⟨hsize, hp.texts⟩
  | image src b style markers =>
    cases h
    exact ⟨List.forall_mem_singleton.2 (hp.sizes b (List.mem_singleton_self b)), hp.texts⟩
  | group edges style =>
    obtain ⟨path, -, h⟩ := Xml.map_eq_ok h
    cases h
    exact .nil
  | text value b style => cases h

theorem presentable_nodes {style : Style Float} (h : Presentable [] style.texts) (background : Background) :
    ∀ n ∈ style.nodes background, Presentable n.boxes n.texts := by
  obtain ⟨hstroke, hrest⟩ := List.forall_mem_cons.1 h.texts
  obtain ⟨hfill, hpattern⟩ := List.forall_mem_append.1 hrest
  exact style.forall_mem_nodes (fun n => Presentable n.boxes n.texts) .nil
    (fun pattern hmem => .of_text (hpattern pattern (Option.mem_toList.2 hmem))) (fun _ _ => .nil) (.of_text hstroke)
    (fun color hmem => .of_text (hfill color (Option.mem_toList.2 hmem))) .nil .nil background

variable {selection : List (Primitive Float)} {background : Background} {arrangement : Arrangement}
  {c : Composition Float}

/-- **A composed stencil is as presentable as what it is composed from.** -/
theorem presentable_of_compose (h : shop.compose selection background arrangement = .ok c)
    (hselection : ∀ p ∈ selection, p.isText = false → Presentable p.boxes p.texts) :
    Presentable c.stencil.boxes c.stencil.texts := by
  obtain ⟨frame, nodes, connections, -, -, -, hnodes, hconnections, rfl⟩ := compose_eq_ok.1 h
  have hbody : ∀ p ∈ selection.filter (!·.isText), Presentable p.boxes p.texts := fun p hp =>
    hselection p (List.mem_filter.1 hp).1 (by simpa using (List.mem_filter.1 hp).2)
  have hcs : ∀ d ∈ connections, Presentable d.boxes d.texts := by
    intro d hd
    obtain ⟨source, hsource, k, block, hblock, hd⟩ := exists_block_of_mem_connections hconnections d hd
    obtain ⟨p, hp, hsource⟩ := List.mem_flatMap.1 hsource
    exact presentable_block (Primitive.presentable_source (hbody p hp) source hsource) hblock d hd
  have hns : ∀ n ∈ Node.fillStroke :: nodes, Presentable n.boxes n.texts := by
    refine List.forall_mem_cons.2 ⟨.nil, fun n hn => ?_⟩
    obtain ⟨p, hp, hn⟩ | ⟨path, rfl⟩ | rfl := drawBody_cases hnodes n hn
    · obtain ⟨hown, hstyle, -⟩ := Primitive.presentable_iff.1 (hbody p hp)
      exact hn.elim (fun hdraw => presentable_draw hown hdraw) fun hpaint => presentable_nodes hstyle background n hpaint
    · exact .nil
    · exact .nil
  obtain ⟨hcsizes, hctexts⟩ := Presentable.flatMap.2 hcs
  obtain ⟨hnsizes, hntexts⟩ := Presentable.flatMap.2 hns
  have hinherit : IsText "inherit".toList := by decide
  exact ⟨List.forall_mem_append.2 ⟨hcsizes, hnsizes⟩,
    List.forall_mem_cons.2 ⟨hinherit, List.forall_mem_append.2 ⟨hctexts, hntexts⟩⟩⟩

/-- **When a composed stencil can be read**: if all its numbers are finite. -/
theorem isReadable_of_compose (h : shop.compose selection background arrangement = .ok c)
    (hselection : ∀ p ∈ selection, p.isText = false → Presentable p.boxes p.texts) :
    c.stencil.IsReadable ↔ ∀ a ∈ c.stencil.numbers, Scalar.isFinite a = true := by
  obtain ⟨hsizes, htexts⟩ := presentable_of_compose h hselection
  exact ⟨fun h => h.interpretable.finite, fun h => ⟨⟨h, hsizes⟩, htexts⟩⟩

end Workshop

end StencilKit
