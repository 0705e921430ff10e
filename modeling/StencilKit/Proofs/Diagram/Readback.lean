/-
Which merges can be split again.

A merge does not read what it has written. What it writes can be read just when the composed stencil is
readable (`canSplit_replace_iff`): its texts are text that a document may hold, its numbers are finite, and no
size in it is negative. Texts and sizes are as they were in the diagram; but a number may fail to be finite
although all numbers of the diagram are.
-/
import StencilKit.Proofs.Composition.Readable
import StencilKit.Proofs.Diagram.Splitting

namespace StencilKit

namespace Diagram

/-- Whether a cell can be split. -/
def CanSplit (d : Diagram Float) (splitter : Editor) (id : Nat) : Prop :=
  ∃ ids d', (splitter.split id).run d = .ok ids d'

/-- The stencil cell of a composition can be split if its text can be read. -/
theorem canSplit_composed_iff {d : Diagram Float} {id : Nat} {c : Composition Float} {style : String}
    (hstyle : c.style .base64 = .ok style) (hcell : d.get? id = some (.stencil c.bounds style))
    (hknown : c.stencil.isKnown = true) {splitter : Editor} (hunpacking : splitter.library.packing = .base64) :
    d.CanSplit splitter id ↔ c.stencil.IsReadable := by
  have hat := stencilAt_composed hstyle hcell
  constructor
  · rintro ⟨ids, d', h⟩
    obtain ⟨shape, box, parts, hat', hparts, -, -⟩ := Editor.split_eq_ok.1 h
    obtain ⟨rfl, rfl⟩ := Prod.mk.inj (Except.ok.inj (hat.symm.trans hat'))
    have hreadable := ((Library.decompose_packed_eq_ok hunpacking).1 hparts).1
    rwa [Stencil.known_eq_self hknown] at hreadable
  · intro hreadable
    rw [← Stencil.known_eq_self hknown] at hreadable
    have hparts : splitter.library.decompose (.embedded (Token.pack c.stencil.text)) splitter.decomposing c.bounds =
        .ok (c.stencil.reread.decompose splitter.decomposing c.bounds) :=
      (Library.decompose_packed_eq_ok hunpacking).2 ⟨hreadable, rfl⟩
    exact ⟨_, _, Editor.split_eq_ok.2 ⟨_, _, _, hat, hparts, rfl, rfl⟩⟩

/-- The stencil cell of a merge can be split if the text of the composed stencil can be read. -/
theorem canSplit_replace_iff {d : Diagram Float} (hd : Ledger d) {ids : List Nat} {s : Selection}
    (hs : d.select ids = .ok s) {shop : Workshop Float} {background : Background} {arrangement : Arrangement}
    {c : Composition Float} (hc : shop.compose s.primitives background arrangement = .ok c) {style : String}
    (hstyle : c.style .base64 = .ok style) {splitter : Editor} (hunpacking : splitter.library.packing = .base64) :
    (d.replace (.stencil c.bounds style) s).CanSplit splitter d.nextId ↔ c.stencil.IsReadable := by
  obtain ⟨-, -, hin⟩ := select_ok hs
  have hcell := get?_replace hd (.stencil c.bounds style) s hin d.nextId
  rw [if_pos rfl] at hcell
  exact canSplit_composed_iff hstyle hcell (Workshop.isKnown_of_compose hc) hunpacking

/-- **Which merges can be split again**, whatever was asked of the diagram before, and whatever the split is
made with, if both pack stencils in the usual way: those whose composed stencil is readable. If no box among the
selected primitives and their markers has a negative size, and no text of theirs holds a character that a
document may not hold, then this is a matter of the numbers that the composition came to. -/
theorem canSplit_of_merge_iff (maker : Editor) (cs : List Command) (editor splitter : Editor)
    (hpacking : editor.library.packing = .base64) (hunpacking : splitter.library.packing = .base64)
    (ids : List Nat) (background : Background) (arrangement : Arrangement) :
    let d := (empty.runAll maker cs).1
    ∀ numbers d', (editor.merge ids background arrangement).run d = .ok numbers d' →
      ∃ s c, d.select ids = .ok s ∧ editor.workshop.compose s.primitives background arrangement = .ok c ∧
        (d'.CanSplit splitter numbers.stencil ↔ c.stencil.IsReadable) ∧
        ((∀ p ∈ s.primitives, p.isText = false → Presentable p.boxes p.texts) →
          (d'.CanSplit splitter numbers.stencil ↔ ∀ a ∈ c.stencil.numbers, Scalar.isFinite a = true)) := by
  intro d numbers d' hmerge
  have hd : Ledger d := Ledger.runAll .empty maker cs
  obtain ⟨s, c, style, hs, hc, hstyle, rfl, rfl⟩ := Editor.merge_eq_ok.1 hmerge
  rw [hpacking] at hstyle
  have hsplit : (d.replace (.stencil c.bounds style) s).CanSplit splitter (d.mergedIds s).stencil ↔
      c.stencil.IsReadable := canSplit_replace_iff hd hs hc hstyle hunpacking
  exact ⟨s, c, hs, hc, hsplit, fun hselection => hsplit.trans (Workshop.isReadable_of_compose hc hselection)⟩

theorem canSplit_of_merge_lineAndEllipse :
    ∃ numbers d', (plainEditor.merge [0, 1] .filled .shapes).run (empty.runAll plainEditor lineAndEllipse).1 =
        .ok numbers d' ∧ d'.CanSplit plainEditor numbers.stencil := by
  have hchecked : (empty.runAll plainEditor lineAndEllipse).1.composes plainEditor [0, 1] .filled .shapes
      (fun c => decide c.stencil.IsReadable) = true := by decide +kernel
  obtain ⟨s, c, hs, hc, hreadable⟩ := exists_of_composes hchecked
  have hmerge := Editor.merge_eq_ok.2 ⟨s, c, _, hs, hc, c.style_base64, rfl, rfl⟩
  obtain ⟨s', c', hs', hc', hsplit, -⟩ :=
    canSplit_of_merge_iff plainEditor lineAndEllipse plainEditor plainEditor rfl rfl [0, 1] .filled .shapes _ _ hmerge
  obtain rfl := Except.ok.inj (hs.symm.trans hs')
  obtain rfl := Except.ok.inj (hc.symm.trans hc')
  exact ⟨_, _, hmerge, hsplit.2 (of_decide_eq_true hreadable)⟩

/-- Whether the numbers of a cell's primitive are finite, and the sizes of its boxes not negative. -/
def IsMeasured : Cell Float → Prop
  | .primitive p => (∀ a ∈ p.numbers, Scalar.isFinite a = true) ∧ ∀ b ∈ p.boxes, 0 ≤ b.w ∧ 0 ≤ b.h
  | .marker _ | .stencil _ _ | .group _ => True

instance : DecidablePred IsMeasured
  | .primitive p =>
    inferInstanceAs (Decidable ((∀ a ∈ p.numbers, Scalar.isFinite a = true) ∧ ∀ b ∈ p.boxes, 0 ≤ b.w ∧ 0 ≤ b.h))
  | .marker _ | .stencil _ _ | .group _ => inferInstanceAs (Decidable True)

theorem exists_not_canSplit {d : Diagram Float} (hd : Ledger d) {editor : Editor} {ids : List Nat}
    {background : Background} {arrangement : Arrangement} (hpacking : editor.library.packing = .base64)
    (h : d.composes editor ids background arrangement (fun c => decide ¬ c.stencil.IsReadable) = true)
    {splitter : Editor} (hunpacking : splitter.library.packing = .base64) :
    ∃ numbers d', (editor.merge ids background arrangement).run d = .ok numbers d' ∧
      ¬ d'.CanSplit splitter numbers.stencil := by
  obtain ⟨s, c, hs, hc, hunreadable⟩ := exists_of_composes h
  have hstyle : c.style editor.library.packing = .ok _ := hpacking ▸ c.style_base64
  refine ⟨_, _, Editor.merge_eq_ok.2 ⟨s, c, _, hs, hc, hstyle, rfl, rfl⟩, fun hsplit => ?_⟩
  exact of_decide_eq_true hunreadable ((canSplit_replace_iff hd hs hc c.style_base64 hunpacking).1 hsplit)

/-- The making of a diagram with a line in a color of one character, which no document may hold. -/
def controlColored : List Command :=
  [.edit (.insert (.primitive (.edge ⟨.line, ⟨⟨0, 0⟩, [], ⟨4, 3⟩⟩⟩ { stroke := "\x01" } false [])))]

/-- **Not every merge can be split again**, though all numbers of the diagram are finite and no size is
negative. -/
theorem not_canSplit_of_controlColored :
    ¬ ∀ (cs : List Command) (ids : List Nat) (background : Background) (arrangement : Arrangement),
      let d := (empty.runAll plainEditor cs).1
      (∀ cell ∈ d.cells, IsMeasured cell.2) →
        ∀ numbers d', (plainEditor.merge ids background arrangement).run d = .ok numbers d' →
          d'.CanSplit plainEditor numbers.stencil := by
  intro hall
  have hchecked : (empty.runAll plainEditor controlColored).1.composes plainEditor [0] .filled .shapes
      (fun c => decide ¬ c.stencil.IsReadable) = true := by decide +kernel
  have hledger : Ledger (empty.runAll plainEditor controlColored).1 := Ledger.runAll .empty plainEditor controlColored
  have hpacking : plainEditor.library.packing = .base64 := rfl
  obtain ⟨numbers, d', hmerge, hnot⟩ := exists_not_canSplit hledger hpacking hchecked hpacking
  exact hnot (hall controlColored [0] .filled .shapes (by decide +kernel) numbers d' hmerge)

/-- The making of a diagram with a line whose ends are finite, and whose width is not. -/
def overlong : List Command :=
  [.edit (.insert (.primitive (.edge ⟨.line, ⟨⟨-1e308, 0⟩, [], ⟨1e308, 1⟩⟩⟩ {} false [])))]

example : (empty.runAll plainEditor overlong).1.composes plainEditor [0] .filled .shapes
    (fun c => decide ¬ c.stencil.IsReadable) = true := by decide +kernel

end Diagram

end StencilKit
