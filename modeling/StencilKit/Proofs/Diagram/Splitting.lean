/-
What was merged can be split again.

The cells that were merged live on only in the style of the stencil cell: as text, packed into a token,
inside a list of entries. Each of these wrappings comes off again (`ofStyle?_packed`, `unpack_pack`,
`ofText_text`) and leaves the stencil with its zeros unsigned; and whether a zero has a sign tells in
no part of a stencil but by the signs of its own zeros (`map_plain_decompose`).

* `split_composed`: the stencil cell of any composition can be split, in any diagram.
-/
import StencilKit.Proofs.Composition.Frame
import StencilKit.Proofs.Decomposition.Numbers
import StencilKit.Proofs.Diagram.Merging
import StencilKit.Proofs.Stencil.RoundTrip
import StencilKit.Proofs.Stencil.Tokens

namespace StencilKit

open Binary64 (plain Plain)

/-! ## Parts -/

/-- The signs of zeros in a stencil are of no account for its parts, but for the signs of their zeros. -/
theorem Stencil.map_plain_decompose (s : Stencil Float) (options : DecomposeOptions Float) (b : Box Float) :
    ((s.map plain).decompose options b).map plain = (s.decompose options b).map plain := by
  have hparts : ∀ t : Stencil Float, (t.decompose options b).map plain =
      ((t.map Plain.of).decompose (options.map Plain.of) (b.map Plain.of)).map Plain.val := by
    intro t
    rw [Stencil.map_decompose Plain.hom, Parts.map_map, Plain.val_comp_of]
  rw [hparts, hparts s, Stencil.map_map, Plain.of_comp_plain]

/-- The style of a composition with the usual packing, which can write every stencil. -/
theorem Composition.style_base64 (c : Composition Float) :
    c.style .base64 = .ok (ShapeRef.embedded (Token.pack c.stencil.text)).style := rfl

namespace Library

variable {library : Library} {s : Stencil Float}

/-- **When a packed stencil comes apart, and into what**: as what its text is read as. -/
theorem decompose_packed_eq_ok (hpacking : library.packing = .base64) {options : DecomposeOptions Float}
    {b : Box Float} {parts : Parts Float} :
    library.decompose (.embedded (Token.pack s.text)) options b = .ok parts ↔
      s.known.IsReadable ∧ parts = s.reread.decompose options b := by
  have hread : library.decompose (.embedded (Token.pack s.text)) options b =
      (Stencil.ofText s.text).map (·.decompose options b) := by
    have hunpack : library.packing.unpack (Token.pack s.text) = .ok s.text := by
      rw [hpacking]
      exact Token.unpack_pack s.text
    rw [decompose, resolve, hunpack]
  rw [hread, Interpretation.map_eq_ok_iff]
  constructor
  · rintro ⟨t, ht, rfl⟩
    obtain ⟨hreadable, rfl⟩ := Stencil.ofText_text_eq_ok.1 ht
    exact ⟨hreadable, rfl⟩
  · rintro ⟨hreadable, rfl⟩
    exact ⟨_, Stencil.ofText_text_eq_ok.2 ⟨hreadable, rfl⟩, rfl⟩

/-- A packed stencil comes apart as the stencil does, if it can be written. -/
theorem decompose_packed (hpacking : library.packing = .base64) (hs : s.IsWritable) (hknown : s.isKnown = true)
    (options : DecomposeOptions Float) (b : Box Float) :
    library.decompose (.embedded (Token.pack s.text)) options b = .ok ((s.map plain).decompose options b) := by
  refine (decompose_packed_eq_ok hpacking).2 ⟨?_, by rw [hs.reread_eq hknown]⟩
  rw [Stencil.known_eq_self hknown]
  exact hs.isReadable

end Library

namespace Workshop

variable {shop : Workshop Float} {selection : List (Primitive Float)} {background : Background}
  {arrangement : Arrangement} {c : Composition Float}

/-- The parts of a composed stencil are numbers, where it was composed. -/
theorem reflexive_parts_of_compose (h : shop.compose selection background arrangement = .ok c)
    (hs : c.stencil.IsWritable) {options : DecomposeOptions Float}
    (hside : Scalar.isFinite options.spotSize = true) :
    Reflexive (c.stencil.decompose options c.bounds).numbers := by
  obtain ⟨hw, hh, harea⟩ := size_of_compose h
  have hfw := hs.finite c.stencil.w (by simp [Stencil.numbers])
  have hfh := hs.finite c.stencil.h (by simp [Stencil.numbers])
  obtain ⟨hx, hy⟩ := isFinite_origin_of_compose h hfw hfh
  exact Stencil.reflexive_decompose hs.finite hside hx hy hw hh harea

end Workshop

/-! ## Cells -/

namespace Diagram

/-- New cells come after the others, under the next numbers. -/
theorem cells_insertAll {α : Type} (d : Diagram α) (cells : List (Cell α)) :
    (d.insertAll cells).cells = d.cells ++ (List.range' d.nextId cells.length).zip cells := by
  induction cells generalizing d with
  | nil => simp [insertAll]
  | cons cell cells ih =>
    rw [show d.insertAll (cell :: cells) = (d.insert cell).insertAll cells from rfl, ih, cells_insert,
      nextId_insert, List.length_cons, List.range'_succ, List.zip_cons_cons, List.append_assoc, List.singleton_append]

/-- A cell gives way to others, which come after all that stay. -/
theorem cells_exchange {α : Type} (d : Diagram α) (cells : List (Cell α)) {id : Nat} (h : id < d.nextId) :
    ((d.beginUpdate.insertAll cells).remove id).endUpdate.cells =
      d.cells.filter (·.1 != id) ++ (List.range' d.nextId cells.length).zip cells := by
  have hnew : ∀ c ∈ (List.range' d.nextId cells.length).zip cells, (c.1 != id) = true := by
    intro c hc
    have hle := (List.mem_range'_1.1 (List.of_mem_zip hc).1).1
    simp only [bne_iff_ne, ne_eq]
    omega
  rw [cells_endUpdate, cells_remove, cells_insertAll, List.filter_append]
  exact congrArg _ (List.filter_eq_self.2 hnew)

/-- The cell of a composition names the packed stencil. -/
theorem stencilAt_composed {d : Diagram Float} {id : Nat} {c : Composition Float} {style : String}
    (hstyle : c.style .base64 = .ok style) (hcell : d.get? id = some (.stencil c.bounds style)) :
    d.stencilAt id = .ok (.embedded (Token.pack c.stencil.text), c.bounds) := by
  obtain rfl := Except.ok.inj (c.style_base64.symm.trans hstyle)
  rw [stencilAt, hcell]
  simp only [ShapeRef.ofStyle?_packed]

/-- **The stencil cell of a composition can be split.** -/
theorem split_composed {d : Diagram Float} {id : Nat} {c : Composition Float} {style : String} (hid : id < d.nextId)
    (hstyle : c.style .base64 = .ok style) (hcell : d.get? id = some (.stencil c.bounds style))
    (hs : c.stencil.IsWritable) (hknown : c.stencil.isKnown = true) {editor : Editor}
    (hpacking : editor.library.packing = .base64) :
    ∃ parts d' ids, (editor.split id).run d = .ok ids d' ∧ ids = List.range' d.nextId parts.cells.length ∧
      d'.cells = d.cells.filter (·.1 != id) ++ ids.zip parts.cells ∧
      parts = (c.stencil.map plain).decompose editor.decomposing c.bounds := by
  have hparts := Library.decompose_packed hpacking hs hknown editor.decomposing c.bounds
  exact ⟨_, _, _, Editor.split_eq_ok.2 ⟨_, _, _, stencilAt_composed hstyle hcell, hparts, rfl, rfl⟩, rfl,
    cells_exchange d _ hid, rfl⟩

/-- **A merge can be undone by a split**, whatever was asked of the diagram before, and whatever the
split is made with, if both pack stencils in the usual way. If the composed stencil can be written, the split of
the merged cell succeeds, and takes the stencil cell out for the primitives and then the markers that the
composed stencil itself comes apart into, in order: number by number they are the same but for the signs of
zeros. With a finite size for spots no part holds anything that is not a number, and so the parts are equal. -/
theorem split_of_merge (maker : Editor) (cs : List Command) (editor splitter : Editor)
    (hpacking : editor.library.packing = .base64) (hunpacking : splitter.library.packing = .base64)
    (ids : List Nat) (background : Background) (arrangement : Arrangement) :
    let d := (empty.runAll maker cs).1
    ∀ numbers d', (editor.merge ids background arrangement).run d = .ok numbers d' →
      ∃ s c, d.select ids = .ok s ∧ editor.workshop.compose s.primitives background arrangement = .ok c ∧
        (c.stencil.IsWritable → ∃ parts fresh d'',
          let whole := c.stencil.decompose splitter.decomposing c.bounds
          (splitter.split numbers.stencil).run d' = .ok fresh d'' ∧
          fresh = List.range' d'.nextId parts.cells.length ∧
          d''.cells = d'.cells.filter (·.1 != numbers.stencil) ++ fresh.zip parts.cells ∧
          parts.map plain = whole.map plain ∧
          (Scalar.isFinite splitter.decomposing.spotSize = true → (whole == parts) = true)) := by
  intro d numbers d' hmerge
  have hd : Ledger d := Ledger.runAll .empty maker cs
  obtain ⟨s, c, style, hs, hc, hstyle, rfl, rfl⟩ := Editor.merge_eq_ok.1 hmerge
  refine ⟨s, c, hs, hc, ?_⟩
  intro hwritable
  obtain ⟨-, -, hin⟩ := select_ok hs
  have hcell := get?_replace hd (.stencil c.bounds style) s hin d.nextId
  rw [if_pos rfl] at hcell
  have hlt : d.nextId < (d.replace (.stencil c.bounds style) s).nextId := by
    rw [nextId_replace]
    omega
  rw [hpacking] at hstyle
  obtain ⟨parts, d'', fresh, hsplit, hfresh, hcells, hparts⟩ :=
    split_composed hlt hstyle hcell hwritable (Workshop.isKnown_of_compose hc) hunpacking
  have hplain : parts.map plain = (c.stencil.decompose splitter.decomposing c.bounds).map plain := by
    rw [hparts, Stencil.map_plain_decompose]
  refine ⟨parts, fresh, d'', hsplit, hfresh, hcells, hplain, ?_⟩
  intro hside
  have hnumbers := Workshop.reflexive_parts_of_compose hc hwritable hside
  exact Parts.beq_of_map Binary64.separates_plain hnumbers hplain.symm

/-- An editor with the usual options and no stencils of its own. -/
def plainEditor : Editor := ⟨Catalogue.empty.library, Hit.geometric Hit.strokeTolerance, .standard, .standard⟩

/-- The making of a diagram with a line that has a spot on it, and an ellipse. -/
def lineAndEllipse : List Command :=
  [.edit (.insert (.primitive (.edge ⟨.line, ⟨⟨0, -0.0⟩, [], ⟨4, 2⟩⟩⟩ {} false [⟨"a<b", .spot ⟨1, 1, 2, 2⟩⟩]))),
    .edit (.insert (.primitive (.stencil .ellipse ⟨6, 0, 3, 2⟩ {} false [])))]

/-- What the line and the ellipse come back as: the spot is as large as spots are made, about the same centre. -/
def lineAndEllipseParts : Parts Float :=
  ⟨[.edge ⟨.line, ⟨⟨0, 0⟩, [], ⟨4, 2⟩⟩⟩ {} false [], .stencil .ellipse ⟨6, 0, 3, 2⟩ {} false []],
    [⟨"a<b", .spot ⟨0, 0, 4, 4⟩⟩]⟩

/-- Whether a selection can be composed, and the composition passes a test. -/
def composes (d : Diagram Float) (editor : Editor) (ids : List Nat) (background : Background)
    (arrangement : Arrangement) (test : Composition Float → Bool) : Bool :=
  match d.select ids with
  | .ok s =>
    match editor.workshop.compose s.primitives background arrangement with
    | .ok c => test c
    | .error _ => false
  | .error _ => false

theorem exists_of_composes {d : Diagram Float} {editor : Editor} {ids : List Nat} {background : Background}
    {arrangement : Arrangement} {test : Composition Float → Bool}
    (h : d.composes editor ids background arrangement test = true) :
    ∃ s c, d.select ids = .ok s ∧ editor.workshop.compose s.primitives background arrangement = .ok c ∧
      test c = true := by
  unfold composes at h
  split at h
  · rename_i s hs
    split at h
    · rename_i c hc
      exact ⟨s, c, hs, hc, h⟩
    · cases h
  · cases h

theorem split_of_merge_lineAndEllipse :
    let d := (empty.runAll plainEditor lineAndEllipse).1
    ∃ s c numbers d' parts fresh d'',
      d.select [0, 1] = .ok s ∧ plainEditor.workshop.compose s.primitives .filled .shapes = .ok c ∧
      c.stencil.IsWritable ∧
      (plainEditor.merge [0, 1] .filled .shapes).run d = .ok numbers d' ∧
      (plainEditor.split numbers.stencil).run d' = .ok fresh d'' ∧
      d''.cells = d'.cells.filter (·.1 != numbers.stencil) ++ fresh.zip parts.cells ∧
      (c.stencil.decompose plainEditor.decomposing c.bounds == parts) = true ∧
      (lineAndEllipseParts == parts) = true := by
  intro d
  have hchecked : d.composes plainEditor [0, 1] .filled .shapes (fun c => decide <| c.stencil.IsWritable ∧
      lineAndEllipseParts.map plain = (c.stencil.decompose plainEditor.decomposing c.bounds).map plain) = true := by
    decide +kernel
  obtain ⟨s, c, hs, hc, htest⟩ := exists_of_composes hchecked
  obtain ⟨hwritable, hwhole⟩ := of_decide_eq_true htest
  have hmerge := Editor.merge_eq_ok.2 ⟨s, c, _, hs, hc, c.style_base64, rfl, rfl⟩
  obtain ⟨s', c', hs', hc', hsplit⟩ :=
    split_of_merge plainEditor lineAndEllipse plainEditor plainEditor rfl rfl [0, 1] .filled .shapes _ _ hmerge
  obtain rfl := Except.ok.inj (hs.symm.trans hs')
  obtain rfl := Except.ok.inj (hc.symm.trans hc')
  obtain ⟨parts, fresh, d'', h, -, hcells, hplain, hequal⟩ := hsplit hwritable
  have hnumbers : Reflexive lineAndEllipseParts.numbers := by unfold Reflexive; decide +kernel
  exact ⟨s, c, _, _, parts, fresh, d'', hs, hc, hwritable, hmerge, h, hcells, hequal (by decide),
    Parts.beq_of_map Binary64.separates_plain hnumbers (hwhole.trans hplain.symm)⟩

end Diagram

end StencilKit
