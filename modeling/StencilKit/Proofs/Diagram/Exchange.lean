/-
A split is all or nothing.

A split fails for one of a few reasons (`Bars`), all of them found before anything is changed, and a split that
fails is as good as never asked for. A split that succeeds brings in the parts of the stencil under the next
numbers, takes out the stencil cell, and leaves all else alone; and the record of the diagram grows by these
changes and no others, as one batch, even when the stencil has no parts.

* `record_exchange`: what is recorded when a cell gives way to others.
* `split_eq_error`: the reasons why a cell cannot be split.
* `map_get?_exchange`, `get?_exchange_of_not_mem`: which cells there are after it has given way.
-/
import StencilKit.Proofs.Diagram.Groups

namespace StencilKit.Diagram

/-! ## What is recorded -/

/-- In an open update each new cell is recorded, in order. -/
theorem pending_insertAll {α : Type} {d : Diagram α} (h : 0 < d.level) (cells : List (Cell α)) :
    (d.insertAll cells).pending = d.pending ++ (List.range' d.nextId cells.length).map .inserted ∧
      (d.insertAll cells).history = d.history := by
  induction cells generalizing d with
  | nil => exact ⟨(List.append_nil _).symm, rfl⟩
  | cons cell cells ih =>
    obtain ⟨hp, hh⟩ := pending_insert h cell
    obtain ⟨hp', hh'⟩ := ih (d := d.insert cell) (by rwa [level_insert])
    rw [show d.insertAll (cell :: cells) = (d.insert cell).insertAll cells from rfl]
    refine ⟨?_, hh'.trans hh⟩
    rw [hp', hp, nextId_insert, List.length_cons, List.range'_succ, List.map_cons, List.append_assoc,
      List.singleton_append]

/-- The changes that are recorded when a cell gives way to `n` others. -/
def exchangeBatch {α : Type} (d : Diagram α) (n id : Nat) : List Change :=
  (List.range' d.nextId n).map .inserted ++ [.removed id]

/-- **The record of an exchange** is one batch, which is committed unless an update is open around it. -/
theorem record_exchange {α : Type} {d : Diagram α} (hd : Ledger d) (cells : List (Cell α)) {id : Nat}
    (hid : id ∈ d.ids) :
    let d' := ((d.beginUpdate.insertAll cells).remove id).endUpdate
    d'.level = d.level ∧
      if d.level = 0 then d'.history = d.history ++ [d.exchangeBatch cells.length id] ∧ d'.pending = []
      else d'.history = d.history ∧ d'.pending = d.pending ++ d.exchangeBatch cells.length id := by
  intro d'
  have hbegun : 0 < d.beginUpdate.level := Nat.succ_pos _
  obtain ⟨hpending, hhistory⟩ := pending_insertAll hbegun cells
  have hlevel := level_insertAll d.beginUpdate cells
  have hin : id ∈ (d.beginUpdate.insertAll cells).ids := by
    rw [ids, cells_insertAll, List.map_append]
    exact List.mem_append_left _ hid
  obtain ⟨hp, hh⟩ := pending_remove (hbegun.trans_eq hlevel.symm) hin
  -- The diagram before the update is closed.
  obtain ⟨e, he, hel, hep, heh⟩ : ∃ e : Diagram α, (d.beginUpdate.insertAll cells).remove id = e ∧
      e.level = d.level + 1 ∧ e.pending = d.pending ++ d.exchangeBatch cells.length id ∧ e.history = d.history := by
    refine ⟨_, rfl, (level_remove _ id).trans hlevel, ?_, hh.trans hhistory⟩
    rw [hp, hpending, List.append_assoc]
    rfl
  have hne : e.pending ≠ [] := by simp [hep, exchangeBatch]
  refine ⟨by simp [d'], ?_⟩
  have hclosed : d' = e.endUpdate := congrArg endUpdate he
  rw [hclosed, endUpdate_eq hel hne]
  by_cases h0 : d.level = 0
  · simp [h0, hep, heh, hd.settled h0]
  · simp [h0, hep, heh]

/-! ## Why a cell cannot be split -/

variable {d : Diagram Float}

/-- What keeps a cell from being split: it is not there, it is no stencil, its style names no shape, or the shape
that it names leads nowhere. -/
inductive Bars (d : Diagram Float) (library : Library) (id : Nat) : Failure Float → Prop
  | missing : d.get? id = none → Bars d library id (.unknownCell id)
  | other {cell : Cell Float} : d.get? id = some cell → (∀ box style, cell ≠ .stencil box style) →
    Bars d library id (.notAStencil id)
  | shapeless {box : Box Float} {style : String} : d.get? id = some (.stencil box style) →
    ShapeRef.ofStyle? style = none → Bars d library id (.notAStencil id)
  | unresolved {box : Box Float} {style : String} {shape : ShapeRef} {f : Failure Float} :
    d.get? id = some (.stencil box style) → ShapeRef.ofStyle? style = some shape →
    library.resolve shape = .error f → Bars d library id f

theorem stencilAt_eq_ok {id : Nat} {shape : ShapeRef} {box : Box Float} :
    d.stencilAt id = .ok (shape, box) ↔
      ∃ style, d.get? id = some (.stencil box style) ∧ ShapeRef.ofStyle? style = some shape := by
  unfold stencilAt
  rcases d.get? id with _ | p | m | ⟨box', style'⟩ | children
  case some.stencil =>
    dsimp only
    cases hstyle : ShapeRef.ofStyle? style' with
    | none => simp [hstyle]
    | some shape' => simp [hstyle, and_comm, eq_comm]
  all_goals simp

theorem stencilAt_eq_error {id : Nat} {f : Failure Float} (library : Library) (h : d.stencilAt id = .error f) :
    Bars d library id f := by
  unfold stencilAt at h
  split at h
  · rename_i hcell
    cases h
    exact .missing hcell
  · rename_i hcell
    split at h
    · cases h
    · rename_i hstyle
      cases h
      exact .shapeless hcell hstyle
  · rename_i cell hother hcell
    cases h
    refine .other hcell ?_
    rintro box style rfl
    exact hother box style rfl

theorem Bars.stencilAt_or_decompose {library : Library} {options : DecomposeOptions Float} {id : Nat} {f : Failure Float}
    (h : d.Bars library id f) :
    d.stencilAt id = .error f ∨ ∃ shape box, d.stencilAt id = .ok (shape, box) ∧
      library.decompose shape options box = .error f := by
  cases h with
  | missing hcell =>
    rw [stencilAt, hcell]
    exact .inl rfl
  | @other cell hcell hother =>
    rw [stencilAt, hcell]
    cases cell with
    | stencil box style => exact absurd rfl (hother box style)
    | _ => exact .inl rfl
  | shapeless hcell hstyle =>
    rw [stencilAt, hcell]
    dsimp only
    rw [hstyle]
    exact .inl rfl
  | unresolved hcell hstyle hresolve =>
    refine .inr ⟨_, _, stencilAt_eq_ok.2 ⟨_, hcell, hstyle⟩, ?_⟩
    show (library.resolve _).map _ = _
    rw [hresolve]
    rfl

/-- **All that can keep a cell from being split.** -/
theorem split_eq_error {editor : Editor} {id : Nat} {f : Failure Float} :
    (editor.split id).run d = .error f d ↔ d.Bars editor.library id f := by
  simp only [Editor.split, Editing.bind_eq_error, Editing.work, Editing.look_eq_ok, Editing.look_eq_error,
    Editing.run_exchange, and_true]
  constructor
  · rintro (hcell | ⟨⟨shape, box⟩, _, ⟨hcell, rfl⟩, ⟨hparts, -⟩ | ⟨parts, _, -, h⟩⟩)
    · exact stencilAt_eq_error _ hcell
    · obtain ⟨style, hget, hstyle⟩ := stencilAt_eq_ok.1 hcell
      exact .unresolved hget hstyle (map_eq_error hparts)
    · cases h
  · intro h
    rcases h.stencilAt_or_decompose with hcell | ⟨shape, box, hcell, hparts⟩
    · exact .inl hcell
    · exact .inr ⟨(shape, box), d, ⟨hcell, rfl⟩, .inl ⟨hparts, rfl⟩⟩

/-! ## Splits -/

/-- The new cells are found under their numbers, in order. -/
theorem map_get?_exchange (hd : Ledger d) (cells : List (Cell Float)) {id : Nat} (hid : id ∈ d.ids) :
    (List.range' d.nextId cells.length).map ((d.beginUpdate.insertAll cells).remove id).endUpdate.get? =
      cells.map some := by
  have hlt : id < d.nextId := hd.below id hid
  refine List.ext_getElem (by simp) fun k hk hk' => ?_
  have hk : k < cells.length := by simpa using hk'
  simp only [List.getElem_map, List.getElem_range', Nat.one_mul]
  rw [get?_exchange hd, if_neg (by omega), if_neg (by omega), Nat.add_sub_cancel_left, List.getElem?_eq_getElem hk]

/-- Every cell but the one that went and the new ones is as it was. -/
theorem get?_exchange_of_not_mem (hd : Ledger d) (cells : List (Cell Float)) {id n : Nat} (hne : n ≠ id)
    (hn : n ∉ List.range' d.nextId cells.length) :
    ((d.beginUpdate.insertAll cells).remove id).endUpdate.get? n = d.get? n := by
  rw [get?_exchange hd, if_neg hne]
  by_cases hold : n < d.nextId
  · rw [if_pos hold]
  · rw [List.mem_range'_1] at hn
    have hbeyond : cells.length ≤ n - d.nextId := by omega
    rw [if_neg hold, List.getElem?_eq_none hbeyond]
    exact (get?_eq_none_iff.2 fun hin => hold (hd.below n hin)).symm

/-- **A split is all or nothing.** Whatever was asked of a diagram before, a split that fails does so because
something bars it, and leaves the diagram as it is. One that succeeds takes the stencil that the cell's style
names apart in the cell's box, puts its primitives and then its markers under the next numbers, none of which was
in use, and takes the stencil cell out; every other cell stays. The changes it records are the insertions, in
order, and the removal; together they are one batch, or pending in the update that is open. -/
theorem split_all_or_nothing (steps : List (Editor × Command)) (editor : Editor) (id : Nat) :
    let d := empty.after steps
    match (editor.split id).run d with
    | .error f d' => d' = d ∧ d.run editor (.split id) = (d, .failed f) ∧ d.Bars editor.library id f
    | .ok ids d' =>
      d.run editor (.split id) = (d', .split ids) ∧
      ∃ box style shape parts, d.get? id = some (.stencil box style) ∧ ShapeRef.ofStyle? style = some shape ∧
        editor.library.decompose shape editor.decomposing box = .ok parts ∧
        ids = List.range' d.nextId (parts.primitives.length + parts.markers.length) ∧
        ids.map d'.get? = (parts.primitives.map Cell.primitive ++ parts.markers.map Cell.marker).map some ∧
        (∀ n ∈ ids, d.get? n = none) ∧
        d'.get? id = none ∧
        (∀ n, n ≠ id → n ∉ ids → d'.get? n = d.get? n) ∧
        d'.nextId = d.nextId + ids.length ∧
        d'.level = d.level ∧
        let batch := ids.map Change.inserted ++ [.removed id]
        if d.level = 0 then d'.history = d.history ++ [batch] ∧ d'.pending = []
        else d'.history = d.history ∧ d'.pending = d.pending ++ batch := by
  intro d
  have hd : Ledger d := Ledger.empty.after steps
  rcases hs : (editor.split id).run d with ⟨ids, d'⟩ | ⟨f, d'⟩
  · obtain ⟨shape, box, parts, hat, hparts, rfl, rfl⟩ := Editor.split_eq_ok.1 hs
    obtain ⟨style, hcell, hstyle⟩ := stencilAt_eq_ok.1 hat
    have hmem : id ∈ d.ids := get?_isSome_iff.1 (by rw [hcell]; rfl)
    have hlength : parts.cells.length = parts.primitives.length + parts.markers.length := by simp [Parts.cells]
    obtain ⟨hlevel, hrecord⟩ := record_exchange hd parts.cells hmem
    refine ⟨Editing.perform_map_of_ok .split hs, box, style, shape, parts, hcell, hstyle, hparts, by rw [hlength],
      map_get?_exchange hd parts.cells hmem, ?_, by rw [get?_exchange hd, if_pos rfl],
      fun n hne hn => get?_exchange_of_not_mem hd parts.cells hne hn, ?_, hlevel, hrecord⟩
    · intro n hn
      rw [List.mem_range'_1] at hn
      exact get?_eq_none_iff.2 fun hin => absurd (hd.below n hin) (by omega)
    · rw [List.length_range']
      simp
  · obtain rfl : d' = d := editor.allOrNothing_split id hs
    exact ⟨rfl, Editing.perform_map_of_error .split hs, split_eq_error.1 hs⟩

end StencilKit.Diagram
