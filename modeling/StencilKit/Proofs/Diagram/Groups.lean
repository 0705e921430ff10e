/-
Groups and the cells that they list.

A group lists numbers, and nothing takes a number off a list: a cell that goes away is still listed by
the groups that stay. So whether every listed cell is there (`IsClosed`) is a matter of what goes, and
the same for every command: each gives up some cells, leaves the others as they are, and brings in new
ones that list only what is there (`Gives`). Then all listed cells are there afterwards just when every
group that lists a cell that goes away goes away itself.

* `Gives.isClosed_iff`: the rule, for any change of this form.
* `gives_replace`, `gives_exchange`, `gives_insert`, `gives_remove`: the form of each command.
* `isClosed_run`: one command; `isClosed_after`: any number of them.
-/
import StencilKit.Proofs.Diagram.Splitting

namespace StencilKit

namespace Diagram

variable {d d' : Diagram Float}

/-- Whether every cell that a group lists is there. -/
def IsClosed (d : Diagram Float) : Prop := ∀ group ∈ d.ids, ∀ child ∈ d.childrenOf group, child ∈ d.ids

instance (d : Diagram Float) : Decidable d.IsClosed :=
  inferInstanceAs (Decidable (∀ group ∈ d.ids, ∀ child ∈ d.childrenOf group, child ∈ d.ids))

theorem mem_ids_of_childrenOf {group child : Nat} (h : child ∈ d.childrenOf group) : group ∈ d.ids := by
  rw [← get?_isSome_iff]
  unfold childrenOf at h
  split at h
  · rename_i hg
    rw [hg]
    rfl
  · cases h

theorem childrenOf_congr {id : Nat} (h : d'.get? id = d.get? id) : d'.childrenOf id = d.childrenOf id := by
  rw [childrenOf, h, childrenOf]

theorem childrenOf_of_get?_eq_none {id : Nat} (h : d.get? id = none) : d.childrenOf id = [] := by
  rw [childrenOf, h]

/-- A change of a diagram: the given cells go, the others stay as they are, and those that are new list
only what is there. -/
structure Gives (d d' : Diagram Float) (gone : Nat → Prop) : Prop where
  away : ∀ id, gone id → d'.get? id = none
  kept : ∀ id ∈ d.ids, ¬ gone id → d'.get? id = d.get? id
  fresh : ∀ group, group ∉ d.ids → ∀ child ∈ d'.childrenOf group, child ∈ d'.ids

namespace Gives

variable {gone : Nat → Prop}

theorem mem_ids (h : Gives d d' gone) {id : Nat} (hid : id ∈ d.ids) (hg : ¬ gone id) : id ∈ d'.ids := by
  rw [← get?_isSome_iff, h.kept id hid hg]
  exact get?_isSome_iff.2 hid

/-- **When listed cells are there after a change**: when a group that lists a cell that goes away goes
away too. -/
theorem isClosed_iff (h : Gives d d' gone) (hd : d.IsClosed) :
    d'.IsClosed ↔ ∀ group child, child ∈ d.childrenOf group → gone child → gone group := by
  constructor
  · intro hd' group child hchild hgone
    by_contra hgroup
    have hmem := mem_ids_of_childrenOf hchild
    rw [← childrenOf_congr (h.kept group hmem hgroup)] at hchild
    have hin := hd' group (h.mem_ids hmem hgroup) child hchild
    rw [← get?_isSome_iff, h.away child hgone] at hin
    cases hin
  · intro hspared group _ child hchild
    by_cases hmem : group ∈ d.ids
    · have hgroup : ¬ gone group := by
        intro hg
        rw [childrenOf_of_get?_eq_none (h.away group hg)] at hchild
        cases hchild
      rw [childrenOf_congr (h.kept group hmem hgroup)] at hchild
      exact h.mem_ids (hd group hmem child hchild) fun hg => hgroup (hspared group child hchild hg)
    · exact h.fresh group hmem child hchild

end Gives

/-! ## The form of each command -/

/-- New cells have the next numbers. -/
theorem get?_insertAll (hd : Ledger d) (cells : List (Cell Float)) (id : Nat) :
    (d.insertAll cells).get? id = if id < d.nextId then d.get? id else cells[id - d.nextId]? := by
  induction cells generalizing d with
  | nil =>
    by_cases h : id < d.nextId
    · rw [if_pos h]
      rfl
    · rw [if_neg h, List.getElem?_nil]
      exact get?_eq_none_iff.2 fun hm => h (hd.below id hm)
  | cons cell cells ih =>
    have hfresh : d.nextId ∉ d.ids := fun hm => Nat.lt_irrefl _ (hd.below _ hm)
    rw [show d.insertAll (cell :: cells) = (d.insert cell).insertAll cells from rfl, ih (hd.insert cell),
      nextId_insert, get?_insert hfresh]
    rcases Nat.lt_trichotomy id d.nextId with h | h | h
    · rw [if_pos (by omega), if_neg (by omega), if_pos h]
    · rw [if_pos (by omega), if_pos h, if_neg (by omega), h, Nat.sub_self, List.getElem?_cons_zero]
    · rw [if_neg (by omega), if_neg (by omega), show id - d.nextId = id - (d.nextId + 1) + 1 by omega,
        List.getElem?_cons_succ]

/-- The parts of a stencil are no groups. -/
theorem not_group_of_parts {parts : Parts Float} {n : Nat} {children : List Nat} :
    parts.cells[n]? ≠ some (.group children) := by
  intro h
  have hm := List.mem_of_getElem? h
  simp [Parts.cells] at hm

/-- **The cells after one has given way to others**, which have the next numbers. -/
theorem get?_exchange (hd : Ledger d) (cells : List (Cell Float)) (gone id : Nat) :
    ((d.beginUpdate.insertAll cells).remove gone).endUpdate.get? id =
      if id = gone then none else if id < d.nextId then d.get? id else cells[id - d.nextId]? := by
  rw [get?_endUpdate, get?_remove, get?_insertAll hd.beginUpdate]
  rfl

/-- A split gives up the stencil cell. -/
theorem gives_exchange (hd : Ledger d) (parts : Parts Float) (id : Nat) :
    Gives d ((d.beginUpdate.insertAll parts.cells).remove id).endUpdate (· = id) := by
  have hget := get?_exchange hd parts.cells id
  refine ⟨fun n hn => by rw [hget, if_pos hn], fun n hn hne => ?_, fun n hn child hchild => ?_⟩
  · rw [hget, if_neg hne, if_pos (hd.below n hn)]
  · unfold childrenOf at hchild
    rw [hget] at hchild
    split at hchild
    · rename_i children hg
      split at hg
      · cases hg
      · split at hg
        · exact absurd (get?_isSome_iff.1 (by rw [hg]; rfl)) hn
        · exact absurd hg not_group_of_parts
    · cases hchild

theorem not_mem_childrenOf_of_stencilAt {id child : Nat} {shape : ShapeRef} {box : Box Float}
    (h : d.stencilAt id = .ok (shape, box)) : child ∉ d.childrenOf id := by
  unfold stencilAt at h
  unfold childrenOf
  split at h <;> simp_all

theorem mem_ids_of_holdsText {id : Nat} (h : d.holdsText id = true) : id ∈ d.ids := by
  rw [← get?_isSome_iff]
  unfold holdsText at h
  split at h
  · rename_i hg
    rw [hg]
    rfl
  · cases h

theorem selected_of_mem {ids : List Nat} {s : Selection} (h : d.select ids = .ok s) :
    ∀ id ∈ ids, ∃ p children, d.selected id = .ok (p, children) := by
  induction ids generalizing s with
  | nil => simp
  | cons n ids ih =>
    simp only [select, Xml.bind_eq_ok, Prod.exists] at h
    obtain ⟨p, children, hp, rest, hr, -⟩ := h
    intro id hid
    rcases List.mem_cons.1 hid with rfl | hid
    · exact ⟨p, children, hp⟩
    · exact ih hr id hid

theorem holdsText_of_member {id : Nat} {p : Primitive Float} (h : d.member id = .ok p) : d.holdsText id = false := by
  unfold member at h
  split at h
  · cases h
  · rename_i q hg
    split at h
    · rename_i hedge
      cases h
      cases p <;> simp_all [holdsText, Primitive.isText, Primitive.edge?]
    · cases h
  · cases h

/-- The children that go away with a selected group are edges, and so no texts. -/
theorem holdsText_of_selected {id : Nat} {p : Primitive Float} {children : List Nat}
    (h : d.selected id = .ok (p, children)) : ∀ child ∈ children, d.holdsText child = false := by
  unfold selected at h
  split at h
  · cases h
  · cases h
    simp
  · split at h <;> cases h
    simp
  · simp only [Xml.bind_eq_ok] at h
    obtain ⟨members, hm, h⟩ := h
    split at h
    · cases h
      intro child hchild
      obtain ⟨i, hi, rfl⟩ := List.mem_iff_getElem.1 hchild
      obtain ⟨hlength, hget⟩ := List.forall₂_iff_get.1 (forall₂_of_mapM hm)
      exact holdsText_of_member (hget i hi (hlength ▸ hi))
    · cases h
  · cases h

/-- **A merge never takes out a text.** -/
theorem holdsText_of_consumed {ids : List Nat} {s : Selection} (h : d.select ids = .ok s) {id : Nat}
    (hid : d.IsConsumed ids id) : d.holdsText id = false := by
  obtain ⟨-, htext⟩ | ⟨group, hgroup, hchild⟩ := hid
  · exact htext
  · obtain ⟨p, children, hp⟩ := selected_of_mem h group hgroup
    obtain ⟨-, -, rfl, -⟩ := selected_ok hp
    exact holdsText_of_selected hp id hchild

/-- A merge gives up what it consumes; the new group lists the stencil and texts, which stay. -/
theorem gives_replace (hd : Ledger d) {ids : List Nat} {s : Selection} (hs : d.select ids = .ok s) (box : Box Float)
    (style : String) : Gives d (d.replace (.stencil box style) s) (d.IsConsumed ids) := by
  obtain ⟨htexts, hconsumed, hin⟩ := select_ok hs
  have hget := get?_replace hd (.stencil box style) s hin
  have hkept : ∀ n ∈ d.ids, ¬ d.IsConsumed ids n → (d.replace (.stencil box style) s).get? n = d.get? n := by
    intro n hn hne
    have := hd.below n hn
    rw [hget, if_neg (by omega), if_neg (by omega), if_neg fun hm => hne ((hconsumed n).1 hm)]
  have hlisted : ∀ child ∈ d.nextId :: s.texts, child ∈ (d.replace (.stencil box style) s).ids := by
    intro child hchild
    rw [← get?_isSome_iff]
    rcases List.mem_cons.1 hchild with rfl | hchild
    · rw [hget, if_pos rfl]
      rfl
    · rw [htexts, List.mem_filter] at hchild
      have htext : ¬ d.IsConsumed ids child := by
        intro hc
        have := holdsText_of_consumed hs hc
        simp [hchild.2] at this
      have hmem := mem_ids_of_holdsText hchild.2
      rw [hkept child hmem htext]
      exact get?_isSome_iff.2 hmem
  refine ⟨fun n hn => ?_, hkept, fun n hn child hchild => ?_⟩
  · have := hd.below n (hin n ((hconsumed n).2 hn))
    rw [hget, if_neg (by omega), if_neg (by omega), if_pos ((hconsumed n).2 hn)]
  · -- Of the new cells only the group lists anything.
    refine hlisted child ?_
    unfold childrenOf at hchild
    rw [hget, get?_eq_none_iff.2 hn, ite_self] at hchild
    by_cases h0 : n = d.nextId
    · rw [if_pos h0] at hchild
      cases hchild
    · by_cases h1 : n = d.nextId + 1
      · rw [if_neg h0, if_pos h1] at hchild
        cases ht : s.texts.isEmpty with
        | true =>
          rw [ht, if_pos rfl] at hchild
          cases hchild
        | false =>
          rw [ht, if_neg Bool.false_ne_true] at hchild
          exact hchild
      · rw [if_neg h0, if_neg h1] at hchild
        cases hchild

/-- A new cell gives up nothing. -/
theorem gives_insert (hd : Ledger d) {cell : Cell Float}
    (h : ∀ children, cell = .group children → ∀ child ∈ children, child ∈ d.ids ∨ child = d.nextId) :
    Gives d (d.insert cell) fun _ => False := by
  have hfresh : d.nextId ∉ d.ids := fun hm => Nat.lt_irrefl _ (hd.below _ hm)
  have hget := get?_insert hfresh cell
  refine ⟨fun _ => False.elim, fun n hn _ => ?_, fun n hn child hchild => ?_⟩
  · have := hd.below n hn
    rw [hget, if_neg (by omega)]
  · rw [ids_insert, List.mem_append, List.mem_singleton]
    unfold childrenOf at hchild
    rw [hget, get?_eq_none_iff.2 hn] at hchild
    by_cases h0 : n = d.nextId
    · rw [if_pos h0] at hchild
      cases cell with
      | group children => exact h children rfl child hchild
      | _ => cases hchild
    · rw [if_neg h0] at hchild
      cases hchild

theorem gives_remove (d : Diagram Float) (id : Nat) : Gives d (d.remove id) (· = id) := by
  refine ⟨fun n hn => by rw [get?_remove, if_pos hn], fun n _ hne => by rw [get?_remove, if_neg hne],
    fun n hn child hchild => ?_⟩
  rw [childrenOf_of_get?_eq_none] at hchild
  · cases hchild
  · rw [get?_remove, get?_eq_none_iff.2 hn, ite_self]

theorem isClosed_endUpdate_iff : d.endUpdate.IsClosed ↔ d.IsClosed := by
  simp only [IsClosed, childrenOf, ids, cells_endUpdate, get?_endUpdate]

/-! ## Commands -/

instance (d : Diagram Float) (ids : List Nat) (id : Nat) : Decidable (d.IsConsumed ids id) :=
  inferInstanceAs (Decidable (_ ∨ ∃ group ∈ ids, id ∈ d.childrenOf group))

/-- Whether a command takes out no cell that a group lists which stays, and makes no group that lists
what is not there. -/
def Spares (d : Diagram Float) : Command → Prop
  | .merge ids _ _ =>
    ∀ group ∈ d.ids, ∀ child ∈ d.childrenOf group, d.IsConsumed ids child → d.IsConsumed ids group
  | .split id => ∀ group ∈ d.ids, id ∉ d.childrenOf group
  | .edit (.insert (.group children)) => ∀ child ∈ children, child ∈ d.ids ∨ child = d.nextId
  | .edit (.remove id) => ∀ group ∈ d.ids, id ∈ d.childrenOf group → group = id
  | .edit _ | .look _ => True

/-- **Merges that keep every listed cell.** -/
theorem isClosed_replace_iff (hd : Ledger d) (hclosed : d.IsClosed) {ids : List Nat} {s : Selection}
    (hs : d.select ids = .ok s) (box : Box Float) (style : String) :
    (d.replace (.stencil box style) s).IsClosed ↔
      ∀ group ∈ d.ids, ∀ child ∈ d.childrenOf group, d.IsConsumed ids child → d.IsConsumed ids group := by
  rw [(gives_replace hd hs box style).isClosed_iff hclosed]
  exact ⟨fun h group _ child => h group child, fun h group child hc => h group (mem_ids_of_childrenOf hc) child hc⟩

/-- **Splits that keep every listed cell.** A stencil lists nothing, and so not itself. -/
theorem isClosed_exchange_iff (hd : Ledger d) (hclosed : d.IsClosed) {id : Nat} {shape : ShapeRef} {box : Box Float}
    (hat : d.stencilAt id = .ok (shape, box)) (parts : Parts Float) :
    ((d.beginUpdate.insertAll parts.cells).remove id).endUpdate.IsClosed ↔
      ∀ group ∈ d.ids, id ∉ d.childrenOf group := by
  rw [(gives_exchange hd parts id).isClosed_iff hclosed]
  constructor
  · intro h group _ hchild
    obtain rfl := h group id hchild rfl
    exact absurd hchild (not_mem_childrenOf_of_stencilAt hat)
  · rintro h group _ hchild rfl
    exact absurd hchild (h group (mem_ids_of_childrenOf hchild))

/-- **One command.** -/
theorem isClosed_run (hd : Ledger d) (hclosed : d.IsClosed) (editor : Editor) {c : Command} (h : d.Spares c) :
    (d.run editor c).1.IsClosed := by
  cases c with
  | look id => exact hclosed
  | edit e =>
    cases e with
    | insert cell =>
      refine ((gives_insert hd ?_).isClosed_iff hclosed).2 fun _ _ _ hg => hg.elim
      rintro children rfl
      exact h
    | remove id =>
      refine ((gives_remove d id).isClosed_iff hclosed).2 ?_
      rintro group _ hchild rfl
      exact h group (mem_ids_of_childrenOf hchild) hchild
    | beginUpdate => exact hclosed
    | endUpdate => exact isClosed_endUpdate_iff.2 hclosed
  | merge ids background arrangement =>
    rcases run_merge_cases d editor ids background arrangement with ⟨f, hrun⟩ | ⟨s, c, style, hs, -, hrun⟩
    · rw [hrun]
      exact hclosed
    · rw [hrun]
      exact (isClosed_replace_iff hd hclosed hs c.bounds style).2 h
  | split id =>
    rcases run_split_cases d editor id with ⟨f, hrun⟩ | ⟨shape, box, parts, hat, hrun⟩
    · rw [hrun]
      exact hclosed
    · rw [hrun]
      exact (isClosed_exchange_iff hd hclosed hat parts).2 h

/-! ## Runs -/

/-- The diagram after a list of commands, each given in an editor of its own. -/
def after (d : Diagram Float) : List (Editor × Command) → Diagram Float
  | [] => d
  | (editor, c) :: steps => (d.run editor c).1.after steps

theorem Ledger.after (hd : Ledger d) (steps : List (Editor × Command)) : Ledger (d.after steps) := by
  induction steps generalizing d with
  | nil => exact hd
  | cons step steps ih => exact ih (hd.run step.1 step.2)

/-- Whether each command of a list spares what groups list, at its turn. -/
def SparesAll (d : Diagram Float) : List (Editor × Command) → Prop
  | [] => True
  | (editor, c) :: steps => d.Spares c ∧ (d.run editor c).1.SparesAll steps

theorem isClosed_after (hd : Ledger d) (hclosed : d.IsClosed) {steps : List (Editor × Command)}
    (h : d.SparesAll steps) : (d.after steps).IsClosed := by
  induction steps generalizing d with
  | nil => exact hclosed
  | cons step steps ih => exact ih (hd.run step.1 step.2) (isClosed_run hd hclosed step.1 h.1) h.2

/-- **When the cells that groups list are there**, after merges and splits of any diagram in which they
were. After a merge: just when every group that lists a cell which goes away goes away too. After a
split: just when no group lists the stencil. And so after any number of commands that spare what groups
list. -/
theorem isClosed_of_merge_of_split (steps : List (Editor × Command)) :
    let d := empty.after steps
    d.IsClosed →
      (∀ (editor : Editor) ids background arrangement numbers d',
        (editor.merge ids background arrangement).run d = .ok numbers d' →
        (d'.IsClosed ↔
          ∀ group ∈ d.ids, ∀ child ∈ d.childrenOf group, d.IsConsumed ids child → d.IsConsumed ids group)) ∧
      (∀ (editor : Editor) id ids d', (editor.split id).run d = .ok ids d' →
        (d'.IsClosed ↔ ∀ group ∈ d.ids, id ∉ d.childrenOf group)) ∧
      ∀ later, d.SparesAll later → (d.after later).IsClosed := by
  intro d hclosed
  have hd : Ledger d := Ledger.empty.after steps
  refine ⟨fun editor ids background arrangement numbers d' hm => ?_, fun editor id ids d' hs => ?_,
    fun later => isClosed_after hd hclosed⟩
  · obtain ⟨s, c, style, hs, -, -, rfl, -⟩ := Editor.merge_eq_ok.1 hm
    exact isClosed_replace_iff hd hclosed hs c.bounds style
  · obtain ⟨_, _, parts, hat, -, rfl, -⟩ := Editor.split_eq_ok.1 hs
    exact isClosed_exchange_iff hd hclosed hat parts

/-- The making of a diagram with a group of two lines, and one of an ellipse and a text. -/
def groupedCells : List (Editor × Command) :=
  [.primitive (.edge ⟨.line, ⟨⟨0, 0⟩, [], ⟨4, 3⟩⟩⟩ {} false []),
    .primitive (.edge ⟨.line, ⟨⟨4, 3⟩, [], ⟨8, 0⟩⟩⟩ {} false []),
    .group [0, 1], .stencil ⟨6, 0, 3, 2⟩ "shape=ellipse;", .primitive (.text "a" ⟨0, 0, 2, 1⟩ {}),
    .group [3, 4]].map fun cell => (plainEditor, .edit (.insert cell))

theorem isClosed_of_merge_of_split_groupedCells :
    (empty.after groupedCells).IsClosed ∧
      ∃ numbers d', (plainEditor.merge [2, 4] .filled .shapes).run (empty.after groupedCells) = .ok numbers d' ∧
        d'.IsClosed := by
  have hclosed : (empty.after groupedCells).IsClosed := by decide +kernel
  have hok : Editing.achieves (plainEditor.merge [2, 4] .filled .shapes) (empty.after groupedCells)
      (fun _ _ => true) = true := by
    decide +kernel
  obtain ⟨numbers, d', hm, -⟩ := Editing.exists_of_achieves hok
  exact ⟨hclosed, numbers, d', hm,
    ((isClosed_of_merge_of_split groupedCells hclosed).1 _ _ _ _ _ _ hm).2 (by decide +kernel)⟩

/-- A line of a group that is merged without the group is still listed by it, and so is a stencil of a
group that is split. -/
theorem not_isClosed_of_listed :
    (empty.after groupedCells).IsClosed ∧
      (∃ numbers d', (plainEditor.merge [0] .filled .shapes).run (empty.after groupedCells) = .ok numbers d' ∧
        ¬ d'.IsClosed) ∧
      ∃ ids d', (plainEditor.split 3).run (empty.after groupedCells) = .ok ids d' ∧ ¬ d'.IsClosed := by
  have hmerge : Editing.achieves (plainEditor.merge [0] .filled .shapes) (empty.after groupedCells)
      (fun _ d' => decide ¬ d'.IsClosed) = true := by
    decide +kernel
  have hsplit : Editing.achieves (plainEditor.split 3) (empty.after groupedCells)
      (fun _ d' => decide ¬ d'.IsClosed) = true := by
    decide +kernel
  obtain ⟨numbers, d₁, hd₁, hopen₁⟩ := Editing.exists_of_achieves hmerge
  obtain ⟨ids, d₂, hd₂, hopen₂⟩ := Editing.exists_of_achieves hsplit
  exact ⟨by decide +kernel, ⟨numbers, d₁, hd₁, of_decide_eq_true hopen₁⟩, ids, d₂, hd₂, of_decide_eq_true hopen₂⟩

end Diagram

end StencilKit
