/-
The history of a diagram accounts for its cells.

Read from the oldest committed batch to the last pending change, the record of a diagram says which
numbers are in use: an insertion puts one in, a removal takes it out. That this comes to the numbers
of the cells that are there depends on three more things, and so they are kept together (`Ledger`):
a number that was never handed out occurs nowhere; a number is put in once and taken out at most
once, in this order; and nothing is pending unless an update is open, so a change that is a batch of
its own comes after all the others.

* `Ledger.insert`, `Ledger.remove`, `Ledger.beginUpdate`, `Ledger.endUpdate`: what one step keeps;
  from these `Ledger.apply`, `Ledger.replace` and `Ledger.run`.
* `ids_run`: a command hands out the next numbers, in order.
* `level_runAll`: which updates are open, by the calls that open and close them.
-/
import Mathlib.Data.Finset.Basic
import Mathlib.Data.Finset.Dedup
import Mathlib.Data.List.Count
import StencilKit.Proofs.Diagram.Editing

namespace StencilKit

namespace Change

/-- The numbers in use after a change. -/
def act (present : Finset Nat) : Change → Finset Nat
  | inserted id => insert id present
  | removed id => present.erase id

/-- The numbers in use after changes that start from nothing. -/
def replay (cs : List Change) : Finset Nat := cs.foldl act ∅

theorem replay_append_inserted (cs : List Change) (id : Nat) :
    replay (cs ++ [inserted id]) = insert id (replay cs) := by
  simp [replay, act]

theorem replay_append_removed (cs : List Change) (id : Nat) :
    replay (cs ++ [removed id]) = (replay cs).erase id := by
  simp [replay, act]

/-- What is in use was put in. -/
theorem inserted_of_mem_replay {cs : List Change} {id : Nat} (h : id ∈ replay cs) : inserted id ∈ cs := by
  induction cs using List.reverseRecOn with
  | nil => simp [replay] at h
  | append_singleton cs c ih =>
    cases c with
    | inserted n =>
      rw [replay_append_inserted, Finset.mem_insert] at h
      rcases h with rfl | h
      · simp
      · exact List.mem_append_left _ (ih h)
    | removed n =>
      rw [replay_append_removed, Finset.mem_erase] at h
      exact List.mem_append_left _ (ih h.2)

end Change

namespace Diagram

variable {α : Type}

/-- All recorded changes, the oldest first. -/
def changes (d : Diagram α) : List Change := d.history.flatten ++ d.pending

/-- What holds between the cells of a diagram and its record. -/
structure Ledger (d : Diagram α) : Prop where
  replay : Change.replay d.changes = d.ids.toFinset
  ascending : d.ids.Pairwise (· < ·)
  below : ∀ id ∈ d.ids, id < d.nextId
  inserted_lt : ∀ {id}, .inserted id ∈ d.changes → id < d.nextId
  inserted_once : ∀ id, d.changes.count (.inserted id) ≤ 1
  removed_once : ∀ id, d.changes.count (.removed id) ≤ 1
  removed_gone : ∀ {id}, .removed id ∈ d.changes → id ∉ d.ids
  removed_after : ∀ {before id after}, d.changes = before ++ .removed id :: after → .inserted id ∈ before
  batches : ∀ batch ∈ d.history, batch ≠ []
  settled : d.level = 0 → d.pending = []

theorem Ledger.empty : Ledger (empty : Diagram α) := by
  constructor <;> simp [Diagram.empty, changes, ids, Change.replay]

/-! ## What one step does -/

theorem get?_isSome_iff {d : Diagram α} {id : Nat} : (d.get? id).isSome ↔ id ∈ d.ids := by
  simp only [get?, ids]
  induction d.cells with
  | nil => simp
  | cons c cells ih =>
    rw [List.lookup_cons, List.map_cons, List.mem_cons]
    by_cases hc : id = c.1
    · simp [hc]
    · have hb : (id == c.1) = false := by simpa using hc
      simp only [hb, ih, hc, false_or]

/-- A change is recorded after all the others. -/
theorem changes_record {d : Diagram α} (h : d.level = 0 → d.pending = []) (c : Change) :
    (d.record c).changes = d.changes ++ [c] := by
  unfold record isUpdating changes
  by_cases hl : 0 < d.level
  · simp [hl, List.append_assoc]
  · simp [hl, h (by omega)]

@[simp] theorem cells_record (d : Diagram α) (c : Change) : (d.record c).cells = d.cells := by
  unfold record; split <;> rfl

@[simp] theorem ids_record (d : Diagram α) (c : Change) : (d.record c).ids = d.ids := by
  simp [ids]

@[simp] theorem level_record (d : Diagram α) (c : Change) : (d.record c).level = d.level := by
  unfold record; split <;> rfl

theorem history_record {d : Diagram α} {c : Change} (h : ∀ batch ∈ d.history, batch ≠ []) :
    ∀ batch ∈ (d.record c).history, batch ≠ [] := by
  unfold record
  split
  · exact h
  · intro batch hb
    simp only [List.mem_append, List.mem_singleton] at hb
    rcases hb with hb | rfl
    · exact h batch hb
    · simp

theorem settled_record {d : Diagram α} {c : Change} (h : d.level = 0 → d.pending = []) :
    (d.record c).level = 0 → (d.record c).pending = [] := by
  unfold record isUpdating
  split
  · rename_i hl
    intro h0
    simp only [decide_eq_true_eq] at hl
    exact absurd h0 (by simp; omega)
  · exact h

@[simp] theorem cells_insert (d : Diagram α) (cell : Cell α) :
    (d.insert cell).cells = d.cells ++ [(d.nextId, cell)] := by
  simp [insert]

@[simp] theorem ids_insert (d : Diagram α) (cell : Cell α) : (d.insert cell).ids = d.ids ++ [d.nextId] := by
  simp [ids]

@[simp] theorem changes_endUpdate (d : Diagram α) : d.endUpdate.changes = d.changes := by
  unfold endUpdate changes
  split
  · rfl
  · split <;> simp_all
  · rfl

@[simp] theorem cells_endUpdate (d : Diagram α) : d.endUpdate.cells = d.cells := by
  unfold endUpdate
  split
  · rfl
  · split <;> rfl
  · rfl

theorem changes_insert {d : Diagram α} (h : d.level = 0 → d.pending = []) (cell : Cell α) :
    (d.insert cell).changes = d.changes ++ [.inserted d.nextId] :=
  changes_record (d := { d with cells := d.cells ++ [(d.nextId, cell)], nextId := d.nextId + 1 }) h _

/-- A cell that is there is taken out, with a record of it. -/
theorem remove_eq {d : Diagram α} {id : Nat} (h : id ∈ d.ids) :
    d.remove id = { d with cells := d.cells.filter (·.1 != id) }.record (.removed id) := by
  rw [remove, if_pos (get?_isSome_iff.2 h)]

theorem remove_eq_self {d : Diagram α} {id : Nat} (h : id ∉ d.ids) : d.remove id = d := by
  rw [remove, if_neg (mt get?_isSome_iff.1 h)]

theorem changes_remove {d : Diagram α} (h : d.level = 0 → d.pending = []) {id : Nat} (hm : id ∈ d.ids) :
    (d.remove id).changes = d.changes ++ [.removed id] := by
  rw [remove_eq hm]
  exact changes_record (d := { d with cells := d.cells.filter (·.1 != id) }) h _

theorem cells_remove (d : Diagram α) (id : Nat) : (d.remove id).cells = d.cells.filter (·.1 != id) := by
  by_cases h : id ∈ d.ids
  · simp [remove_eq h]
  · rw [remove_eq_self h]
    refine (List.filter_eq_self.2 ?_).symm
    intro c hc
    simp only [bne_iff_ne, ne_eq]
    rintro rfl
    exact h (List.mem_map_of_mem hc)

theorem ids_remove {d : Diagram α} (id : Nat) : (d.remove id).ids = d.ids.filter (· != id) := by
  rw [ids, cells_remove, ids, List.filter_map, Function.comp_def]

/-! ## What one step keeps -/

namespace Ledger

variable {d : Diagram α}

/-- What is in use was put in, as far as the record goes. -/
theorem inserted_mem (h : Ledger d) {id : Nat} (hm : id ∈ d.ids) : .inserted id ∈ d.changes :=
  Change.inserted_of_mem_replay (by rw [h.replay]; exact List.mem_toFinset.2 hm)

theorem beginUpdate (h : Ledger d) : Ledger d.beginUpdate :=
  { h with settled := fun h0 => absurd h0 (by simp [Diagram.beginUpdate]) }

theorem endUpdate (h : Ledger d) : Ledger d.endUpdate where
  replay := by rw [changes_endUpdate, h.replay, ids, ids, cells_endUpdate]
  ascending := by rw [ids, cells_endUpdate]; exact h.ascending
  below := by rw [ids, cells_endUpdate, nextId_endUpdate]; exact h.below
  inserted_lt hm := by rw [nextId_endUpdate]; rw [changes_endUpdate] at hm; exact h.inserted_lt hm
  inserted_once := by rw [changes_endUpdate]; exact h.inserted_once
  removed_once := by rw [changes_endUpdate]; exact h.removed_once
  removed_gone hm := by rw [ids, cells_endUpdate]; rw [changes_endUpdate] at hm; exact h.removed_gone hm
  removed_after he := by rw [changes_endUpdate] at he; exact h.removed_after he
  batches := by
    unfold Diagram.endUpdate
    split
    · exact h.batches
    · split
      · exact h.batches
      · rename_i hp
        intro batch hb
        simp only [List.mem_append, List.mem_singleton] at hb
        rcases hb with hb | rfl
        · exact h.batches batch hb
        · simpa using hp
    · exact h.batches
  settled := by
    unfold Diagram.endUpdate
    split
    · exact h.settled
    · split
      · rename_i hp
        intro _
        simpa using hp
      · intro _
        rfl
    · rename_i hne _
      intro h0
      exact absurd h0 hne

/-- A split of a list that ends with `c` splits it at its end or before. -/
theorem split_concat {β : Type} {cs before after : List β} {c x : β} (h : cs ++ [c] = before ++ x :: after) :
    (cs = before ∧ c = x) ∨ ∃ rest, cs = before ++ x :: rest := by
  rcases List.eq_nil_or_concat after with rfl | ⟨rest, y, rfl⟩
  · exact .inl (by simpa using List.append_inj' h rfl)
  · rw [List.concat_eq_append, ← List.cons_append, ← List.append_assoc] at h
    exact .inr ⟨rest, (List.append_inj' h rfl).1⟩

theorem insert (h : Ledger d) (cell : Cell α) : Ledger (d.insert cell) := by
  have hc := changes_insert h.settled cell
  have hfresh : .inserted d.nextId ∉ d.changes := fun hm => Nat.lt_irrefl _ (h.inserted_lt hm)
  constructor
  · rw [hc, Change.replay_append_inserted, h.replay, ids_insert]
    ext n
    simp only [Finset.mem_insert, List.mem_toFinset, List.mem_append, List.mem_singleton]
    exact or_comm
  · rw [ids_insert, List.pairwise_append]
    refine ⟨h.ascending, by simp, ?_⟩
    intro a ha b hb
    simp only [List.mem_singleton] at hb
    exact hb ▸ h.below a ha
  · intro id hid
    rw [ids_insert, List.mem_append, List.mem_singleton] at hid
    rw [nextId_insert]
    rcases hid with hid | rfl
    · exact Nat.lt_succ_of_lt (h.below id hid)
    · exact Nat.lt_succ_self _
  · intro id hid
    rw [hc, List.mem_append, List.mem_singleton] at hid
    rw [nextId_insert]
    rcases hid with hid | hid
    · exact Nat.lt_succ_of_lt (h.inserted_lt hid)
    · cases hid; exact Nat.lt_succ_self _
  · intro id
    rw [hc, List.count_append]
    by_cases hid : id = d.nextId
    · subst hid
      simp [List.count_eq_zero_of_not_mem hfresh]
    · have : Change.inserted d.nextId ≠ .inserted id := fun he => hid (by cases he; rfl)
      rw [List.count_singleton, beq_eq_false_iff_ne.2 this]
      exact h.inserted_once id
  · intro id
    rw [hc, List.count_append]
    simpa using h.removed_once id
  · intro id hid
    rw [hc, List.mem_append, List.mem_singleton] at hid
    rw [ids_insert, List.mem_append, List.mem_singleton]
    rcases hid with hid | hid
    · rintro (hm | rfl)
      · exact h.removed_gone hid hm
      · -- A number that is taken out was put in, and so is no longer the next one.
        obtain ⟨before, after, he⟩ := List.append_of_mem hid
        have := h.inserted_lt (he ▸ List.mem_append_left _ (h.removed_after he))
        exact Nat.lt_irrefl _ this
    · cases hid
  · intro before id after he
    rw [hc] at he
    rcases split_concat he with ⟨-, he⟩ | ⟨rest, he⟩
    · cases he
    · exact h.removed_after he
  · exact history_record h.batches
  · exact settled_record h.settled

theorem remove (h : Ledger d) (id : Nat) : Ledger (d.remove id) := by
  by_cases hm : id ∈ d.ids
  · have hd := remove_eq hm
    have hc := changes_remove h.settled hm
    have hi : (d.remove id).ids = d.ids.filter (· != id) := ids_remove id
    constructor
    · rw [hc, Change.replay_append_removed, h.replay, hi]
      ext n
      simp [and_comm]
    · rw [hi]; exact h.ascending.filter _
    · intro n hn
      rw [hi] at hn
      rw [nextId_remove]
      exact h.below n (List.mem_of_mem_filter hn)
    · intro n hn
      rw [hc, List.mem_append, List.mem_singleton] at hn
      rw [nextId_remove]
      rcases hn with hn | hn
      · exact h.inserted_lt hn
      · cases hn
    · intro n
      rw [hc, List.count_append]
      simpa using h.inserted_once n
    · intro n
      rw [hc, List.count_append]
      by_cases hn : n = id
      · subst hn
        have : .removed n ∉ d.changes := fun hr => h.removed_gone hr hm
        simp [List.count_eq_zero_of_not_mem this]
      · have : Change.removed id ≠ .removed n := fun he => hn (by cases he; rfl)
        rw [List.count_singleton, beq_eq_false_iff_ne.2 this]
        exact h.removed_once n
    · intro n hn
      rw [hc, List.mem_append, List.mem_singleton] at hn
      rw [hi, List.mem_filter]
      rcases hn with hn | hn
      · intro hf
        exact h.removed_gone hn hf.1
      · cases hn; simp
    · intro before n after he
      rw [hc] at he
      rcases split_concat he with ⟨hb, he⟩ | ⟨rest, he⟩
      · cases he; exact hb ▸ h.inserted_mem hm
      · exact h.removed_after he
    · rw [hd]; exact history_record h.batches
    · rw [hd]; exact settled_record h.settled
  · rw [remove_eq_self hm]
    exact h

theorem insertAll (h : Ledger d) (cells : List (Cell α)) : Ledger (d.insertAll cells) := by
  induction cells generalizing d with
  | nil => exact h
  | cons cell cells ih => exact ih (h.insert cell)

theorem removeAll (h : Ledger d) (ids : List Nat) : Ledger (d.removeAll ids) := by
  induction ids generalizing d with
  | nil => exact h
  | cons id ids ih => exact ih (h.remove id)

theorem apply (h : Ledger d) : (e : Edit α) → Ledger (d.apply e)
  | .insert cell => h.insert cell
  | .remove id => h.remove id
  | .beginUpdate => h.beginUpdate
  | .endUpdate => h.endUpdate

/-- Every diagram that edits make out of nothing. -/
theorem ofEdits (edits : List (Edit α)) : Ledger (Diagram.ofEdits edits) := by
  suffices ∀ d : Diagram α, Ledger d → Ledger (edits.foldl Diagram.apply d) from this _ .empty
  induction edits with
  | nil => exact fun d h => h
  | cons e edits ih => exact fun d h => ih _ (h.apply e)

end Ledger

/-! ## Merging and splitting -/

theorem Ledger.replace {d : Diagram Float} (h : Ledger d) (stencil : Cell Float) (s : Selection) :
    Ledger (d.replace stencil s) := by
  unfold Diagram.replace
  have h' := (h.beginUpdate.insert stencil).removeAll s.consumed
  dsimp only
  split
  · exact h'.endUpdate
  · exact (h'.insert _).endUpdate

theorem Ledger.run {d : Diagram Float} (h : Ledger d) (editor : Editor) (c : Command) :
    Ledger (d.run editor c).1 := by
  cases c with
  | edit e => exact h.apply e
  | look id => exact h
  | merge ids background arrangement =>
    rcases run_merge_cases d editor ids background arrangement with ⟨f, hrun⟩ | ⟨s, c, style, -, -, hrun⟩
    · rw [hrun]
      exact h
    · rw [hrun]
      exact h.replace _ s
  | split id =>
    rcases run_split_cases d editor id with ⟨f, hrun⟩ | ⟨shape, box, parts, -, hrun⟩
    · rw [hrun]
      exact h
    · rw [hrun]
      exact ((h.beginUpdate.insertAll _).remove id).endUpdate

/-! ## Numbers that are handed out -/

end Diagram

/-- The numbers that a reply hands out. -/
def Reply.ids : Reply → List Nat
  | .inserted id => [id]
  | .merged numbers => numbers.stencil :: numbers.group?.toList
  | .split ids => ids
  | .done | .cell _ | .failed _ => []

namespace Diagram

/-- A command hands out the next numbers, in order. -/
theorem ids_run (d : Diagram Float) (editor : Editor) (c : Command) :
    ∃ n, (d.run editor c).1.nextId = d.nextId + n ∧ (d.run editor c).2.ids = List.range' d.nextId n := by
  cases c with
  | edit e =>
    cases e with
    | insert cell => exact ⟨1, nextId_insert d cell, rfl⟩
    | remove id => exact ⟨0, nextId_remove d id, rfl⟩
    | beginUpdate => exact ⟨0, rfl, rfl⟩
    | endUpdate => exact ⟨0, nextId_endUpdate d, rfl⟩
  | look id => exact ⟨0, rfl, rfl⟩
  | merge ids background arrangement =>
    rcases run_merge_cases d editor ids background arrangement with ⟨f, hrun⟩ | ⟨s, c, style, -, -, hrun⟩
    · rw [hrun]
      exact ⟨0, rfl, rfl⟩
    · rw [hrun]
      refine ⟨1 + if s.texts.isEmpty then 0 else 1, by rw [nextId_replace]; omega, ?_⟩
      cases ht : s.texts.isEmpty <;> simp [Reply.ids, mergedIds, ht, List.range']
  | split id =>
    rcases run_split_cases d editor id with ⟨f, hrun⟩ | ⟨shape, box, parts, -, hrun⟩
    · rw [hrun]
      exact ⟨0, rfl, rfl⟩
    · rw [hrun]
      exact ⟨parts.cells.length, by simp, rfl⟩

/-! ## Runs -/

/-- The diagram after a list of commands, and the replies. -/
def runAll (d : Diagram Float) (editor : Editor) : List Command → Diagram Float × List Reply
  | [] => (d, [])
  | c :: cs =>
    let next := d.run editor c
    let rest := runAll next.1 editor cs
    (rest.1, next.2 :: rest.2)

theorem Ledger.runAll {d : Diagram Float} (h : Ledger d) (editor : Editor) (cs : List Command) :
    Ledger (d.runAll editor cs).1 := by
  induction cs generalizing d with
  | nil => exact h
  | cons c cs ih => exact ih (h.run editor c)

/-- A run hands out the next numbers, in order and each once. -/
theorem ids_runAll (d : Diagram Float) (editor : Editor) (cs : List Command) :
    ∃ n, (d.runAll editor cs).1.nextId = d.nextId + n ∧
      (d.runAll editor cs).2.flatMap Reply.ids = List.range' d.nextId n := by
  induction cs generalizing d with
  | nil => exact ⟨0, rfl, rfl⟩
  | cons c cs ih =>
    obtain ⟨m, hm, hmi⟩ := ids_run d editor c
    obtain ⟨n, hn, hni⟩ := ih (d.run editor c).1
    refine ⟨m + n, by rw [runAll, hn, hm, Nat.add_assoc], ?_⟩
    simp only [runAll, List.flatMap_cons]
    rw [hmi, hni, hm, ← List.range'_append, Nat.one_mul]

/-! ## Updates that are open -/

@[simp] theorem level_insert {α : Type} (d : Diagram α) (cell : Cell α) : (d.insert cell).level = d.level := by
  simp [insert]

@[simp] theorem level_remove {α : Type} (d : Diagram α) (id : Nat) : (d.remove id).level = d.level := by
  unfold remove; split <;> simp

@[simp] theorem level_removeAll {α : Type} (d : Diagram α) (ids : List Nat) : (d.removeAll ids).level = d.level := by
  induction ids generalizing d with
  | nil => rfl
  | cons id ids ih => rw [show d.removeAll (id :: ids) = (d.remove id).removeAll ids from rfl, ih, level_remove]

@[simp] theorem level_insertAll {α : Type} (d : Diagram α) (cells : List (Cell α)) :
    (d.insertAll cells).level = d.level := by
  induction cells generalizing d with
  | nil => rfl
  | cons cell cells ih =>
    rw [show d.insertAll (cell :: cells) = (d.insert cell).insertAll cells from rfl, ih, level_insert]

@[simp] theorem level_beginUpdate {α : Type} (d : Diagram α) : d.beginUpdate.level = d.level + 1 := rfl

@[simp] theorem level_endUpdate {α : Type} (d : Diagram α) : d.endUpdate.level = d.level - 1 := by
  unfold endUpdate
  split
  · simp [*]
  · split <;> simp [*]
  · simp [*]

@[simp] theorem level_replace (d : Diagram Float) (stencil : Cell Float) (s : Selection) :
    (d.replace stencil s).level = d.level := by
  unfold replace
  split <;> simp

end Diagram

/-- How many updates are open after a command, if `n` were open before it. Closing one when none is open does
nothing. -/
def Command.openUpdates (n : Nat) : Command → Nat
  | .edit .beginUpdate => n + 1
  | .edit .endUpdate => n - 1
  | .edit (.insert _) | .edit (.remove _) | .look _ | .merge _ _ _ | .split _ => n

namespace Diagram

/-- Only the calls that open and close updates count; those of a merge or a split cancel out. -/
theorem level_run (d : Diagram Float) (editor : Editor) (c : Command) :
    (d.run editor c).1.level = c.openUpdates d.level := by
  cases c with
  | edit e =>
    cases e with
    | insert cell => exact level_insert d cell
    | remove id => exact level_remove d id
    | beginUpdate => rfl
    | endUpdate => exact level_endUpdate d
  | look id => rfl
  | merge ids background arrangement =>
    rcases run_merge_cases d editor ids background arrangement with ⟨f, hrun⟩ | ⟨s, c, style, -, -, hrun⟩
    · rw [hrun]
      rfl
    · rw [hrun]
      exact level_replace d _ s
  | split id =>
    rcases run_split_cases d editor id with ⟨f, hrun⟩ | ⟨shape, box, parts, -, hrun⟩
    · rw [hrun]
      rfl
    · rw [hrun]
      simp [Command.openUpdates]

/-- **The level of a diagram is the number of updates that are open**, counted over all that was asked of it. -/
theorem level_runAll (d : Diagram Float) (editor : Editor) (cs : List Command) :
    (d.runAll editor cs).1.level = cs.foldl Command.openUpdates d.level := by
  induction cs generalizing d with
  | nil => rfl
  | cons c cs ih => rw [runAll, ih, level_run, List.foldl_cons]

/-- When all updates are closed nothing is pending, and the committed batches alone account for the cells. -/
theorem settled_runAll (editor : Editor) (cs : List Command) (h : cs.foldl Command.openUpdates 0 = 0) :
    let d := (empty.runAll editor cs).1
    d.pending = [] ∧ Change.replay d.history.flatten = d.ids.toFinset := by
  intro d
  have hl : Ledger d := Ledger.runAll .empty editor cs
  have hsettled : d.pending = [] := hl.settled ((level_runAll empty editor cs).trans h)
  exact ⟨hsettled, by rw [← hl.replay, changes, hsettled, List.append_nil]⟩

/-! ## The history -/

/-- **The history accounts for the cells.** Whatever is asked of a new diagram (cells inserted,
grouped, removed, looked at, merged and split, updates opened and closed, in any order and number):
its changes, replayed from nothing, leave the numbers of its cells; the numbers it handed out
ascend; no number is put in or taken out twice, nor taken out before it was put in; no committed
batch is empty; and when no update is open, the committed batches alone leave the numbers of the
cells. -/
theorem history_accounts (editor : Editor) (cs : List Command) :
    let d := (empty.runAll editor cs).1
    let replies := (empty.runAll editor cs).2
    Change.replay (d.history.flatten ++ d.pending) = d.ids.toFinset ∧
      (replies.flatMap Reply.ids).Pairwise (· < ·) ∧
      (∀ id, d.changes.count (.inserted id) ≤ 1 ∧ d.changes.count (.removed id) ≤ 1) ∧
      (∀ before id after, d.changes = before ++ .removed id :: after → .inserted id ∈ before) ∧
      (∀ batch ∈ d.history, batch ≠ []) ∧
      (d.level = 0 → d.pending = [] ∧ Change.replay d.history.flatten = d.ids.toFinset) := by
  intro d replies
  have hl : Ledger d := Ledger.runAll .empty editor cs
  obtain ⟨n, -, hi⟩ := ids_runAll empty editor cs
  refine ⟨hl.replay, ?_, fun id => ⟨hl.inserted_once id, hl.removed_once id⟩,
    fun _ _ _ he => hl.removed_after he, hl.batches, fun h0 => ⟨hl.settled h0, ?_⟩⟩
  · show (replies.flatMap Reply.ids).Pairwise (· < ·)
    rw [hi]
    exact List.pairwise_lt_range'
  · rw [← hl.replay, changes, hl.settled h0, List.append_nil]

end Diagram

end StencilKit
