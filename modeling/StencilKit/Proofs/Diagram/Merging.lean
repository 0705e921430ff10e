/-
A merge is all or nothing.

A merge fails for one of a few reasons (`Hinders`), all of them found before anything is changed. A merge that
succeeds brings in one stencil, takes out what the stencil stands for, groups it with the selected texts if
there are any, and leaves all else alone; and the record of the diagram grows by these changes and no others, as
one batch.

What is taken out may be named more than once (a number selected twice, a group selected along with
its own children), so the record is told apart from the list of what is consumed: `pending_removeAll`
says that each cell that was there is recorded once, whatever the list repeats.

* `get?_insert`, `get?_remove`, `get?_removeAll`: where a cell is looked up, step by step.
* `select_ok`: what a selection comes to, read off the cells that are selected.
-/
import StencilKit.Proofs.Diagram.History

namespace StencilKit.Diagram

section Cells

variable {α : Type}

/-! ## Where cells are found -/

theorem get?_eq_none_iff {d : Diagram α} {id : Nat} : d.get? id = none ↔ id ∉ d.ids := by
  rw [← get?_isSome_iff, Option.isSome_iff_ne_none, not_not]

@[simp] theorem get?_beginUpdate (d : Diagram α) (id : Nat) : d.beginUpdate.get? id = d.get? id := rfl

@[simp] theorem get?_endUpdate (d : Diagram α) (id : Nat) : d.endUpdate.get? id = d.get? id := by
  rw [get?, cells_endUpdate, get?]

theorem get?_insert {d : Diagram α} (h : d.nextId ∉ d.ids) (cell : Cell α) (id : Nat) :
    (d.insert cell).get? id = if id = d.nextId then some cell else d.get? id := by
  rw [get?, cells_insert, List.lookup_append]
  by_cases hid : id = d.nextId
  · subst hid
    have hn : d.cells.lookup d.nextId = none := get?_eq_none_iff.2 h
    simp [hn]
  · have hb : (id == d.nextId) = false := by simpa using hid
    simp [hid, hb, List.lookup_cons, get?]

theorem get?_remove (d : Diagram α) (gone id : Nat) :
    (d.remove gone).get? id = if id = gone then none else d.get? id := by
  rw [get?, cells_remove, get?]
  induction d.cells with
  | nil => simp
  | cons c cells ih =>
    obtain ⟨n, cell⟩ := c
    by_cases hn : n = gone
    · subst hn
      rw [List.filter_cons_of_neg (by simp), ih, List.lookup_cons]
      by_cases hid : id = n
      · simp [hid]
      · have hb : (id == n) = false := by simpa using hid
        simp [hid, hb]
    · rw [List.filter_cons_of_pos (by simpa using hn), List.lookup_cons, List.lookup_cons, ih]
      by_cases hid : id = n
      · simp [hid, hn]
      · have hb : (id == n) = false := by simpa using hid
        simp [hb]

theorem get?_removeAll (d : Diagram α) (gone : List Nat) (id : Nat) :
    (d.removeAll gone).get? id = if id ∈ gone then none else d.get? id := by
  induction gone generalizing d with
  | nil => simp [removeAll]
  | cons n gone ih =>
    rw [show d.removeAll (n :: gone) = (d.remove n).removeAll gone from rfl, ih, get?_remove]
    by_cases hm : id ∈ gone
    · simp [hm]
    · by_cases hn : id = n <;> simp [hm, hn]

/-! ## What is recorded -/

/-- In an open update a change is pending. -/
theorem record_updating {d : Diagram α} (h : 0 < d.level) (c : Change) :
    d.record c = { d with pending := d.pending ++ [c] } := by
  simp [record, isUpdating, h]

theorem pending_insert {d : Diagram α} (h : 0 < d.level) (cell : Cell α) :
    (d.insert cell).pending = d.pending ++ [.inserted d.nextId] ∧ (d.insert cell).history = d.history := by
  rw [insert, record_updating (by exact h)]
  exact ⟨rfl, rfl⟩

theorem pending_remove {d : Diagram α} (h : 0 < d.level) {id : Nat} (hid : id ∈ d.ids) :
    (d.remove id).pending = d.pending ++ [.removed id] ∧ (d.remove id).history = d.history := by
  rw [remove_eq hid, record_updating (by exact h)]
  exact ⟨rfl, rfl⟩

/-- Of what is to be taken out, each cell that is there is recorded once. -/
theorem pending_removeAll {d : Diagram α} (h : 0 < d.level) (ids : List Nat) :
    ∃ removed : List Nat, removed.Nodup ∧ (∀ id, id ∈ removed ↔ id ∈ ids ∧ id ∈ d.ids) ∧
      (d.removeAll ids).pending = d.pending ++ removed.map .removed ∧
      (d.removeAll ids).history = d.history := by
  induction ids generalizing d with
  | nil => exact ⟨[], by simp, by simp, by simp [removeAll], rfl⟩
  | cons n ids ih =>
    rw [show d.removeAll (n :: ids) = (d.remove n).removeAll ids from rfl]
    by_cases hn : n ∈ d.ids
    · obtain ⟨removed, hnd, hm, hp, hh⟩ := ih (d := d.remove n) (by simpa using h)
      obtain ⟨hp', hh'⟩ := pending_remove h hn
      refine ⟨n :: removed, ?_, fun id => ?_, ?_, ?_⟩
      · rw [List.nodup_cons]
        -- The cell is gone after its removal, and so not recorded again.
        refine ⟨?_, hnd⟩
        intro hr
        have := ((hm n).1 hr).2
        rw [ids_remove] at this
        simp at this
      · rw [List.mem_cons, hm, ids_remove, List.mem_cons]
        by_cases hid : id = n
        · simp [hid, hn]
        · simp [hid]
      · rw [hp, hp']
        simp
      · rw [hh, hh']
    · obtain ⟨removed, hnd, hm, hp, hh⟩ := ih h
      rw [remove_eq_self hn]
      refine ⟨removed, hnd, ?_, hp, hh⟩
      intro id
      rw [hm, List.mem_cons]
      constructor
      · rintro ⟨hi, hd⟩
        exact ⟨.inr hi, hd⟩
      · rintro ⟨rfl | hi, hd⟩
        · exact absurd hd hn
        · exact ⟨hi, hd⟩

/-- Closing an update that changed something: within another one the changes stay pending, otherwise
they are committed. -/
theorem endUpdate_eq {d : Diagram α} {level : Nat} (hl : d.level = level + 1) (hp : d.pending ≠ []) :
    d.endUpdate = if level = 0 then { d with level := 0, pending := [], history := d.history ++ [d.pending] }
      else { d with level } := by
  unfold endUpdate
  rw [hl]
  cases level with
  | zero => simp [hp]
  | succ level => rfl

end Cells

/-! ## What a selection comes to -/

variable {d : Diagram Float}

/-- Whether the cell of a number is a text. -/
def holdsText (d : Diagram Float) (id : Nat) : Bool :=
  match d.get? id with
  | some (.primitive p) => p.isText
  | _ => false

/-- The children of a group; other cells have none. -/
def childrenOf (d : Diagram Float) (id : Nat) : List Nat :=
  match d.get? id with
  | some (.group children) => children
  | _ => []

/-- Whether a cell goes away when the given ones are merged: it is one of them and not a text, or it is
a child of a group among them. -/
def IsConsumed (d : Diagram Float) (ids : List Nat) (id : Nat) : Prop :=
  (id ∈ ids ∧ d.holdsText id = false) ∨ ∃ group ∈ ids, id ∈ d.childrenOf group

theorem member_ok {id : Nat} {p : Primitive Float} (h : d.member id = .ok p) : id ∈ d.ids := by
  rw [← get?_isSome_iff]
  unfold member at h
  split at h
  · cases h
  · rename_i hg
    rw [hg]
    rfl
  · rename_i hg
    rw [hg]
    rfl

theorem mapM_member_ok {children : List Nat} {members : List (Primitive Float)}
    (h : children.mapM d.member = .ok members) : ∀ c ∈ children, c ∈ d.ids := by
  induction children generalizing members with
  | nil => simp
  | cons c cs ih =>
    simp only [List.mapM_cons, Xml.bind_eq_ok] at h
    obtain ⟨p, hp, ps, hps, -⟩ := h
    intro n hn
    rcases List.mem_cons.1 hn with rfl | hn
    · exact member_ok hp
    · exact ih hps n hn

theorem isText_ofMembers {members : List (Primitive Float)} {p : Primitive Float}
    (h : Primitive.ofMembers? members = some p) : p.isText = false := by
  simp only [Primitive.ofMembers?, Option.map_eq_some_iff] at h
  obtain ⟨edges, -, rfl⟩ := h
  rfl

/-- **What a selected cell stands for.** It is there and so are the children that go away with it,
and it is a text if the primitive is. -/
theorem selected_ok {id : Nat} {p : Primitive Float} {children : List Nat}
    (h : d.selected id = .ok (p, children)) :
    id ∈ d.ids ∧ p.isText = d.holdsText id ∧ children = d.childrenOf id ∧ ∀ c ∈ children, c ∈ d.ids := by
  have hs : d.get? id ≠ none → id ∈ d.ids := by
    intro hn
    rw [← get?_isSome_iff]
    exact Option.isSome_iff_ne_none.2 hn
  unfold selected at h
  split at h
  · cases h
  · rename_i q hg
    cases h
    exact ⟨hs (by simp [hg]), by simp [holdsText, hg], by simp [childrenOf, hg], by simp⟩
  · rename_i box style hg
    split at h
    · cases h
      exact ⟨hs (by simp [hg]), by simp [holdsText, hg, Primitive.isText], by simp [childrenOf, hg], by simp⟩
    · cases h
  · rename_i cs hg
    simp only [Xml.bind_eq_ok] at h
    obtain ⟨members, hm, h⟩ := h
    split at h
    · rename_i group hgroup
      cases h
      exact ⟨hs (by simp [hg]), by simp [holdsText, hg, isText_ofMembers hgroup], by simp [childrenOf, hg],
        mapM_member_ok hm⟩
    · cases h
  · cases h

/-- **What a selection comes to**: the selected texts in order, and what goes away, all of which is
there. -/
theorem select_ok {ids : List Nat} {s : Selection} (h : d.select ids = .ok s) :
    s.texts = ids.filter d.holdsText ∧ (∀ id, id ∈ s.consumed ↔ d.IsConsumed ids id) ∧
      ∀ id ∈ s.consumed, id ∈ d.ids := by
  induction ids generalizing s with
  | nil =>
    cases h
    simp [IsConsumed]
  | cons n ids ih =>
    simp only [select, Xml.bind_eq_ok, Prod.exists] at h
    obtain ⟨p, children, hp, rest, hr, h⟩ := h
    obtain ⟨ht, hc, hd⟩ := ih hr
    obtain ⟨hn, htext, rfl, hchildren⟩ := selected_ok hp
    cases hb : p.isText with
    | true =>
      have hn' : d.holdsText n = true := htext ▸ hb
      -- A text is not a group, and has no children to go away with it.
      have hnone : d.childrenOf n = [] := by
        unfold holdsText at hn'
        unfold childrenOf
        split at hn' <;> simp_all
      simp only [hb, if_true, pure, Except.pure, Except.ok.injEq] at h
      subst h
      refine ⟨by simp [hn', ht], ?_, hd⟩
      intro id
      rw [hc, IsConsumed, IsConsumed]
      by_cases hid : id = n
      · simp [hid, hn', hnone]
      · simp [hid, hnone]
    | false =>
      have hn' : d.holdsText n = false := htext ▸ hb
      simp only [hb, Bool.false_eq_true, if_false, pure, Except.pure, Except.ok.injEq] at h
      subst h
      refine ⟨by simp [hn', ht], fun id => ?_, ?_⟩
      · simp only [List.mem_append, List.mem_cons, hc, IsConsumed, exists_eq_or_imp]
        by_cases hid : id = n
        · simp [hid, hn']
        · simp only [hid, false_or]
          tauto
      · intro id hid
        simp only [List.mem_append, List.mem_cons] at hid
        rcases hid with hid | rfl | hid
        · exact hchildren id hid
        · exact hn
        · exact hd id hid

/-! ## The update of a merge -/

/-- The changes that a merge records: the stencil, what it replaces, and the group if there are texts. -/
def mergeBatch (d : Diagram Float) (texts removed : List Nat) : List Change :=
  .inserted d.nextId :: removed.map .removed ++ if texts.isEmpty then [] else [.inserted (d.nextId + 1)]

/-- **The record of a merge** is one batch, which is committed unless an update is open around it. -/
theorem record_replace (hd : Ledger d) (stencil : Cell Float) (s : Selection)
    (hs : ∀ id ∈ s.consumed, id ∈ d.ids) :
    (d.replace stencil s).level = d.level ∧
      ∃ removed : List Nat, removed.Nodup ∧ (∀ id, id ∈ removed ↔ id ∈ s.consumed) ∧
        if d.level = 0 then
          (d.replace stencil s).history = d.history ++ [d.mergeBatch s.texts removed] ∧
            (d.replace stencil s).pending = []
        else
          (d.replace stencil s).history = d.history ∧
            (d.replace stencil s).pending = d.pending ++ d.mergeBatch s.texts removed := by
  have hb : 0 < d.beginUpdate.level := Nat.succ_pos _
  obtain ⟨hp, hh⟩ := pending_insert hb stencil
  obtain ⟨removed, hnd, hm, hp', hh'⟩ :=
    pending_removeAll (d := d.beginUpdate.insert stencil) (by simp) s.consumed
  rw [hp] at hp'
  rw [hh] at hh'
  -- The diagram before the update is closed.
  obtain ⟨e, he, hel, hep, heh⟩ : ∃ e : Diagram Float, d.replace stencil s = e.endUpdate ∧ e.level = d.level + 1 ∧
      e.pending = d.pending ++ d.mergeBatch s.texts removed ∧ e.history = d.history := by
    unfold replace mergeBatch
    cases ht : s.texts.isEmpty with
    | true =>
      refine ⟨_, rfl, by simp [beginUpdate], ?_, hh'⟩
      simp only [if_true]
      rw [hp']
      simp [beginUpdate]
    | false =>
      obtain ⟨hp'', hh''⟩ := pending_insert (d := (d.beginUpdate.insert stencil).removeAll s.consumed)
        (by simp) (.group (d.nextId :: s.texts))
      refine ⟨_, rfl, by simp [beginUpdate], ?_, hh''.trans hh'⟩
      simp only [Bool.false_eq_true, if_false]
      rw [hp'', hp']
      simp [beginUpdate]
  have hne : e.pending ≠ [] := by simp [hep, mergeBatch]
  refine ⟨level_replace d stencil s, removed, hnd, fun id => ?_, ?_⟩
  · rw [hm]
    refine ⟨And.left, fun hc => ⟨hc, ?_⟩⟩
    rw [ids_insert]
    exact List.mem_append_left _ (hs id hc)
  · rw [he, endUpdate_eq hel hne]
    by_cases h0 : d.level = 0
    · simp [h0, hep, heh, hd.settled h0]
    · simp [h0, hep, heh]

/-- **The cells after a merge.** -/
theorem get?_replace (hd : Ledger d) (stencil : Cell Float) (s : Selection)
    (hs : ∀ id ∈ s.consumed, id ∈ d.ids) (id : Nat) :
    (d.replace stencil s).get? id =
      if id = d.nextId then some stencil
      else if id = d.nextId + 1 then (if s.texts.isEmpty then none else some (.group (d.nextId :: s.texts)))
      else if id ∈ s.consumed then none
      else d.get? id := by
  have hfresh : ∀ n, d.nextId ≤ n → n ∉ d.ids := fun n hn hm => absurd (hd.below n hm) (by omega)
  have hkept : ∀ n, d.nextId ≤ n → n ∉ s.consumed := fun n hn hm => hfresh n hn (hs n hm)
  have hin : ∀ n, ((d.beginUpdate.insert stencil).removeAll s.consumed).get? n =
      if n ∈ s.consumed then none else if n = d.nextId then some stencil else d.get? n := by
    intro n
    rw [get?_removeAll, get?_insert (d := d.beginUpdate) (hfresh _ (Nat.le_refl _)), get?_beginUpdate]
    rfl
  have hnone : d.get? (d.nextId + 1) = none := get?_eq_none_iff.2 (hfresh _ (by omega))
  unfold replace
  cases ht : s.texts.isEmpty with
  | true =>
    simp only [if_true, get?_endUpdate, hin]
    by_cases h0 : id = d.nextId
    · simp [h0, hkept]
    · by_cases h1 : id = d.nextId + 1
      · simp [h1, hkept, hnone]
      · simp [h0, h1]
  | false =>
    have hn : ((d.beginUpdate.insert stencil).removeAll s.consumed).nextId = d.nextId + 1 := by simp
    have hf : d.nextId + 1 ∉ ((d.beginUpdate.insert stencil).removeAll s.consumed).ids := by
      rw [← get?_eq_none_iff, hin]
      simp [hkept, hnone]
    simp only [Bool.false_eq_true, if_false, get?_endUpdate]
    rw [get?_insert (by rw [hn]; exact hf), hn, hin]
    by_cases h0 : id = d.nextId
    · simp [h0, hkept]
    · by_cases h1 : id = d.nextId + 1
      · simp [h1]
      · simp [h0, h1]

/-! ## Merges -/

/-- What hinders a merge: the selection does not come to primitives, the primitives cannot be composed, or the
composed stencil cannot be written. -/
inductive Hinders (d : Diagram Float) (editor : Editor) (ids : List Nat) (background : Background)
    (arrangement : Arrangement) : Failure Float → Prop
  | selection {f : Failure Float} : d.select ids = .error f → Hinders d editor ids background arrangement f
  | composition {s : Selection} {f : Failure Float} : d.select ids = .ok s →
    editor.workshop.compose s.primitives background arrangement = .error f →
    Hinders d editor ids background arrangement f
  | writing {s : Selection} {c : Composition Float} {f : Failure Float} : d.select ids = .ok s →
    editor.workshop.compose s.primitives background arrangement = .ok c →
    c.style editor.library.packing = .error f → Hinders d editor ids background arrangement f

/-- **All that can keep cells from being merged.** -/
theorem merge_eq_error {editor : Editor} {ids : List Nat} {background : Background} {arrangement : Arrangement}
    {f : Failure Float} :
    (editor.merge ids background arrangement).run d = .error f d ↔ d.Hinders editor ids background arrangement f := by
  simp only [Editor.merge, Editing.bind_eq_error, Editing.work, Editing.look_eq_ok, Editing.look_eq_error,
    Editing.run_replace, and_true]
  constructor
  · rintro (hs | ⟨s, _, ⟨hs, rfl⟩, ⟨hc, -⟩ | ⟨c, _, ⟨hc, rfl⟩, ⟨hstyle, -⟩ | ⟨style, _, -, h⟩⟩⟩)
    · exact .selection hs
    · exact .composition hs hc
    · exact .writing hs hc hstyle
    · cases h
  · intro h
    cases h with
    | selection hs => exact .inl hs
    | composition hs hc => exact .inr ⟨_, d, ⟨hs, rfl⟩, .inl ⟨hc, rfl⟩⟩
    | writing hs hc hstyle => exact .inr ⟨_, d, ⟨hs, rfl⟩, .inr ⟨_, d, ⟨hc, rfl⟩, .inl ⟨hstyle, rfl⟩⟩⟩

/-- **A merge is all or nothing.** Whatever was asked of a diagram before, a merge that fails does so because
something hinders it, and leaves the diagram as it is. One that succeeds puts the composed stencil under the
next number, and after it, if a text was selected, a group of the stencil and the selected texts in order; every
selected cell but a text goes, and so do the children of a selected group; every other cell stays. The changes
it records are the stencil's insertion, one removal of each cell that goes, and the group's insertion; together
they are one batch, or pending in the update that is open. -/
theorem merge_all_or_nothing (maker : Editor) (cs : List Command) (editor : Editor) (ids : List Nat)
    (background : Background) (arrangement : Arrangement) :
    let d := (empty.runAll maker cs).1
    let texts := ids.filter d.holdsText
    match (editor.merge ids background arrangement).run d with
    | .error f d' =>
      d' = d ∧
      d.run editor (.merge ids background arrangement) = (d, .failed f) ∧
      d.Hinders editor ids background arrangement f
    | .ok numbers d' =>
      d.run editor (.merge ids background arrangement) = (d', .merged numbers) ∧
      numbers = ⟨d.nextId, if texts = [] then none else some (d.nextId + 1)⟩ ∧
      d'.nextId = d.nextId + 1 + (if texts = [] then 0 else 1) ∧
      (∃ s c style, d.select ids = .ok s ∧ editor.workshop.compose s.primitives background arrangement = .ok c ∧
        c.style editor.library.packing = .ok style ∧ d'.get? d.nextId = some (.stencil c.bounds style)) ∧
      d'.get? (d.nextId + 1) = (if texts = [] then none else some (.group (d.nextId :: texts))) ∧
      (∀ id, d.IsConsumed ids id → (d.get? id).isSome ∧ d'.get? id = none) ∧
      (∀ id, ¬ d.IsConsumed ids id → id ≠ d.nextId → id ≠ d.nextId + 1 → d'.get? id = d.get? id) ∧
      d'.level = d.level ∧
      ∃ removed : List Nat, removed.Nodup ∧ (∀ id, id ∈ removed ↔ d.IsConsumed ids id) ∧
        if d.level = 0 then d'.history = d.history ++ [d.mergeBatch texts removed] ∧ d'.pending = []
        else d'.history = d.history ∧ d'.pending = d.pending ++ d.mergeBatch texts removed := by
  intro d texts
  have hd : Ledger d := Ledger.runAll .empty maker cs
  rcases hm : (editor.merge ids background arrangement).run d with ⟨numbers, d'⟩ | ⟨f, d'⟩
  · obtain ⟨s, c, style, hs, hc, hstyle, rfl, rfl⟩ := Editor.merge_eq_ok.1 hm
    obtain ⟨ht, hcon, hin⟩ := select_ok hs
    obtain ⟨hl, removed, hnd, hr, hrec⟩ := record_replace hd (.stencil c.bounds style) s hin
    have ht' : s.texts = texts := ht
    have hg := get?_replace hd (.stencil c.bounds style) s hin
    simp only [ht', List.isEmpty_iff] at hg
    refine ⟨Editing.perform_map_of_ok .merged hm, by simp [mergedIds, ht'], by rw [nextId_replace]; simp [ht'],
      ⟨s, c, style, hs, hc, hstyle, by rw [hg, if_pos rfl]⟩, by rw [hg]; simp, fun id hid => ?_,
      fun id hid h0 h1 => ?_, hl, removed, hnd, fun id => (hr id).trans (hcon id), by simpa only [ht'] using hrec⟩
    · have hmem := hin id ((hcon id).2 hid)
      have hlt := hd.below id hmem
      refine ⟨get?_isSome_iff.2 hmem, ?_⟩
      rw [hg, if_neg (by omega), if_neg (by omega), if_pos ((hcon id).2 hid)]
    · rw [hg, if_neg h0, if_neg h1, if_neg fun hmem => hid ((hcon id).1 hmem)]
  · obtain rfl : d' = d := editor.allOrNothing_merge ids background arrangement hm
    exact ⟨rfl, Editing.perform_map_of_error .merged hm, merge_eq_error.1 hm⟩

end StencilKit.Diagram
