/-
What a program leaves of a diagram.

A program that fails leaves the diagram that its steps so far have made of it. So whether a program is all or
nothing depends on the order of its steps: it is when all that may fail only looks (`Looks`) and comes before
the first change, and all that comes then succeeds (`Succeeds`). Merging and splitting are of this form
(`Editor.allOrNothing_merge`, `Editor.allOrNothing_split`).

* `run_replace`, `run_exchange`: an update step by step comes to one change of the diagram.
* `merge_eq_ok`, `split_eq_ok`: all that a merge or a split can come to, if it succeeds.
* `run_merge_cases`, `run_split_cases`: what either does as a command.
-/
import StencilKit.Diagram.Command

namespace StencilKit

/-- The cells that a stencil's parts become. -/
def Parts.cells {α : Type} (parts : Parts α) : List (Cell α) :=
  parts.primitives.map .primitive ++ parts.markers.map .marker

/-! ## Changes of a diagram -/

namespace Diagram

variable {α : Type}

/-- The diagram with several more cells. -/
def insertAll (d : Diagram α) (cells : List (Cell α)) : Diagram α := cells.foldl insert d

theorem insertAll_append (d : Diagram α) (cells others : List (Cell α)) :
    d.insertAll (cells ++ others) = (d.insertAll cells).insertAll others := List.foldl_append

/-- The diagram without several cells. -/
def removeAll (d : Diagram α) (ids : List Nat) : Diagram α := ids.foldl remove d

@[simp] theorem nextId_record (d : Diagram α) (c : Change) : (d.record c).nextId = d.nextId := by
  unfold record; split <;> rfl

@[simp] theorem nextId_insert (d : Diagram α) (cell : Cell α) : (d.insert cell).nextId = d.nextId + 1 := by
  simp [insert]

@[simp] theorem nextId_remove (d : Diagram α) (id : Nat) : (d.remove id).nextId = d.nextId := by
  unfold remove; split <;> simp

@[simp] theorem nextId_beginUpdate (d : Diagram α) : d.beginUpdate.nextId = d.nextId := rfl

@[simp] theorem nextId_endUpdate (d : Diagram α) : d.endUpdate.nextId = d.nextId := by
  unfold endUpdate; split
  · rfl
  · split <;> rfl
  · rfl

@[simp] theorem nextId_insertAll (d : Diagram α) (cells : List (Cell α)) :
    (d.insertAll cells).nextId = d.nextId + cells.length := by
  induction cells generalizing d with
  | nil => rfl
  | cons cell cells ih =>
    rw [show d.insertAll (cell :: cells) = (d.insert cell).insertAll cells from rfl, ih, nextId_insert]
    simp only [List.length_cons]
    omega

@[simp] theorem nextId_removeAll (d : Diagram α) (ids : List Nat) :
    (d.removeAll ids).nextId = d.nextId := by
  induction ids generalizing d with
  | nil => rfl
  | cons id ids ih => rw [show d.removeAll (id :: ids) = (d.remove id).removeAll ids from rfl, ih, nextId_remove]

/-- The diagram after a merge: the stencil is in, what it replaces is gone, and it is grouped with the texts if
there are any. -/
def replace (d : Diagram Float) (stencil : Cell Float) (s : Selection) : Diagram Float :=
  let d' := (d.beginUpdate.insert stencil).removeAll s.consumed
  (if s.texts.isEmpty then d' else d'.insert (.group (d.nextId :: s.texts))).endUpdate

/-- The numbers that a merge hands out: one for the stencil, one more for a group if there are texts. -/
def mergedIds (d : Diagram Float) (s : Selection) : Merged :=
  ⟨d.nextId, if s.texts.isEmpty then none else some (d.nextId + 1)⟩

theorem nextId_replace (d : Diagram Float) (stencil : Cell Float) (s : Selection) :
    (d.replace stencil s).nextId = d.nextId + 1 + if s.texts.isEmpty then 0 else 1 := by
  unfold replace
  split <;> simp [*]

end Diagram

/-! ## Steps -/

namespace Editing

variable {β γ : Type} {m : Editing β} {k : β → Editing γ} {d d' : Diagram Float}

theorem bind_eq_ok {c : γ} :
    (m >>= k).run d = .ok c d' ↔ ∃ b between, m.run d = .ok b between ∧ (k b).run between = .ok c d' := by
  rw [EStateM.run_bind]
  cases m.run d with
  | ok b between => simp [and_assoc]
  | error f between => simp

theorem bind_eq_error {f : Failure Float} :
    (m >>= k).run d = .error f d' ↔
      m.run d = .error f d' ∨ ∃ b between, m.run d = .ok b between ∧ (k b).run between = .error f d' := by
  rw [EStateM.run_bind]
  cases m.run d with
  | ok b between => simp [and_assoc]
  | error f between => simp

theorem run_map_of_ok {b : β} (f : β → γ) (h : m.run d = .ok b d') : (f <$> m).run d = .ok (f b) d' := by
  rw [map_eq_pure_bind]
  exact bind_eq_ok.2 ⟨b, d', h, rfl⟩

/-- A program whose result is turned into a reply. -/
theorem perform_map_of_ok {b : β} (reply : β → Reply) (h : m.run d = .ok b d') :
    perform (reply <$> m) d = (d', reply b) := by
  rw [perform, run_map_of_ok reply h]

theorem perform_map_of_error {f : Failure Float} (reply : β → Reply) (h : m.run d = .error f d') :
    perform (reply <$> m) d = (d', .failed f) := by
  rw [map_eq_pure_bind, perform, bind_eq_error.2 (.inl h)]

theorem look_eq_ok {f : Diagram Float → Except (Failure Float) β} {b : β} :
    (look f).run d = .ok b d' ↔ f d = .ok b ∧ d' = d := by
  show look f d = _ ↔ _
  unfold look
  cases f d <;> simp [eq_comm]

theorem look_eq_error {f : Diagram Float → Except (Failure Float) β} {failure : Failure Float} :
    (look f).run d = .error failure d' ↔ f d = .error failure ∧ d' = d := by
  show look f d = _ ↔ _
  unfold look
  cases f d <;> simp [eq_comm]

theorem run_beginUpdate (d : Diagram Float) : beginUpdate.run d = .ok () d.beginUpdate := rfl

theorem run_endUpdate (d : Diagram Float) : endUpdate.run d = .ok () d.endUpdate := rfl

theorem run_insert (d : Diagram Float) (cell : Cell Float) :
    (insert cell).run d = .ok d.nextId (d.insert cell) := rfl

@[simp] theorem run_group (d : Diagram Float) (children : List Nat) :
    (group children).run d = .ok d.nextId (d.insert (.group children)) := rfl

theorem run_discard_remove (d : Diagram Float) (id : Nat) :
    (discard (remove id)).run d = .ok () (d.remove id) := rfl

theorem run_forM_remove (d : Diagram Float) (ids : List Nat) :
    (forM ids fun id => discard (remove id)).run d = .ok () (d.removeAll ids) := by
  induction ids generalizing d with
  | nil => rfl
  | cons id ids ih =>
    rw [List.forM_cons]
    exact bind_eq_ok.2 ⟨(), _, run_discard_remove d id, ih (d.remove id)⟩

theorem run_mapM_insert {T : Type} (d : Diagram Float) (cell : T → Cell Float) (xs : List T) :
    (xs.mapM fun x => insert (cell x)).run d =
      .ok (List.range' d.nextId xs.length) (d.insertAll (xs.map cell)) := by
  induction xs generalizing d with
  | nil => rfl
  | cons x xs ih =>
    rw [List.mapM_cons]
    refine bind_eq_ok.2 ⟨_, _, run_insert d (cell x), ?_⟩
    refine bind_eq_ok.2 ⟨_, _, ih (d.insert (cell x)), ?_⟩
    rw [Diagram.nextId_insert, List.length_cons, List.range'_succ]
    rfl

/-! ## Updates -/

theorem run_replace (d : Diagram Float) (s : Selection) (stencil : Cell Float) :
    (replace s stencil).run d = .ok (d.mergedIds s) (d.replace stencil s) := by
  refine bind_eq_ok.2 ⟨(), _, run_beginUpdate d, ?_⟩
  refine bind_eq_ok.2 ⟨d.nextId, _, run_insert _ stencil, ?_⟩
  refine bind_eq_ok.2 ⟨(), _, run_forM_remove _ s.consumed, ?_⟩
  unfold Diagram.replace Diagram.mergedIds
  cases s.texts.isEmpty with
  | true => exact bind_eq_ok.2 ⟨none, _, rfl, bind_eq_ok.2 ⟨(), _, run_endUpdate _, rfl⟩⟩
  | false =>
    -- Removals hand out no numbers, so the group has the number after the stencil's.
    have hgroup : (group (d.nextId :: s.texts)).run ((d.beginUpdate.insert stencil).removeAll s.consumed) =
        .ok (d.nextId + 1) (((d.beginUpdate.insert stencil).removeAll s.consumed).insert
          (.group (d.nextId :: s.texts))) := by
      simp
    exact bind_eq_ok.2 ⟨some (d.nextId + 1), _, run_map_of_ok some hgroup,
      bind_eq_ok.2 ⟨(), _, run_endUpdate _, rfl⟩⟩

theorem run_exchange (d : Diagram Float) (id : Nat) (parts : Parts Float) :
    (exchange id parts).run d = .ok (List.range' d.nextId parts.cells.length)
      ((d.beginUpdate.insertAll parts.cells).remove id).endUpdate := by
  refine bind_eq_ok.2 ⟨(), _, run_beginUpdate d, ?_⟩
  refine bind_eq_ok.2 ⟨_, _, run_mapM_insert _ _ parts.primitives, ?_⟩
  refine bind_eq_ok.2 ⟨_, _, run_mapM_insert _ _ parts.markers, ?_⟩
  refine bind_eq_ok.2 ⟨(), _, run_discard_remove _ id, bind_eq_ok.2 ⟨(), _, run_endUpdate _, ?_⟩⟩
  rw [← Diagram.insertAll_append]
  simp [Parts.cells, List.range'_append_1]

/-! ## All or nothing -/

/-- Whether a program leaves every diagram as it is. -/
structure Looks (m : Editing β) : Prop where
  of_ok : ∀ {d b d'}, m.run d = .ok b d' → d' = d
  of_error : ∀ {d f d'}, m.run d = .error f d' → d' = d

/-- Whether a program succeeds with every diagram. -/
def Succeeds (m : Editing β) : Prop := ∀ d, ∃ b d', m.run d = .ok b d'

/-- Whether a program that fails leaves the diagram as it is. -/
def AllOrNothing (m : Editing β) : Prop := ∀ {d f d'}, m.run d = .error f d' → d' = d

theorem looks_look (f : Diagram Float → Except (Failure Float) β) : Looks (look f) where
  of_ok h := (look_eq_ok.1 h).2
  of_error h := (look_eq_error.1 h).2

theorem looks_work (result : Except (Failure Float) β) : Looks (work result) := looks_look _

theorem Succeeds.allOrNothing (h : Succeeds m) : AllOrNothing m := by
  intro d f d' hfail
  obtain ⟨b, between, hok⟩ := h d
  cases hfail.symm.trans hok

/-- What only looks may fail before a program that is all or nothing. -/
theorem Looks.bind (hm : Looks m) (hk : ∀ b, AllOrNothing (k b)) : AllOrNothing (m >>= k) := by
  intro d f d' hfail
  rcases bind_eq_error.1 hfail with hfail | ⟨b, between, hok, hfail⟩
  · exact hm.of_error hfail
  · exact (hk b hfail).trans (hm.of_ok hok)

/-- Whether a program succeeds, and its result and the diagram that it leaves pass a test. -/
def achieves (m : Editing β) (d : Diagram Float) (test : β → Diagram Float → Bool) : Bool :=
  match m.run d with
  | .ok b d' => test b d'
  | .error _ _ => false

theorem exists_of_achieves {test : β → Diagram Float → Bool} (h : achieves m d test = true) :
    ∃ b d', m.run d = .ok b d' ∧ test b d' = true := by
  unfold achieves at h
  split at h
  · rename_i b d' hok
    exact ⟨b, d', hok, h⟩
  · cases h

theorem succeeds_replace (s : Selection) (stencil : Cell Float) : Succeeds (replace s stencil) :=
  fun d => ⟨_, _, run_replace d s stencil⟩

theorem succeeds_exchange (id : Nat) (parts : Parts Float) : Succeeds (exchange id parts) :=
  fun d => ⟨_, _, run_exchange d id parts⟩

end Editing

/-! ## Merging and splitting -/

namespace Editor

open Editing

variable {editor : Editor} {d d' : Diagram Float}

/-- **All that can fail in a merge comes before the diagram is changed.** -/
theorem allOrNothing_merge (editor : Editor) (ids : List Nat) (background : Background) (arrangement : Arrangement) :
    AllOrNothing (editor.merge ids background arrangement) :=
  (looks_look _).bind fun s => (looks_work _).bind fun composition => (looks_work _).bind fun style =>
    (succeeds_replace s (.stencil composition.bounds style)).allOrNothing

/-- **All that can fail in a split comes before the diagram is changed.** -/
theorem allOrNothing_split (editor : Editor) (id : Nat) : AllOrNothing (editor.split id) :=
  (looks_look _).bind fun _ => (looks_work _).bind fun parts => (succeeds_exchange id parts).allOrNothing

/-- **All that a merge can do**: the selection is understood, its primitives are composed, the composition is
written, and then it takes their place. -/
theorem merge_eq_ok {ids : List Nat} {background : Background} {arrangement : Arrangement} {numbers : Merged} :
    (editor.merge ids background arrangement).run d = .ok numbers d' ↔
      ∃ s c style, d.select ids = .ok s ∧ editor.workshop.compose s.primitives background arrangement = .ok c ∧
        c.style editor.library.packing = .ok style ∧ d' = d.replace (.stencil c.bounds style) s ∧
        numbers = d.mergedIds s := by
  simp only [merge, bind_eq_ok, work, look_eq_ok, run_replace, EStateM.Result.ok.injEq]
  constructor
  · rintro ⟨s, _, ⟨hs, rfl⟩, c, _, ⟨hc, rfl⟩, style, _, ⟨hstyle, rfl⟩, rfl, rfl⟩
    exact ⟨s, c, style, hs, hc, hstyle, rfl, rfl⟩
  · rintro ⟨s, c, style, hs, hc, hstyle, rfl, rfl⟩
    exact ⟨s, d, ⟨hs, rfl⟩, c, d, ⟨hc, rfl⟩, style, d, ⟨hstyle, rfl⟩, rfl, rfl⟩

/-- **All that a split can do**: the stencil is found and taken apart, its parts come in, and it goes. -/
theorem split_eq_ok {id : Nat} {ids : List Nat} :
    (editor.split id).run d = .ok ids d' ↔
      ∃ shape box parts, d.stencilAt id = .ok (shape, box) ∧
        editor.library.decompose shape editor.decomposing box = .ok parts ∧
        d' = ((d.beginUpdate.insertAll parts.cells).remove id).endUpdate ∧
        ids = List.range' d.nextId parts.cells.length := by
  simp only [split, bind_eq_ok, work, look_eq_ok, run_exchange, EStateM.Result.ok.injEq, Prod.exists]
  constructor
  · rintro ⟨shape, box, _, ⟨hat, rfl⟩, parts, _, ⟨hparts, rfl⟩, rfl, rfl⟩
    exact ⟨shape, box, parts, hat, hparts, rfl, rfl⟩
  · rintro ⟨shape, box, parts, hat, hparts, rfl, rfl⟩
    exact ⟨shape, box, d, ⟨hat, rfl⟩, parts, d, ⟨hparts, rfl⟩, rfl, rfl⟩

end Editor

namespace Diagram

variable {d : Diagram Float} {editor : Editor}

/-- **A merge as a command**: it fails, with nothing changed, or a selection is replaced. -/
theorem run_merge_cases (d : Diagram Float) (editor : Editor) (ids : List Nat) (background : Background)
    (arrangement : Arrangement) :
    (∃ f, d.run editor (.merge ids background arrangement) = (d, .failed f)) ∨
      ∃ s c style, d.select ids = .ok s ∧ editor.workshop.compose s.primitives background arrangement = .ok c ∧
        d.run editor (.merge ids background arrangement) =
          (d.replace (.stencil c.bounds style) s, .merged (d.mergedIds s)) := by
  rcases h : (editor.merge ids background arrangement).run d with ⟨numbers, d'⟩ | ⟨f, d'⟩
  · obtain ⟨s, c, style, hs, hc, -, rfl, rfl⟩ := Editor.merge_eq_ok.1 h
    exact .inr ⟨s, c, style, hs, hc, Editing.perform_map_of_ok .merged h⟩
  · obtain rfl := editor.allOrNothing_merge ids background arrangement h
    exact .inl ⟨f, Editing.perform_map_of_error .merged h⟩

/-- **A split as a command**: it fails, with nothing changed, or a stencil gives way to its parts. -/
theorem run_split_cases (d : Diagram Float) (editor : Editor) (id : Nat) :
    (∃ f, d.run editor (.split id) = (d, .failed f)) ∨
      ∃ shape box, ∃ parts : Parts Float, d.stencilAt id = .ok (shape, box) ∧
        d.run editor (.split id) = (((d.beginUpdate.insertAll parts.cells).remove id).endUpdate,
          .split (List.range' d.nextId parts.cells.length)) := by
  rcases h : (editor.split id).run d with ⟨ids, d'⟩ | ⟨f, d'⟩
  · obtain ⟨shape, box, parts, hat, -, rfl, rfl⟩ := Editor.split_eq_ok.1 h
    exact .inr ⟨shape, box, parts, hat, Editing.perform_map_of_ok .split h⟩
  · obtain rfl := editor.allOrNothing_split id h
    exact .inl ⟨f, Editing.perform_map_of_error .split h⟩

end Diagram

end StencilKit
