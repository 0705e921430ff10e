/-
Splitting texts that were put together.

Each of the splitting functions undoes a way to join texts, as long as the parts do not hold what the
parts are told apart by: a mark, a blank, or a character of the other kind.
-/
import Mathlib.Data.List.Basic
import StencilKit.Text.Blank

namespace StencilKit

/-- Something is told of all characters of a text by going through the text, not through all characters. -/
instance (priority := 2000) decidableForallMem {p : Char → Prop} [DecidablePred p] (cs : List Char) :
    Decidable (∀ c ∈ cs, p c) :=
  List.decidableBAll p cs

/-- The longest prefix of one kind of characters. -/
theorem span_append {p : Char → Bool} {cs rest : List Char} (hcs : ∀ c ∈ cs, p c = true)
    (hrest : ∀ c ∈ rest.head?, p c = false) :
    (cs ++ rest).takeWhile p = cs ∧ (cs ++ rest).dropWhile p = rest := by
  rw [List.takeWhile_append_of_pos hcs, List.dropWhile_append_of_pos hcs]
  cases rest with
  | nil => simp
  | cons c rest =>
    have hc := hrest c rfl
    simp [hc]

/-! ## Blanks -/

theorem trimBlanks_eq_self {cs : List Char} (h : ∀ c ∈ cs, isBlank c = false) : trimBlanks cs = cs := by
  have hdrop : ∀ {cs : List Char}, (∀ c ∈ cs, isBlank c = false) → cs.dropWhile isBlank = cs := by
    intro cs h
    cases cs with
    | nil => rfl
    | cons c cs => simp [h c List.mem_cons_self]
  unfold trimBlanks
  rw [hdrop h, hdrop fun c hc => h c (List.mem_reverse.1 hc), List.reverse_reverse]

/-- Only the characters at the ends matter for trimming. -/
theorem trimBlanks_eq_self_of_ends {c d : Char} {cs : List Char} (hc : isBlank c = false)
    (hd : isBlank d = false) : trimBlanks (c :: cs ++ [d]) = c :: cs ++ [d] := by
  unfold trimBlanks
  rw [List.cons_append, List.dropWhile_cons_of_neg (by simp [hc]), ← List.cons_append, List.reverse_append,
    List.reverse_singleton, List.singleton_append, List.dropWhile_cons_of_neg (by simp [hd])]
  simp

/-! ## Words -/

theorem wordsFrom_append {word : List Char} (hword : ∀ c ∈ word, isBlank c = false)
    (before rest : List Char) :
    wordsFrom before (word ++ rest) = wordsFrom (word.reverse ++ before) rest := by
  induction word generalizing before with
  | nil => rfl
  | cons c cs ih =>
    have hc := hword c List.mem_cons_self
    rw [List.cons_append, wordsFrom, hc, if_neg Bool.false_ne_true, ih fun d hd => hword d (List.mem_cons_of_mem _ hd)]
    simp

/-- A word, a blank and more words. -/
theorem words_cons {word : List Char} (hne : word ≠ []) (hword : ∀ c ∈ word, isBlank c = false)
    (rest : List Char) : words (word ++ ' ' :: rest) = word :: words rest := by
  rw [words, wordsFrom_append hword, wordsFrom, if_pos (by decide), if_neg (by simpa using hne)]
  simp [words]

theorem words_singleton {word : List Char} (hne : word ≠ []) (hword : ∀ c ∈ word, isBlank c = false) :
    words word = [word] := by
  have h := wordsFrom_append hword [] []
  rw [List.append_nil] at h
  rw [words, h, wordsFrom, if_neg (by simpa using hne)]
  simp

/-! ## Marks -/

/-- The first mark is the first one after a text without any. -/
theorem splitAtFirst_append {mark : Char} {cs : List Char} (h : mark ∉ cs) (rest : List Char) :
    splitAtFirst mark (cs ++ mark :: rest) = some (cs, rest) := by
  induction cs with
  | nil => simp [splitAtFirst]
  | cons c cs ih =>
    rw [List.mem_cons, not_or] at h
    rw [List.cons_append, splitAtFirst, if_neg (Ne.symm h.1), ih h.2]
    rfl

/-- A text is split where the mark first stands in it. -/
theorem splitAtFirst_eq_some {mark : Char} {cs before after : List Char} :
    splitAtFirst mark cs = some (before, after) ↔ cs = before ++ mark :: after ∧ mark ∉ before := by
  refine ⟨fun h => ?_, ?_⟩
  · induction cs generalizing before with
    | nil => cases h
    | cons c cs ih =>
      rw [splitAtFirst] at h
      split at h
      · rename_i hc
        cases h
        exact ⟨by rw [hc, List.nil_append], List.not_mem_nil⟩
      · rename_i hc
        obtain ⟨⟨rest, after'⟩, hsplit, h⟩ := Option.map_eq_some_iff.1 h
        cases h
        obtain ⟨rfl, hrest⟩ := ih hsplit
        exact ⟨rfl, List.not_mem_cons_of_ne_of_not_mem (Ne.symm hc) hrest⟩
  · rintro ⟨rfl, hbefore⟩
    exact splitAtFirst_append hbefore after

theorem splitAtEach_append {mark : Char} {cs : List Char} (h : mark ∉ cs) (rest : List Char) :
    splitAtEach mark (cs ++ mark :: rest) = cs :: splitAtEach mark rest := by
  induction cs with
  | nil => simp [splitAtEach]
  | cons c cs ih =>
    rw [List.mem_cons, not_or] at h
    rw [List.cons_append, splitAtEach, if_neg (Ne.symm h.1), ih h.2]

end StencilKit
