/-
The names of shapes.

What a name means is named by that name without the blanks around it, or it is one of the two built-in
shapes, which have names of their own. Either way the name of what was meant means the same again
(`ofName_name`).
-/
import Mathlib.Data.List.DropRight
import StencilKit.Drawing.ShapeRef

namespace StencilKit

/-- Trimming twice is trimming once. -/
theorem trimBlanks_trimBlanks (cs : List Char) : trimBlanks (trimBlanks cs) = trimBlanks cs := by
  have htrim : ∀ ds, trimBlanks ds = (ds.dropWhile isBlank).rdropWhile isBlank := fun _ => rfl
  have hfront : (trimBlanks cs).dropWhile isBlank = trimBlanks cs := by
    cases h : trimBlanks cs with
    | nil => rfl
    | cons c ds =>
      obtain ⟨rest, hrest⟩ : c :: ds <+: cs.dropWhile isBlank := h ▸ List.rdropWhile_prefix isBlank _
      have hc := List.head?_dropWhile_not isBlank cs
      rw [← hrest] at hc
      exact List.dropWhile_cons_of_neg (by simpa using hc)
  rw [htrim (trimBlanks cs), hfront, htrim, List.rdropWhile_idempotent]

theorem trimBlanks_subset (cs : List Char) : trimBlanks cs ⊆ cs := by
  intro c hc
  have hback := (List.dropWhile_sublist isBlank).subset (List.mem_reverse.1 hc)
  exact (List.dropWhile_sublist isBlank).subset (List.mem_reverse.1 hback)

namespace ShapeRef

/-- The built-in shapes are what their names mean. -/
theorem ofName_rectangle : ofName rectangle.name = rectangle := by decide +kernel

theorem ofName_ellipse : ofName ellipse.name = ellipse := by decide +kernel

theorem eq_of_token? {cs token : List Char} (h : token? cs = some token) : cs = tokenMark ++ token ++ [')'] := by
  unfold token? at h
  split at h
  · rename_i hmarks
    cases h
    obtain ⟨hfront, hback⟩ := Bool.and_eq_true_iff.1 hmarks
    obtain ⟨rest, hrest⟩ := List.getLast?_eq_some_iff.1 (beq_iff_eq.1 hback)
    rw [List.append_assoc, hrest, List.dropLast_concat, ← hrest]
    exact (List.prefix_iff_eq_append.1 (List.isPrefixOf_iff_prefix.1 hfront)).symm
  · cases h

/-- What is not built in has the name by which it was meant. -/
theorem ofTrimmed_cases (cs : List Char) :
    ofTrimmed cs = rectangle ∨ ofTrimmed cs = ellipse ∨ (ofTrimmed cs).name.toList = cs := by
  unfold ofTrimmed
  split_ifs with h₁ h₂
  · exact .inl rfl
  · exact .inr (.inl rfl)
  · refine .inr (.inr ?_)
    split
    · rename_i token htoken
      rw [name, String.toList_ofList, String.toList_ofList]
      exact (eq_of_token? htoken).symm
    · rw [name, String.toList_ofList]

/-- **The name of what a name means, means the same.** -/
theorem ofName_name_ofName (t : String) : ofName (ofName t).name = ofName t := by
  have hof : ofName t = ofTrimmed (trimBlanks t.toList) := rfl
  rcases ofTrimmed_cases (trimBlanks t.toList) with h | h | h
  · rw [hof, h, ofName_rectangle]
  · rw [hof, h, ofName_ellipse]
  · rw [hof, ofName, h, trimBlanks_trimBlanks]

/-- What holds of the letters of a name, and of the letters of the built-in names, holds of the name of what
it means. -/
theorem forall_mem_name_ofName {p : Char → Prop} {t : String} (ht : ∀ c ∈ t.toList, p c)
    (hrectangle : ∀ c ∈ rectangle.name.toList, p c) (hellipse : ∀ c ∈ ellipse.name.toList, p c) :
    ∀ c ∈ (ofName t).name.toList, p c := by
  have hof : ofName t = ofTrimmed (trimBlanks t.toList) := rfl
  rcases ofTrimmed_cases (trimBlanks t.toList) with h | h | h
  · rwa [hof, h]
  · rwa [hof, h]
  · rw [hof, h]
    exact fun c hc => ht c (trimBlanks_subset _ hc)

end ShapeRef

end StencilKit
