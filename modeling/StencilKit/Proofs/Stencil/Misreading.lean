/-
Why a reference means no stencil.

A reference is looked up, or its token is unpacked and its text is read. What can go wrong is a matter of the
name, the token or the text (`IsReading`), at each step of reading and so for the reference as a whole
(`Library.isReading_resolve`). A drawing and its edges have no part in it (`Library.resolve_ne_disconnected`).
-/
import StencilKit.Proofs.Stencil.Elements
import StencilKit.Stencil.Catalogue

namespace StencilKit

open Xml (Element)

/-- Whether a failure is one of a name, a token or a text. -/
def Failure.isMisreading {α : Type} : Failure α → Bool
  | malformedText _ _ | missingAttribute _ _ | invalidAttribute _ _ _ _ | unexpectedRoot _ | unknownStencil _
  | malformedToken _ => true
  | _ => false

/-- Whether something can only fail by what is read. -/
def IsReading {T : Type} (x : Except (Failure Float) T) : Prop := ∀ e, x = .error e → e.isMisreading = true

namespace IsReading

variable {T U : Type}

theorem ok (a : T) : IsReading (.ok a) := fun _ h => by cases h

theorem error {e : Failure Float} (he : e.isMisreading = true) : IsReading (.error e : Except _ T) := by
  rintro _ ⟨⟩
  exact he

theorem bind {x : Except (Failure Float) T} {f : T → Except (Failure Float) U} (hx : IsReading x)
    (hf : ∀ a, IsReading (f a)) : IsReading (x >>= f) := by
  intro e h
  rcases bind_eq_error.1 h with h | ⟨a, -, h⟩
  · exact hx e h
  · exact hf a e h

theorem map {x : Except (Failure Float) T} (f : T → U) (hx : IsReading x) : IsReading (x.map f) :=
  fun e h => hx e (map_eq_error h)

theorem mapM {f : T → Except (Failure Float) U} (hf : ∀ a, IsReading (f a)) (xs : List T) :
    IsReading (xs.mapM f) := by
  intro e h
  obtain ⟨x, -, hx⟩ := exists_error_of_mapM h
  exact hf x e hx

theorem foldlM {f : U → T → Except (Failure Float) U} (hf : ∀ b a, IsReading (f b a)) (xs : List T) (b : U) :
    IsReading (xs.foldlM f b) := by
  induction xs generalizing b with
  | nil => exact ok b
  | cons x xs ih =>
    rw [List.foldlM_cons]
    exact (hf b x).bind ih

end IsReading

namespace Interpretation

variable (e : Element)

/-! ## Attributes -/

theorem isReading_require (name : String) : IsReading (require e name) := by
  unfold require
  split
  · exact .ok _
  · exact .error rfl

theorem isReading_number (name : String) : IsReading (number e name) := by
  refine (isReading_require e name).bind fun raw => ?_
  split
  · exact .error rfl
  · rename_i value _
    cases Scalar.checkFinite value with
    | error flaw => exact .error rfl
    | ok value => exact .ok value

theorem isReading_point (x y : String) : IsReading (point e x y) :=
  (isReading_number e x).bind fun _ => (isReading_number e y).bind fun _ => .ok _

theorem isReading_extent (name : String) (value : Float) : IsReading (extent e name value) := by
  unfold extent
  split
  · exact .ok ()
  · exact .error rfl

theorem isReading_box : IsReading (box e) :=
  (isReading_number e "w").bind fun w => (isReading_number e "h").bind fun h =>
    (isReading_extent e "w" w).bind fun _ => (isReading_extent e "h" h).bind fun _ =>
      (isReading_number e "x").bind fun _ => (isReading_number e "y").bind fun _ => .ok _

theorem isReading_points : IsReading (points e) := by
  refine (isReading_require e "points").bind fun raw => ?_
  split
  · exact .ok _
  · exact .error rfl

theorem isReading_regionKind : IsReading (regionKind e) := by
  unfold regionKind
  split
  · exact .ok _
  · split
    · exact .ok _
    · split
      · exact .ok _
      · exact .error rfl

/-! ## Elements -/

theorem isReading_connection : IsReading (connection e) := by
  have hedge : ∀ kind, IsReading (edgeTrace kind e) := fun _ => (isReading_points e).bind fun _ => .ok _
  unfold connection
  split
  · exact (isReading_number e "x").bind fun _ => (isReading_number e "y").bind fun _ => .ok _
  · exact hedge .line
  · exact hedge .curve
  · exact (isReading_regionKind e).bind fun _ => (isReading_require e "shape").bind fun _ =>
      (isReading_box e).bind fun _ => .ok _
  · exact .ok _

theorem isReading_step? : IsReading (step? e) := by
  unfold step?
  split
  · exact (isReading_point e "x" "y").map _
  · exact (isReading_point e "x" "y").map _
  · exact (isReading_point e "x1" "y1").bind fun _ => (isReading_point e "x2" "y2").bind fun _ => .ok _
  · exact .ok _
  · exact .ok _

theorem isReading_node : IsReading (node e) := by
  have hpath : IsReading (path e) := (IsReading.mapM isReading_step? e.children).bind fun _ => .ok _
  unfold node
  split
  · exact hpath.map _
  · exact (isReading_box e).map _
  · exact (isReading_box e).map _
  · exact (isReading_box e).map _
  · exact (isReading_require e "name").bind fun _ => (isReading_box e).bind fun _ => .ok _
  · exact (isReading_require e "src").bind fun _ => (isReading_box e).bind fun _ => .ok _
  · exact .ok _
  · exact (isReading_require e "pattern").map _
  · exact (isReading_number e "width").map _
  · exact (isReading_require e "color").map _
  · exact (isReading_require e "color").map _
  · exact .ok _
  · exact .ok _
  · exact .ok _

theorem isReading_addSection (s : Stencil Float) : IsReading (addSection s e) := by
  unfold addSection
  split
  · exact (IsReading.mapM isReading_connection e.children).bind fun _ => .ok _
  · exact (IsReading.mapM isReading_node e.children).bind fun _ => .ok _
  · exact .ok s

end Interpretation

/-! ## Texts and references -/

open Interpretation

theorem Stencil.isReading_ofElement (e : Element) : IsReading (ofElement e) := by
  unfold ofElement
  split
  · exact .error rfl
  · exact (isReading_number e "w").bind fun _ => (isReading_number e "h").bind fun _ =>
      .foldlM (fun s c => isReading_addSection c s) e.children _

theorem Stencil.isReading_ofText (text : String) : IsReading (ofText text) := by
  unfold ofText
  dsimp only
  split
  · exact isReading_ofElement _
  · exact .error rfl

/-- **A reference can only fail by what it names or holds.** -/
theorem Library.isReading_resolve (library : Library) (shape : ShapeRef) : IsReading (library.resolve shape) := by
  cases shape with
  | rectangle | ellipse => exact .ok _
  | named name =>
    unfold resolve
    dsimp only
    split
    · exact .ok _
    · exact .error rfl
  | embedded token =>
    unfold resolve
    dsimp only
    split
    · exact Stencil.isReading_ofText _
    · exact .error rfl

/-- No reference fails because edges do not join. -/
theorem Library.resolve_ne_disconnected (library : Library) (shape : ShapeRef) (stitched remaining : Nat)
    (stop : Point Float) : library.resolve shape ≠ .error (.disconnected stitched remaining stop) :=
  fun h => Bool.false_ne_true (library.isReading_resolve shape _ h)

end StencilKit
