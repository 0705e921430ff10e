/-
Selections that are drawn as one path.

Lines, curves and groups bring their edges to the path, and a text brings none. A stencil or an image has no
edges, and the first of them that is met is what the composition fails at. It is called by a number, which
counts the primitives before it that are not texts (`notAnEdge_iff`): it is the place in the selection if no
text comes before, and else the number of another primitive.
-/
import StencilKit.Proofs.Composition.Blocks
import StencilKit.Proofs.Chain.Walk
import StencilKit.Proofs.Diagram.Splitting
import StencilKit.Proofs.Stencil.Misreading

namespace StencilKit

namespace Primitive

variable {α : Type}

/-- Whether it is drawn into a box: a stencil or an image. -/
def isBoxed : Primitive α → Bool
  | stencil _ _ _ _ _ | image _ _ _ _ => true
  | _ => false

/-- The edges that it brings to a path. -/
def ownEdges : Primitive α → List (Edge α)
  | edge e _ _ _ => [e]
  | group edges _ => edges
  | _ => []

theorem ownEdges_of_isText {p : Primitive α} (h : p.isText = true) : p.ownEdges = [] := by
  cases p with
  | text value b style => rfl
  | _ => cases h

theorem isText_of_isBoxed {p : Primitive α} (h : p.isBoxed = true) : p.isText = false := by
  cases p with
  | stencil shape b style outline markers => rfl
  | image src b style markers => rfl
  | _ => cases h

end Primitive

/-- Texts bring nothing to a path. -/
theorem flatMap_ownEdges_filter {α : Type} (selection : List (Primitive α)) :
    (selection.filter (!·.isText)).flatMap (·.ownEdges) = selection.flatMap (·.ownEdges) := by
  induction selection with
  | nil => rfl
  | cons p ps ih =>
    rw [List.flatMap_cons, ← ih]
    cases hp : p.isText with
    | true => rw [List.filter_cons_of_neg (by simp [hp]), p.ownEdges_of_isText hp, List.nil_append]
    | false => rw [List.filter_cons_of_pos (by simp [hp]), List.flatMap_cons]

namespace Workshop

section

variable {α : Type}

theorem edgesOf_of_isBoxed {p : Primitive α} (h : p.isBoxed = true) (k : Nat) :
    edgesOf p k = .error (.notAnEdge k) := by
  cases p with
  | stencil shape b style outline markers => rfl
  | image src b style markers => rfl
  | _ => cases h

theorem edgesOf_of_not_isBoxed {p : Primitive α} (htext : p.isText = false) (h : p.isBoxed = false) (k : Nat) :
    edgesOf p k = .ok p.ownEdges := by
  cases p with
  | edge e style outline markers => rfl
  | group edges style => rfl
  | text value b style => cases htext
  | _ => cases h

/-- Primitives are numbered on from any number, and each brings its edges. -/
theorem mapM_edgesOf {selection : List (Primitive α)} (h : ∀ p ∈ selection, p.isBoxed = false) (n : Nat) :
    (((selection.filter (!·.isText)).zipIdx n).mapM fun (p, k) => edgesOf p k) =
      .ok ((selection.filter (!·.isText)).map (·.ownEdges)) := by
  induction selection generalizing n with
  | nil => rfl
  | cons p selection ih =>
    obtain ⟨hp, h⟩ := List.forall_mem_cons.1 h
    cases htext : p.isText with
    | true =>
      rw [List.filter_cons_of_neg (by simp [htext])]
      exact ih h n
    | false =>
      rw [List.filter_cons_of_pos (by simp [htext]), List.zipIdx_cons, List.mapM_cons, ih h]
      dsimp only
      rw [edgesOf_of_not_isBoxed htext hp]
      rfl

end

variable {α : Type} [Scalar α] {shop : Workshop α}

/-! ## What is drawn -/

/-- Without stencils and images the edges of all primitives are joined. -/
theorem drawPath_of_edges {selection : List (Primitive α)} (h : ∀ p ∈ selection, p.isBoxed = false) (frame : Box α) :
    shop.drawPath frame (selection.filter (!·.isText)) =
      (shop.joined frame (selection.flatMap (·.ownEdges))).map fun path => [.path path, .fillStroke] := by
  rw [drawPath, mapM_edgesOf h, ← flatMap_ownEdges_filter]
  rfl

/-- **The first stencil or image** is what a path fails at. The number that is told is its place among the
primitives that are not texts. -/
theorem drawPath_of_box {before : List (Primitive α)} (hbefore : ∀ q ∈ before, q.isBoxed = false) {p : Primitive α}
    (hp : p.isBoxed = true) (after : List (Primitive α)) (frame : Box α) :
    shop.drawPath frame ((before ++ p :: after).filter (!·.isText)) =
      .error (.notAnEdge (before.filter (!·.isText)).length) := by
  have hbody : (before ++ p :: after).filter (!·.isText) =
      before.filter (!·.isText) ++ p :: after.filter (!·.isText) := by
    rw [List.filter_append, List.filter_cons_of_pos (by simp [Primitive.isText_of_isBoxed hp])]
  rw [drawPath, hbody, List.zipIdx_append, List.zipIdx_cons, List.mapM_append, mapM_edgesOf hbefore,
    List.mapM_cons, Nat.zero_add]
  dsimp only
  rw [edgesOf_of_isBoxed hp]
  rfl

/-- A selection has its edges joined, or it fails at its first stencil or image. -/
theorem drawPath_cases (selection : List (Primitive α)) (frame : Box α) :
    ((∀ p ∈ selection, p.isBoxed = false) ∧ shop.drawPath frame (selection.filter (!·.isText)) =
      (shop.joined frame (selection.flatMap (·.ownEdges))).map fun path => [.path path, .fillStroke]) ∨
    ∃ before p after, selection = before ++ p :: after ∧ p.isBoxed = true ∧ (∀ q ∈ before, q.isBoxed = false) ∧
      shop.drawPath frame (selection.filter (!·.isText)) =
        .error (.notAnEdge (before.filter (!·.isText)).length) := by
  cases hfind : selection.find? (·.isBoxed) with
  | none =>
    have hedges : ∀ p ∈ selection, p.isBoxed = false := by simpa using hfind
    exact .inl ⟨hedges, drawPath_of_edges hedges frame⟩
  | some p =>
    obtain ⟨hp, before, after, rfl, hbefore⟩ := List.find?_eq_some_iff_append.1 hfind
    have hbefore : ∀ q ∈ before, q.isBoxed = false := by simpa using hbefore
    exact .inr ⟨before, p, after, rfl, hp, hbefore, drawPath_of_box hbefore hp after frame⟩

/-! ## What is reported -/

/-- Edges that do not join are reported as such. -/
theorem joined_ne_notAnEdge (frame : Box α) (edges : List (Edge α)) (k : Nat) :
    shop.joined frame edges ≠ .error (.notAnEdge k) := by
  intro h
  have hlinks := map_eq_error h
  cases edges with
  | nil => cases hlinks
  | cons e es =>
    rcases Chain.links_cases shop.options.joinTolerance e es with ⟨first, rest, -, hcases⟩ | ⟨_, _, _, hcases⟩
    · cases hlinks.symm.trans hcases
    · cases hlinks.symm.trans hcases

/-- A path reports a primitive that is not an edge if there is one. -/
theorem drawPath_eq_notAnEdge {frame : Box α} {selection : List (Primitive α)} {k : Nat} :
    shop.drawPath frame (selection.filter (!·.isText)) = .error (.notAnEdge k) ↔
      ∃ before p after, selection = before ++ p :: after ∧ p.isBoxed = true ∧ (∀ q ∈ before, q.isBoxed = false) ∧
        (before.filter (!·.isText)).length = k := by
  constructor
  · intro h
    rcases shop.drawPath_cases selection frame with ⟨-, hdraw⟩ | ⟨before, p, after, heq, hp, hbefore, hdraw⟩
    · exact absurd (map_eq_error (hdraw.symm.trans h)) (joined_ne_notAnEdge frame _ k)
    · cases hdraw.symm.trans h
      exact ⟨before, p, after, heq, hp, hbefore, rfl⟩
  · rintro ⟨before, p, after, rfl, hp, hbefore, rfl⟩
    exact drawPath_of_box hbefore hp after frame

/-- What a composition fails at: there are only texts, the box has no area, or something cannot be drawn or
cannot be sampled. -/
theorem compose_eq_error {selection : List (Primitive α)} {background : Background} {arrangement : Arrangement}
    {e : Failure α} (h : shop.compose selection background arrangement = .error e) :
    e = .emptySelection ∨ ∃ frame, frameOf selection = .ok frame ∧
      (e = .degenerateBounds frame.w frame.h ∨ frame.isDegenerate = false ∧
        (shop.drawBody frame background arrangement (selection.filter (!·.isText)) = .error e ∨
          ∃ shape, shop.resolve shape = .error e)) := by
  rw [compose_eq] at h
  dsimp only at h
  split at h
  · exact .inl (Except.error.inj h).symm
  rcases bind_eq_error.1 h with hframe | ⟨frame, hframe, h⟩
  · rw [frameOf] at hframe
    split at hframe
    · cases hframe
    · exact .inl (Except.error.inj hframe).symm
  refine .inr ⟨frame, hframe, ?_⟩
  split at h
  · exact .inl (Except.error.inj h).symm
  · rename_i harea
    refine .inr ⟨by simpa using harea, ?_⟩
    rcases bind_eq_error.1 h with hnodes | ⟨nodes, -, h⟩
    · exact .inl hnodes
    · exact .inr (exists_resolve_of_connections (map_eq_error h))

/-- What cannot be drawn keeps a selection from being composed. -/
theorem compose_of_drawBody {selection : List (Primitive α)} {background : Background} {arrangement : Arrangement}
    {frame : Box α} {e : Failure α} (hbody : selection.filter (!·.isText) ≠ []) (hframe : frameOf selection = .ok frame)
    (harea : frame.isDegenerate = false)
    (h : shop.drawBody frame background arrangement (selection.filter (!·.isText)) = .error e) :
    shop.compose selection background arrangement = .error e := by
  rw [compose_eq]
  dsimp only
  rw [if_neg (by simpa using hbody), hframe]
  show (if frame.isDegenerate = true then _ else _) = _
  rw [harea, if_neg Bool.false_ne_true, h]
  rfl

/-- **Which primitive a selection is said to fail at** when it is drawn as one path. That a primitive is not an
edge is said if there is a stencil or an image, and the box around the selection has an area; no other failure is
told in these words. The number counts the primitives before the first stencil or image, but not the texts among
them, so that the place in the selection is greater by these. -/
theorem notAnEdge_iff (editor : Editor) (selection : List (Primitive Float)) (background : Background) (k : Nat) :
    editor.workshop.compose selection background .singlePath = .error (.notAnEdge k) ↔
      (∃ frame, frameOf selection = .ok frame ∧ 0 < frame.w ∧ 0 < frame.h) ∧
        ∃ before p after, selection = before ++ p :: after ∧ p.isBoxed = true ∧ (∀ q ∈ before, q.isBoxed = false) ∧
          before.length = k + (before.filter (·.isText)).length := by
  have hlength : ∀ before : List (Primitive Float),
      (before.filter (!·.isText)).length = k ↔ before.length = k + (before.filter (·.isText)).length := by
    intro before
    have := List.length_eq_length_filter_add (l := before) (·.isText)
    omega
  simp only [← hlength]
  constructor
  · intro h
    rcases compose_eq_error h with hempty | ⟨frame, hframe, hflat | ⟨harea, hdraw | ⟨shape, hshape⟩⟩⟩
    · cases hempty
    · cases hflat
    · exact ⟨⟨frame, hframe, Box.isDegenerate_eq_false.1 harea⟩, drawPath_eq_notAnEdge.1 hdraw⟩
    · exact absurd (editor.library.isReading_resolve shape _ hshape) Bool.false_ne_true
  · rintro ⟨⟨frame, hframe, harea⟩, hbox⟩
    refine compose_of_drawBody ?_ hframe (Box.isDegenerate_eq_false.2 harea) (drawPath_eq_notAnEdge.2 hbox)
    obtain ⟨before, p, after, rfl, hp, -, -⟩ := hbox
    have hmem : p ∈ before ++ p :: after := List.mem_append_right _ List.mem_cons_self
    exact List.ne_nil_of_mem (List.mem_filter.2 ⟨hmem, by simp [Primitive.isText_of_isBoxed hp]⟩)

/-- A text, and an ellipse around it. -/
def captioned : List (Primitive Float) := [.text "a" ⟨0, 0, 2, 2⟩ {}, .stencil .ellipse ⟨0, 0, 5, 5⟩ {} false []]

/-- **A text before the first stencil**: the number is that of the text. -/
theorem notAnEdge_captioned :
    Diagram.plainEditor.workshop.compose captioned .filled .singlePath = .error (.notAnEdge 0) ∧
      captioned[0]?.map (·.isText) = some true ∧ captioned.findIdx? (·.isBoxed) = some 1 := by
  have hframe : (frameOf captioned).toOption.any (!·.isDegenerate) = true := by decide +kernel
  obtain ⟨frame, hframe, harea⟩ := exists_ok_of_any hframe
  have hbox : Diagram.plainEditor.workshop.drawPath frame (captioned.filter (!·.isText)) = .error (.notAnEdge 0) :=
    drawPath_eq_notAnEdge.2 ⟨[.text "a" ⟨0, 0, 2, 2⟩ {}], _, [], rfl, rfl, List.forall_mem_singleton.2 rfl, rfl⟩
  have hbody : captioned.filter (!·.isText) ≠ [] := List.cons_ne_nil _ _
  exact ⟨compose_of_drawBody hbody hframe (by simpa using harea) hbox, rfl, rfl⟩

end Workshop

end StencilKit
