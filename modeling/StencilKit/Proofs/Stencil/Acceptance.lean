/-
Which element trees are stencils.

Each reader obeys what is required of the elements that it reads (`obeys_ofElement`), so a tree is read just
when every element that has a meaning where it stands meets its rule, and otherwise the first one in document
order that does not is the one that is told of. What is read then has finite numbers and no negative sizes,
and its entries are those of the tree, in document order.

A text that is no tree at all is refused for a fault, with the byte of the text at which the fault was found
(`Stencil.ofText_eq_malformedText`).
-/
import StencilKit.Proofs.Stencil.Rereading
import StencilKit.Proofs.Stencil.Schema
import StencilKit.Proofs.Text.Places

namespace StencilKit

open Binary64 (checkFinite_eq_ok not_lt_zero)
open Schema
open Xml (Element bind_eq_ok)

namespace Interpretation

variable (e : Element)

/-! ## Attributes -/

theorem obeys_require (name : String) : Obeys [⟨e, .value name⟩] (require e name) := by
  unfold require
  split
  · rename_i value h
    exact .of_met ⟨value, h⟩
  · rename_i h
    exact .of_refused (.noValue h)

theorem obeys_number (name : String) : Obeys [⟨e, .number name⟩] (number e name) := by
  unfold number require
  cases hget : e.get? name with
  | none => exact .of_refused (.noNumber hget)
  | some raw =>
    simp only [bind, Except.bind]
    cases hread : Decimal.read (trimBlanks raw.toList) with
    | none => exact .of_refused (.unreadable hget hread)
    | some x =>
      by_cases hx : Scalar.isFinite x = true
      · simp only [checkFinite_eq_ok.2 ⟨hx, rfl⟩]
        exact .of_met ⟨raw, x, ⟨hget, hread⟩, hx⟩
      · rw [Bool.not_eq_true] at hx
        have hcheck : Scalar.checkFinite x = .error (if Scalar.isNaN x then .nan else .infinite) := by
          rw [Scalar.checkFinite, Scalar.isInfinite, hx]
          cases Scalar.isNaN x <;> rfl
        simp only [hcheck]
        exact .of_refused (.notFinite ⟨hget, hread⟩ hx)

theorem exists_holds_of_number {name : String} {x : Float} (h : number e name = .ok x) :
    ∃ raw, Holds e name raw x := by
  simp only [number, bind_eq_ok] at h
  obtain ⟨raw, hraw, h⟩ := h
  refine ⟨raw, ?_⟩
  unfold require at hraw
  split at hraw
  · rename_i hget
    cases hraw
    split at h
    · cases h
    · rename_i hread
      obtain ⟨-, rfl⟩ := checkFinite_eq_ok.1 (mapError_eq_ok.1 h)
      exact ⟨hget, hread⟩
  · cases hraw

/-- A size that was read is judged. -/
theorem obeys_extent {name : String} {x : Float} (h : number e name = .ok x) :
    Obeys [⟨e, .extent name⟩] (extent e name x) := by
  obtain ⟨raw, hraw⟩ := exists_holds_of_number e h
  have hfinite := isFinite_of_number h
  by_cases hx : x < 0
  · have hextent : extent e name x = .error (.invalidAttribute e.tag name (Decimal.numeral x) (some .negative)) := by
      have hcheck : Scalar.checkExtent x = .error .negative := by
        rw [Scalar.checkExtent, checkFinite_eq_ok.2 ⟨hfinite, rfl⟩]
        exact if_pos hx
      rw [extent, hcheck]
    rw [hextent]
    exact .of_refused (.negative hraw hfinite hx)
  · have hsize := (not_lt_zero hfinite).1 hx
    rw [extent_eq_ok (u := ()).2 ⟨hfinite, hsize⟩]
    exact .of_met ⟨raw, x, hraw, hsize⟩

theorem obeys_point (x y : String) : Obeys [⟨e, .number x⟩, ⟨e, .number y⟩] (point e x y) :=
  (obeys_number e x).bind fun _ _ => (obeys_number e y).bind fun _ _ => .ok _

theorem obeys_box : Obeys (boxDemands.map (⟨e, ·⟩)) (box e) :=
  (obeys_number e "w").bind fun _ hw => (obeys_number e "h").bind fun _ hh =>
    (obeys_extent e hw).bind fun _ _ => (obeys_extent e hh).bind fun _ _ =>
      (obeys_number e "x").bind fun _ _ => (obeys_number e "y").bind fun _ _ => .ok _

/-- What is read of a word is the point that it is. -/
theorem pair?_eq_some_iff {word : List Char} {p : Point Float} : pair? word = some p ↔ IsPair word p := by
  simp only [pair?, Option.bind_eq_bind, Option.bind_eq_some_iff]
  constructor
  · rintro ⟨⟨xs, ys⟩, hsplit, x, hx, y, hy, h⟩
    obtain ⟨rfl, hcomma⟩ := splitAtFirst_eq_some.1 hsplit
    split at h
    · rename_i hfinite
      cases h
      exact ⟨xs, ys, rfl, hcomma, hx, hy, hfinite⟩
    · cases h
  · rintro ⟨xs, ys, rfl, hcomma, hx, hy, hfinite⟩
    exact ⟨(xs, ys), splitAtFirst_append hcomma ys, p.x, hx, p.y, hy, if_pos hfinite⟩

theorem mapM_pair?_eq_none {words : List (List Char)} (h : words.mapM pair? = none) :
    ∃ word ∈ words, ∀ p, ¬ IsPair word p := by
  induction words with
  | nil => cases h
  | cons word words ih =>
    cases hword : pair? word with
    | none =>
      refine ⟨word, List.mem_cons_self, fun p hp => ?_⟩
      cases hword.symm.trans (pair?_eq_some_iff.2 hp)
    | some p =>
      rw [List.mapM_cons, hword] at h
      cases hrest : words.mapM pair? with
      | none =>
        obtain ⟨other, hmem, hother⟩ := ih hrest
        exact ⟨other, List.mem_cons_of_mem _ hmem, hother⟩
      | some ps =>
        rw [hrest] at h
        cases h

theorem exists_isPair_of_mapM {words : List (List Char)} {ps : List (Point Float)} (h : words.mapM pair? = some ps) :
    ∀ word ∈ words, ∃ p, IsPair word p := by
  induction words generalizing ps with
  | nil => exact List.forall_mem_nil _
  | cons word words ih =>
    simp only [List.mapM_cons, Option.bind_eq_bind, Option.bind_eq_some_iff] at h
    obtain ⟨p, hp, qs, hqs, -⟩ := h
    exact List.forall_mem_cons.2 ⟨⟨p, pair?_eq_some_iff.1 hp⟩, ih hqs⟩

theorem obeys_points : Obeys [⟨e, .points⟩] (points e) := by
  unfold points require
  cases hget : e.get? "points" with
  | none => exact .of_refused (.noPoints hget)
  | some raw =>
    simp only [bind, Except.bind]
    cases hpairs : (words raw.toList).mapM pair? with
    | none =>
      obtain ⟨word, hword, hpair⟩ := mapM_pair?_eq_none hpairs
      exact .of_refused (.noPair hget hword hpair)
    | some ps => exact .of_met ⟨raw, hget, exists_isPair_of_mapM hpairs⟩

theorem obeys_regionKind : Obeys [⟨e, .part⟩] (regionKind e) := by
  unfold regionKind
  split
  · rename_i h
    refine .of_met fun word hword => ?_
    cases h.symm.trans hword
  · rename_i word h
    have hmet : word = "area" ∨ word = "outline" → Requirement.Met ⟨e, .part⟩ := by
      intro hor word' hword'
      obtain rfl := Option.some.inj (h.symm.trans hword')
      exact hor
    split
    · rename_i harea
      exact .of_met (hmet (.inl harea))
    · rename_i harea
      split
      · rename_i houtline
        exact .of_met (hmet (.inr houtline))
      · rename_i houtline
        exact .of_refused (.noPart h harea houtline)

/-! ## Entries -/

theorem obeys_connection : Obeys (requirements .connections e) (connection e) := by
  unfold connection
  split
  · rename_i htag
    rw [requirements_of_leaf (by rw [htag]; rfl)]
    exact (obeys_number e "x").bind fun _ _ => (obeys_number e "y").bind fun _ _ => .ok _
  · rename_i htag
    rw [requirements_of_leaf (by rw [htag]; rfl)]
    exact (obeys_points e).bind fun _ _ => .ok _
  · rename_i htag
    rw [requirements_of_leaf (by rw [htag]; rfl)]
    exact (obeys_points e).bind fun _ _ => .ok _
  · rename_i htag
    rw [requirements_of_leaf (by rw [htag]; rfl)]
    exact (obeys_regionKind e).bind fun _ _ => (obeys_require e "shape").bind fun _ _ =>
      (obeys_box e).bind fun _ _ => .ok _
  · rename_i hconstraint hline hcurve harea
    rw [requirements_of_none]
    · exact .ok _
    · unfold Level.rule?
      split <;> simp_all

theorem obeys_step? : Obeys (requirements .path e) (step? e) := by
  unfold step?
  split
  · rename_i htag
    rw [requirements_of_leaf (by rw [htag]; rfl)]
    exact (obeys_point e "x" "y").map _
  · rename_i htag
    rw [requirements_of_leaf (by rw [htag]; rfl)]
    exact (obeys_point e "x" "y").map _
  · rename_i htag
    rw [requirements_of_leaf (by rw [htag]; rfl)]
    exact (obeys_point e "x1" "y1").bind fun _ _ => (obeys_point e "x2" "y2").bind fun _ _ => .ok _
  · rename_i htag
    rw [requirements_of_leaf (by rw [htag]; rfl)]
    exact .ok _
  · rename_i hmove hline hquad hclose
    rw [requirements_of_none]
    · exact .ok _
    · unfold Level.rule?
      split <;> simp_all

theorem obeys_path : Obeys (e.children.flatMap (requirements .path)) (path e) := by
  have h := (Obeys.mapM obeys_step? e.children).map fun steps => steps.filterMap id
  unfold path
  cases hsteps : e.children.mapM step? <;> rwa [hsteps] at h

theorem obeys_node : Obeys (requirements .foreground e) (node e) := by
  unfold node
  split
  · rename_i htag
    rw [requirements_of_some (by rw [htag]; rfl)]
    exact (obeys_path e).map _
  · rename_i htag
    rw [requirements_of_leaf (by rw [htag]; rfl)]
    exact (obeys_box e).map _
  · rename_i htag
    rw [requirements_of_leaf (by rw [htag]; rfl)]
    exact (obeys_box e).map _
  · rename_i htag
    rw [requirements_of_leaf (by rw [htag]; rfl)]
    exact (obeys_box e).map _
  · rename_i htag
    rw [requirements_of_leaf (by rw [htag]; rfl)]
    exact (obeys_require e "name").bind fun _ _ => (obeys_box e).bind fun _ _ => .ok _
  · rename_i htag
    rw [requirements_of_leaf (by rw [htag]; rfl)]
    exact (obeys_require e "src").bind fun _ _ => (obeys_box e).bind fun _ _ => .ok _
  · rename_i htag
    rw [requirements_of_leaf (by rw [htag]; rfl)]
    exact .ok _
  · rename_i htag
    rw [requirements_of_leaf (by rw [htag]; rfl)]
    exact (obeys_require e "pattern").map _
  · rename_i htag
    rw [requirements_of_leaf (by rw [htag]; rfl)]
    exact (obeys_number e "width").map _
  · rename_i htag
    rw [requirements_of_leaf (by rw [htag]; rfl)]
    exact (obeys_require e "color").map _
  · rename_i htag
    rw [requirements_of_leaf (by rw [htag]; rfl)]
    exact (obeys_require e "color").map _
  · rename_i htag
    rw [requirements_of_leaf (by rw [htag]; rfl)]
    exact .ok _
  · rename_i htag
    rw [requirements_of_leaf (by rw [htag]; rfl)]
    exact .ok _
  · rw [requirements_of_none]
    · exact .ok _
    · unfold Level.rule?
      split <;> simp_all

/-! ## Sections -/

theorem obeys_addSection (s : Stencil Float) : Obeys (requirements .shape e) (addSection s e) := by
  unfold addSection
  split
  · rename_i htag
    rw [requirements_of_some (by rw [htag]; rfl)]
    have h := (Obeys.mapM obeys_connection e.children).bind fun cs _ =>
      Obeys.ok { s with connections := s.connections ++ cs }
    rwa [List.append_nil] at h
  · rename_i htag
    rw [requirements_of_some (by rw [htag]; rfl)]
    have h := (Obeys.mapM obeys_node e.children).bind fun ns _ =>
      Obeys.ok { s with foreground := s.foreground ++ ns }
    rwa [List.append_nil] at h
  · rw [requirements_of_none]
    · exact .ok _
    · unfold Level.rule?
      split <;> simp_all

/-- **A stencil is read as is required of its tree.** -/
theorem obeys_ofElement : Obeys (requirements .document e) (Stencil.ofElement e) := by
  have hrequired : requirements .document e = [⟨e, .called "shape"⟩] ++
      ([⟨e, .number "w"⟩] ++ ([⟨e, .number "h"⟩] ++ e.children.flatMap (requirements .shape))) := by
    rw [requirements_of_some rfl]
    rfl
  rw [hrequired]
  unfold Stencil.ofElement
  split
  · rename_i htag
    exact (Obeys.of_refused (T := Unit) (.called htag)).bind nofun
  · rename_i htag
    have hcalled : Requirement.Met ⟨e, .called "shape"⟩ := not_not.1 htag
    refine .cons hcalled ?_
    exact (obeys_number e "w").bind fun _ _ => (obeys_number e "h").bind fun _ _ =>
      Obeys.foldlM (fun s d => obeys_addSection d s) e.children _

/-! ## What is read -/

/-- A node of the foreground is what its element is read as; a path has the steps of its children, in order. -/
def Reads (d : Element) (n : Node Float) : Prop :=
  node d = .ok n ∧ (d.tag = "path" →
    ∃ steps, List.Forall₂ (fun c s => step? c = .ok s) d.children steps ∧ n = .path (steps.filterMap id))

theorem reads_of_node {d : Element} {n : Node Float} (h : node d = .ok n) : Reads d n := by
  refine ⟨h, fun htag => ?_⟩
  have hpath : (path d).map .path = .ok n := by
    rwa [node, htag] at h
  obtain ⟨p, hp, rfl⟩ := map_eq_ok_iff.1 hpath
  simp only [path, bind_eq_ok] at hp
  obtain ⟨steps, hsteps, hp⟩ := hp
  cases hp
  exact ⟨steps, forall₂_of_mapM hsteps, rfl⟩

end Interpretation

namespace Stencil

open Interpretation (connection)

/-- **Acceptance of element trees.** A tree is a stencil just when all that is required of its elements is met,
and otherwise the failure is that of the first requirement in document order that is not. A stencil that was
read has finite numbers and no negative sizes, and its entries are what the entries of the tree are read as, in
document order. -/
theorem ofElement_accepts (e : Element) :
    ((∃ s, Stencil.ofElement e = .ok s) ↔ ∀ r ∈ requirements .document e, r.Met) ∧
    (∀ f, Stencil.ofElement e = .error f ↔ FirstRefused (requirements .document e) f) ∧
    ∀ s, Stencil.ofElement e = .ok s → Interpretable s.numbers s.boxes ∧
      List.Forall₂ (fun d c => connection d = .ok c) (Xml.entries "connections" e.children) s.connections ∧
      List.Forall₂ Interpretation.Reads (Xml.entries "foreground" e.children) s.foreground := by
  have hobeys := Interpretation.obeys_ofElement e
  refine ⟨hobeys.ok_iff, hobeys.error_iff, fun s hs => ?_⟩
  obtain ⟨-, w, h, cs, ns, hw, hh, hcs, hns, rfl⟩ := ofElement_eq_ok.1 hs
  have hconnections : ∀ c ∈ cs, Interpretable c.numbers c.boxes := by
    intro c hc
    obtain ⟨d, -, hd⟩ := exists_of_mem_mapM hcs c hc
    exact Interpretation.interpretable_of_connection hd
  have hforeground : ∀ n ∈ ns, Interpretable n.numbers n.boxes := by
    intro n hn
    obtain ⟨d, -, hd⟩ := exists_of_mem_mapM hns n hn
    exact Interpretation.interpretable_of_node hd
  have hsize := And.intro (Interpretation.isFinite_of_number hw) (Interpretation.isFinite_of_number hh)
  exact ⟨interpretable_iff.2 ⟨hsize, hconnections, hforeground⟩, forall₂_of_mapM hcs,
    (forall₂_of_mapM hns).imp fun _ _ => Interpretation.reads_of_node⟩

example : (Stencil.ofElement (.node "shape" [("w", "4"), ("h", "4")] [.node "foreground" []
    [.leaf "shadow" [], .leaf "rect" [("w", "-1"), ("h", "2")], .leaf "ellipse" []]])) =
      .error (.invalidAttribute "rect" "w" "-1" (some .negative)) := by
  rfl

end Stencil

/-! ## Texts -/

/-- A fault was found after some part of the text. -/
theorem Xml.Fault.exists_place (text : String) (f : Xml.Fault) :
    ∃ before rest : String, text = before ++ rest ∧ f.place text.toList = .after before.toList := by
  unfold Xml.Fault.place
  split
  · exact ⟨"", text, String.empty_append.symm, rfl⟩
  · rename_i rest _
    refine ⟨.ofList (text.toList.take (text.toList.length - rest.length)),
      .ofList (text.toList.drop (text.toList.length - rest.length)), ?_, ?_⟩
    · rw [← String.ofList_append, List.take_append_drop, String.ofList_toList]
    · rw [String.toList_ofList]

/-- **The byte of a fault** is the length of the part of the text after which it was found, and its place in the
message is the place after that part. -/
theorem Stencil.ofText_eq_malformedText {text message : String} {offset : Nat}
    (h : ofText text = .error (.malformedText message offset)) :
    ∃ f, Xml.readDocument text.toList = .error f ∧ message = f.message text.toList ∧
      ∃ before rest : String, text = before ++ rest ∧ f.place text.toList = .after before.toList ∧
        offset = before.utf8ByteSize := by
  unfold ofText at h
  dsimp only at h
  split at h
  · rename_i e _
    exact absurd rfl (((Interpretation.obeys_ofElement e).refused _ h).ne_malformedText message offset)
  · rename_i f hread
    cases h
    obtain ⟨before, rest, htext, hplace⟩ := f.exists_place text
    refine ⟨f, hread, rfl, before, rest, htext, hplace, ?_⟩
    rw [hplace, htext, String.toList_append, Place.byteOffset_after, Place.byteLength_toList]

end StencilKit
