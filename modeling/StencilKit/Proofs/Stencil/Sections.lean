/-
The sections of a stencil's tree.

However many sections of one name the root has, and whatever stands between them, they come to one list of
entries in document order (`Xml.entries`). So a tree is read just when its root has a size and the two lists
of entries can be read (`Stencil.ofElement_eq_ok`).
-/
import StencilKit.Proofs.Stencil.Elements

namespace StencilKit

open Xml (Element bind_eq_ok)

/-- The entries of the sections of one name, in document order. -/
def Xml.entries (name : String) (es : List Element) : List Element :=
  (es.filter (·.tag = name)).flatMap Element.children

theorem Xml.entries_cons (name : String) (e : Element) (es : List Element) :
    entries name (e :: es) = (if e.tag = name then e.children else []) ++ entries name es := by
  by_cases h : e.tag = name <;> simp [entries, h]

theorem mapM_append_eq_ok {ε T U : Type} {f : T → Except ε U} {xs ys : List T} {zs : List U} :
    (xs ++ ys).mapM f = .ok zs ↔
      ∃ as bs, xs.mapM f = .ok as ∧ ys.mapM f = .ok bs ∧ zs = as ++ bs := by
  simp only [List.mapM_append, bind_eq_ok, pure, Except.pure, Except.ok.injEq]
  constructor
  · rintro ⟨as, has, bs, hbs, rfl⟩
    exact ⟨as, bs, has, hbs, rfl⟩
  · rintro ⟨as, bs, has, hbs, rfl⟩
    exact ⟨as, has, bs, hbs, rfl⟩

namespace Stencil

open Interpretation (connection node number addSection)

theorem addSection_eq_ok {s t : Stencil Float} {e : Element} : addSection s e = .ok t ↔
    ∃ cs ns, (if e.tag = "connections" then e.children else []).mapM connection = .ok cs ∧
      (if e.tag = "foreground" then e.children else []).mapM node = .ok ns ∧
      t = { s with connections := s.connections ++ cs, foreground := s.foreground ++ ns } := by
  unfold addSection
  split
  · rename_i htag
    rw [htag, if_pos rfl, if_neg (by decide)]
    simp only [bind_eq_ok, List.mapM_nil]
    constructor
    · rintro ⟨cs, hcs, h⟩
      cases h
      exact ⟨cs, [], hcs, rfl, by rw [List.append_nil]⟩
    · rintro ⟨cs, ns, hcs, hns, rfl⟩
      cases hns
      exact ⟨cs, hcs, by rw [List.append_nil]; rfl⟩
  · rename_i htag
    rw [htag, if_pos rfl, if_neg (by decide)]
    simp only [bind_eq_ok, List.mapM_nil]
    constructor
    · rintro ⟨ns, hns, h⟩
      cases h
      exact ⟨[], ns, rfl, hns, by rw [List.append_nil]⟩
    · rintro ⟨cs, ns, hcs, hns, rfl⟩
      cases hcs
      exact ⟨ns, hns, by rw [List.append_nil]; rfl⟩
  · rename_i hconnections hforeground
    rw [if_neg hconnections, if_neg hforeground]
    constructor
    · intro h
      cases h
      exact ⟨[], [], rfl, rfl, by simp only [List.append_nil]⟩
    · rintro ⟨cs, ns, hcs, hns, rfl⟩
      cases hcs
      cases hns
      simp only [List.reverse_nil, List.append_nil]

/-- The sections of one name come to one list of entries. -/
theorem foldlM_addSection_eq_ok {s t : Stencil Float} {es : List Element} : es.foldlM addSection s = .ok t ↔
    ∃ cs ns, (Xml.entries "connections" es).mapM connection = .ok cs ∧
      (Xml.entries "foreground" es).mapM node = .ok ns ∧
      t = { s with connections := s.connections ++ cs, foreground := s.foreground ++ ns } := by
  induction es generalizing s with
  | nil =>
    constructor
    · intro h
      cases h
      exact ⟨[], [], rfl, rfl, by simp only [List.append_nil]⟩
    · rintro ⟨cs, ns, hcs, hns, rfl⟩
      cases hcs
      cases hns
      simp only [List.reverse_nil, List.append_nil]
      rfl
  | cons e es ih =>
    simp only [List.foldlM_cons, bind_eq_ok, addSection_eq_ok, ih, Xml.entries_cons, mapM_append_eq_ok]
    constructor
    · rintro ⟨_, ⟨cs, ns, hcs, hns, rfl⟩, cs', ns', hcs', hns', rfl⟩
      exact ⟨cs ++ cs', ns ++ ns', ⟨cs, cs', hcs, hcs', rfl⟩, ⟨ns, ns', hns, hns', rfl⟩,
        by simp only [List.append_assoc]⟩
    · rintro ⟨_, _, ⟨cs, cs', hcs, hcs', rfl⟩, ⟨ns, ns', hns, hns', rfl⟩, rfl⟩
      exact ⟨_, ⟨cs, ns, hcs, hns, rfl⟩, cs', ns', hcs', hns', by simp only [List.append_assoc]⟩

/-- What a tree is read as. -/
theorem ofElement_eq_ok {e : Element} {s : Stencil Float} : Stencil.ofElement e = .ok s ↔
    e.tag = "shape" ∧ ∃ w h cs ns, number e "w" = .ok w ∧ number e "h" = .ok h ∧
      (Xml.entries "connections" e.children).mapM connection = .ok cs ∧
      (Xml.entries "foreground" e.children).mapM node = .ok ns ∧
      s = { w, h, fixed := e.get? "aspect" == some "fixed", strokeWidth := (e.get? "strokewidth").getD "1",
            connections := cs, foreground := ns } := by
  unfold ofElement
  split
  · rename_i htag
    exact iff_of_false nofun fun h => htag h.1
  · rename_i htag
    rw [and_iff_right (not_not.1 htag)]
    simp only [bind_eq_ok, foldlM_addSection_eq_ok, List.nil_append]
    constructor
    · rintro ⟨w, hw, h, hh, cs, ns, hcs, hns, hs⟩
      exact ⟨w, h, cs, ns, hw, hh, hcs, hns, hs⟩
    · rintro ⟨w, h, cs, ns, hw, hh, hcs, hns, hs⟩
      exact ⟨w, hw, h, hh, cs, ns, hcs, hns, hs⟩

end Stencil

end StencilKit
