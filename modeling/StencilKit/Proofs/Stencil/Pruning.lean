/-
Clutter in a stencil's tree does not count.

Elements that have no meaning where they stand can be left out of a tree, at every place and in any number
(`Pruned`). Each reader answers the rest with the same, but for entries of unknown meaning; and nothing that a
stencil is asked for depends on those (`Stencil.decompose_known`, `Silhouette.ofStencil_known`). So what is
drawn and what can be hit is the same with and without the clutter (`Stencil.ofElement_pruned`).
-/
import StencilKit.Decomposition
import StencilKit.Proofs.Stencil.RoundTrip
import StencilKit.Proofs.Stencil.Schema
import StencilKit.Proofs.Stencil.Sections
import StencilKit.Region.Silhouette

namespace StencilKit

open Schema (Level)
open Xml (Element bind_eq_ok)

/-! ## Trees without clutter -/

/-- Where the children of an element of this name stand. -/
def Schema.Level.inside (level : Level) (tag : String) : Level := ((level.rule? tag).map (·.inside)).getD .leaf

/-- Elements in a row of which some are left out, here and inside them: any that have no meaning where they
stand. -/
inductive PrunedAll : Level → List Element → List Element → Prop
  | nil (level : Level) : PrunedAll level [] []
  | drop {level : Level} {e : Element} {es es' : List Element} (h : level.rule? e.tag = none)
    (hrest : PrunedAll level es es') : PrunedAll level (e :: es) es'
  | keep {level : Level} {tag : String} (attributes : List (String × String)) {cs cs' es es' : List Element}
    (hinside : PrunedAll (level.inside tag) cs cs') (hrest : PrunedAll level es es') :
    PrunedAll level (.node tag attributes cs :: es) (.node tag attributes cs' :: es')

/-- The tree of a stencil with some clutter left out. -/
def Pruned (e e' : Element) : Prop := PrunedAll .document [e] [e']

namespace PrunedAll

variable {level : Level} {es es' fs fs' : List Element}

theorem append (h : PrunedAll level es es') (hf : PrunedAll level fs fs') :
    PrunedAll level (es ++ fs) (es' ++ fs') := by
  induction h with
  | nil => exact hf
  | drop hnone _ ih => exact .drop hnone (ih hf)
  | keep attributes hinside _ _ ih => exact .keep attributes hinside (ih hf)

/-- What is read of the rest, as far as it is looked at. -/
theorem mapM {T U : Type} {read : Element → Interpretation.Result T} {view : T → Option U}
    (hskip : ∀ e a, level.rule? e.tag = none → read e = .ok a → view a = none)
    (hkeep : ∀ tag attributes cs cs' a, PrunedAll (level.inside tag) cs cs' →
      read (.node tag attributes cs) = .ok a → ∃ a', read (.node tag attributes cs') = .ok a' ∧ view a' = view a)
    (h : PrunedAll level es es') {as : List T} (hread : es.mapM read = .ok as) :
    ∃ as', es'.mapM read = .ok as' ∧ as'.filterMap view = as.filterMap view := by
  induction h generalizing as with
  | nil => exact ⟨as, hread, rfl⟩
  | drop hnone _ ih =>
    simp only [List.mapM_cons, bind_eq_ok] at hread
    obtain ⟨a, ha, bs, hbs, hread⟩ := hread
    cases hread
    obtain ⟨bs', hbs', hview⟩ := ih hskip hkeep hbs
    exact ⟨bs', hbs', by rw [hview, List.filterMap_cons, hskip _ a hnone ha]⟩
  | keep attributes hinside _ _ ih =>
    simp only [List.mapM_cons, bind_eq_ok] at hread
    obtain ⟨a, ha, bs, hbs, hread⟩ := hread
    cases hread
    obtain ⟨a', ha', hviewA⟩ := hkeep _ attributes _ _ a hinside ha
    obtain ⟨bs', hbs', hviewB⟩ := ih hskip hkeep hbs
    refine ⟨a' :: bs', ?_, by rw [List.filterMap_cons, List.filterMap_cons, hviewA, hviewB]⟩
    rw [List.mapM_cons, ha', hbs']
    rfl

/-- The entries of the sections of one name. -/
theorem entries {name : String} (hname : Level.shape.rule? name = some { demands := [], inside := level })
    (h : PrunedAll .shape es es') : PrunedAll level (Xml.entries name es) (Xml.entries name es') := by
  generalize hshape : Level.shape = place at h
  induction h with
  | nil => exact .nil level
  | drop hnone _ ih =>
    subst hshape
    rw [Xml.entries_cons, if_neg, List.nil_append]
    · exact ih rfl
    · rintro rfl
      cases hname.symm.trans hnone
  | keep attributes hinside _ _ ih =>
    subst hshape
    rename_i tag cs cs' _ _ _ _
    rw [Xml.entries_cons, Xml.entries_cons]
    refine append ?_ (ih rfl)
    by_cases htag : tag = name
    · subst htag
      rw [Level.inside, hname] at hinside
      simpa [Element.tag, Element.children] using hinside
    · simpa [Element.tag, htag] using PrunedAll.nil level

end PrunedAll

/-! ## Readers -/

namespace Interpretation

theorem step?_of_unknown {e : Element} (h : Level.path.rule? e.tag = none) : step? e = .ok none := by
  unfold step?
  split <;> simp_all [Level.rule?]

theorem connection_of_unknown {e : Element} (h : Level.connections.rule? e.tag = none) :
    connection e = .ok (.unknown e.tag) := by
  unfold connection
  split <;> simp_all [Level.rule?]

theorem node_of_unknown {e : Element} (h : Level.foreground.rule? e.tag = none) :
    node e = .ok (.unknown e.tag) := by
  unfold node
  split <;> simp_all [Level.rule?]

/-- The steps of a path are those that are left. -/
theorem path_of_pruned {tag : String} {attributes : List (String × String)} {cs cs' : List Element} {p : Path Float}
    (h : PrunedAll .path cs cs') (hread : path (.node tag attributes cs) = .ok p) :
    path (.node tag attributes cs') = .ok p := by
  simp only [path, bind_eq_ok] at hread ⊢
  obtain ⟨steps, hsteps, hp⟩ := hread
  -- No step looks at what is inside its element.
  have hleft : ∃ steps', cs'.mapM step? = .ok steps' ∧ steps'.filterMap id = steps.filterMap id :=
    h.mapM (fun e a hnone ha => Except.ok.inj (ha.symm.trans (step?_of_unknown hnone)))
      (fun _ _ _ _ a _ ha => ⟨a, ha, rfl⟩) hsteps
  obtain ⟨steps', hsteps', hview⟩ := hleft
  exact ⟨steps', hsteps', by rw [hview]; exact hp⟩

theorem connection_of_pruned {tag : String} {attributes : List (String × String)} {cs cs' : List Element}
    {c : Connection Float} (hread : connection (.node tag attributes cs) = .ok c) :
    connection (.node tag attributes cs') = .ok c := hread

theorem node_of_pruned {tag : String} {attributes : List (String × String)} {cs cs' : List Element} {n : Node Float}
    (h : PrunedAll (Level.foreground.inside tag) cs cs') (hread : node (.node tag attributes cs) = .ok n) :
    node (.node tag attributes cs') = .ok n := by
  by_cases htag : tag = "path"
  · subst htag
    obtain ⟨p, hp, rfl⟩ := map_eq_ok_iff.1 (show (path _).map Node.path = .ok n from hread)
    exact map_eq_ok_iff.2 ⟨p, path_of_pruned h hp, rfl⟩
  · have hsame : node (.node tag attributes cs') = node (.node tag attributes cs) := by
      unfold node
      simp only [Element.tag]
      split
      · exact absurd rfl htag
      all_goals rfl
    rw [hsame, hread]

theorem connections_of_pruned {es es' : List Element} {cs : List (Connection Float)}
    (h : PrunedAll .connections es es') (hread : es.mapM connection = .ok cs) :
    ∃ cs', es'.mapM connection = .ok cs' ∧ cs'.filter (·.isKnown) = cs.filter (·.isKnown) := by
  simp only [← List.filterMap_eq_filter]
  refine h.mapM (fun e c hnone hc => ?_) (fun _ _ _ _ c _ hc => ⟨c, connection_of_pruned hc, rfl⟩) hread
  cases hc.symm.trans (connection_of_unknown hnone)
  rfl

theorem nodes_of_pruned {es es' : List Element} {ns : List (Node Float)} (h : PrunedAll .foreground es es')
    (hread : es.mapM node = .ok ns) :
    ∃ ns', es'.mapM node = .ok ns' ∧ ns'.filter (·.isKnown) = ns.filter (·.isKnown) := by
  simp only [← List.filterMap_eq_filter]
  refine h.mapM (fun e n hnone hn => ?_) (fun _ _ _ _ n hinside hn => ⟨n, node_of_pruned hinside hn, rfl⟩) hread
  cases hn.symm.trans (node_of_unknown hnone)
  rfl

end Interpretation

/-! ## Entries of unknown meaning -/

section

variable {α : Type}

theorem Node.eq_unknown {n : Node α} (h : n.isKnown = false) : ∃ tag, n = .unknown tag := by
  cases n with
  | unknown tag => exact ⟨tag, rfl⟩
  | _ => cases h

theorem Connection.eq_unknown {c : Connection α} (h : c.isKnown = false) : ∃ tag, c = .unknown tag := by
  cases c with
  | unknown tag => exact ⟨tag, rfl⟩
  | _ => cases h

theorem Node.draws_of_unknown {n : Node α} (h : n.isKnown = false) : n.draws = false := by
  obtain ⟨tag, rfl⟩ := eq_unknown h
  rfl

theorem Style.paint_of_unknown {n : Node α} (h : n.isKnown = false) (style : Style α) : style.paint n = style := by
  obtain ⟨tag, rfl⟩ := Node.eq_unknown h
  rfl

/-- What paints an entry is what follows it up to the next one that draws. -/
theorem Style.foldl_paint_known (ns : List (Node α)) (style : Style α) :
    ((ns.filter (·.isKnown)).takeWhile (!·.draws)).foldl paint style = (ns.takeWhile (!·.draws)).foldl paint style := by
  induction ns generalizing style with
  | nil => rfl
  | cons n ns ih =>
    cases hn : n.isKnown with
    | false =>
      rw [List.filter_cons_of_neg (by simp [hn]), ih, List.takeWhile_cons_of_pos (by simp [Node.draws_of_unknown hn]),
        List.foldl_cons, paint_of_unknown hn]
    | true =>
      rw [List.filter_cons_of_pos hn]
      cases hdraws : n.draws with
      | false => simp [hdraws, ih]
      | true => simp [hdraws]

variable [Scalar α]

theorem Bench.connect_of_unknown (bench : Bench α) (parts : Parts α) {c : Connection α} (h : c.isKnown = false) :
    bench.connect parts c = parts := by
  obtain ⟨tag, rfl⟩ := Connection.eq_unknown h
  rfl

theorem Silhouette.ofNode_of_unknown (scale : Point α) (k : Nat) {n : Node α} (h : n.isKnown = false) :
    ofNode scale k n = [] := by
  obtain ⟨tag, rfl⟩ := Node.eq_unknown h
  rfl

theorem Bench.foldl_connect_known (bench : Bench α) (cs : List (Connection α)) (parts : Parts α) :
    (cs.filter (·.isKnown)).foldl bench.connect parts = cs.foldl bench.connect parts := by
  induction cs generalizing parts with
  | nil => rfl
  | cons c cs ih =>
    cases hc : c.isKnown with
    | false => rw [List.filter_cons_of_neg (by simp [hc]), ih, List.foldl_cons, bench.connect_of_unknown parts hc]
    | true => rw [List.filter_cons_of_pos hc, List.foldl_cons, ih, List.foldl_cons]

theorem Placement.primitives_known (m : Placement α) (ns : List (Node α)) :
    m.primitives (ns.filter (·.isKnown)) = m.primitives ns := by
  induction ns with
  | nil => rfl
  | cons n ns ih =>
    cases hn : n.isKnown with
    | false =>
      rw [List.filter_cons_of_neg (by simp [hn]), ih, primitives, Node.draws_of_unknown hn, if_neg Bool.false_ne_true]
    | true => simp only [List.filter_cons_of_pos hn, primitives, Style.foldl_paint_known, ih]

/-- **Entries of unknown meaning are passed over** where a stencil is taken apart. -/
theorem Stencil.decompose_known (s : Stencil α) (options : DecomposeOptions α) (b : Box α) :
    s.known.decompose options b = s.decompose options b := by
  have hplace : Placement.of s.known b = Placement.of s b := rfl
  rw [decompose, decompose, hplace]
  simp only [known, Bench.foldl_connect_known, Placement.primitives_known]

/-- **Entries of unknown meaning have no outline.** -/
theorem Silhouette.ofStencil_known (s : Stencil α) (size : Point α) (k : Nat) :
    ofStencil s.known size k = ofStencil s size k := by
  have hscale : s.known.scaleTo size = s.scaleTo size := rfl
  rw [ofStencil, ofStencil, hscale, Stencil.known]
  induction s.foreground with
  | nil => rfl
  | cons n ns ih =>
    cases hn : n.isKnown with
    | false =>
      rw [List.filter_cons_of_neg (by simp [hn]), ih, List.flatMap_cons, ofNode_of_unknown _ k hn, List.nil_append]
    | true => rw [List.filter_cons_of_pos hn, List.flatMap_cons, ih, List.flatMap_cons]

end

/-! ## Stencils -/

namespace Stencil

open Interpretation (connections_of_pruned nodes_of_pruned)

theorem known_of_pruned {e e' : Element} {s : Stencil Float} (hpruned : Pruned e e')
    (h : Stencil.ofElement e = .ok s) : ∃ s', Stencil.ofElement e' = .ok s' ∧ s'.known = s.known := by
  cases hpruned with
  | drop hnone _ => cases hnone
  | @keep _ tag attributes children children' _ _ hinside _ =>
    have hshape : PrunedAll .shape children children' := hinside
    obtain ⟨htag, w, height, cs, ns, hw, hh, hcs, hns, rfl⟩ := ofElement_eq_ok.1 h
    obtain ⟨cs', hcs', hconnections⟩ := connections_of_pruned (hshape.entries rfl) hcs
    obtain ⟨ns', hns', hforeground⟩ := nodes_of_pruned (hshape.entries rfl) hns
    refine ⟨_, ofElement_eq_ok.2 ⟨htag, w, height, cs', ns', hw, hh, hcs', hns', rfl⟩, ?_⟩
    simp only [known, hconnections, hforeground]
    rfl

/-- **Clutter does not count.** When elements that have no meaning where they stand are left out of a tree that
is read as a stencil, the rest is read as a stencil with the same entries of known meaning; it is taken apart
into the same primitives and markers, wherever it is drawn, and has the same silhouette at every size. -/
theorem ofElement_pruned {e e' : Element} {s : Stencil Float} (hpruned : Pruned e e')
    (h : Stencil.ofElement e = .ok s) :
    ∃ s', Stencil.ofElement e' = .ok s' ∧ s'.known = s.known ∧
      (∀ options b, s'.decompose options b = s.decompose options b) ∧
      ∀ size n, Silhouette.ofStencil s' size n = Silhouette.ofStencil s size n := by
  obtain ⟨s', hs', hknown⟩ := known_of_pruned hpruned h
  refine ⟨s', hs', hknown, fun options b => ?_, fun size n => ?_⟩
  · rw [← s'.decompose_known, hknown, s.decompose_known]
  · rw [← Silhouette.ofStencil_known s', hknown, Silhouette.ofStencil_known s]

/-- A line in red and a point to attach to, with clutter at every place. -/
def cluttered : Element :=
  .node "shape" [("w", "8"), ("h", "4")]
    [.leaf "background" [],
      .node "connections" [] [.leaf "note" [("x", "?")], .leaf "constraint" [("x", "0.5"), ("y", "1")]],
      .node "foreground" []
        [.node "path" []
          [.leaf "move" [("x", "0"), ("y", "0")], .leaf "arc" [], .leaf "line" [("x", "8"), ("y", "4")]],
        .leaf "shadow" [], .node "strokecolor" [("color", "red")] [.leaf "rgb" []]]]

/-- The same without the clutter. -/
def uncluttered : Element :=
  .node "shape" [("w", "8"), ("h", "4")]
    [.node "connections" [] [.leaf "constraint" [("x", "0.5"), ("y", "1")]],
      .node "foreground" []
        [.node "path" [] [.leaf "move" [("x", "0"), ("y", "0")], .leaf "line" [("x", "8"), ("y", "4")]],
        .leaf "strokecolor" [("color", "red")]]]

theorem pruned_uncluttered : Pruned cluttered uncluttered := by
  refine .keep _ (.drop rfl (.keep _ ?connections (.keep _ ?foreground (.nil _)))) (.nil _)
  case connections => exact .drop rfl (.keep _ (.nil _) (.nil _))
  case foreground =>
    refine .keep _ ?path (.drop rfl (.keep _ (.drop rfl (.nil _)) (.nil _)))
    exact .keep _ (.nil _) (.drop rfl (.keep _ (.nil _) (.nil _)))

theorem ofElement_pruned_uncluttered :
    ∃ s s', Stencil.ofElement cluttered = .ok s ∧ Stencil.ofElement uncluttered = .ok s' ∧ s'.known = s.known ∧
      (∀ options b, s'.decompose options b = s.decompose options b) ∧
      ∀ size n, Silhouette.ofStencil s' size n = Silhouette.ofStencil s size n := by
  have hok : (Stencil.ofElement cluttered).isOk = true := by decide +kernel
  cases h : Stencil.ofElement cluttered with
  | error f =>
    rw [h] at hok
    cases hok
  | ok s =>
    obtain ⟨s', hs'⟩ := ofElement_pruned pruned_uncluttered h
    exact ⟨s, s', rfl, hs'⟩

end Stencil

end StencilKit
