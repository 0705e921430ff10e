/-
The same edges in another order.

The order of the edges tells wherever there is a choice: between edges that begin at the one lowest first
point, and between edges that go on from the same end. Where there is never a choice (`Unforked`), the order
is of no account. A walk keeps it so (`walk_perm`): besides the edge along which it has come to an end, at
most one has an end there, and so at most one of those that remain goes on.
-/
import StencilKit.Options
import StencilKit.Proofs.Chain.Beginning

namespace StencilKit.Chain

variable {tolerance : Float} {edges edges' remaining remaining' : List (Edge Float)}

/-- Whether at each end of an edge at most one other edge has an end. -/
def Unbranched (tolerance : Float) (edges : List (Edge Float)) : Prop :=
  ∀ e ∈ edges, ∀ reversed, othersAtStart tolerance edges ⟨e, reversed⟩ ≤ 1

instance : Decidable (Unbranched tolerance edges) :=
  inferInstanceAs (Decidable (∀ e ∈ edges, ∀ _, _ ≤ _))

/-- Whether a walk through edges never has a choice: where to begin, or how to go on. -/
structure Unforked (tolerance : Float) (edges : List (Edge Float)) : Prop where
  unbranched : Unbranched tolerance edges
  beginning : ∀ l m, Begins tolerance edges l → Begins tolerance edges m → l = m

/-- Where to begin is settled by a free end or, if no end is free, by a lowest first point at which one edge
only begins. -/
theorem Unbranched.unforked (h : Unbranched tolerance edges) (htolerance : 0 ≤ tolerance)
    (hfinite : ∀ e ∈ edges, ∀ p ∈ e.points, p.isFinite = true)
    (hone : (∃ l, IsFree tolerance edges l) ∨ ∀ e ∈ edges, ∀ f ∈ edges,
      (∀ g ∈ edges, e.route.source.rank ≤ g.route.source.rank) → f.route.source = e.route.source → f = e) :
    Unforked tolerance edges where
  unbranched := h
  beginning _ _ hl hm := hl.unique htolerance hfinite hone hm

theorem Unbranched.perm (h : Unbranched tolerance edges) (hperm : edges.Perm edges') :
    Unbranched tolerance edges' :=
  fun e he reversed => othersAtStart_perm hperm _ ▸ h e (hperm.mem_iff.2 he) reversed

/-- Without one of its edges, a list has no more edges at any end. -/
theorem Unbranched.tail {e : Edge Float} (h : Unbranched tolerance (e :: edges)) : Unbranched tolerance edges := by
  intro f hf reversed
  obtain ⟨others, hothers⟩ := exists_mem_eachWithOthers hf
  have hperm := perm_of_mem_eachWithOthers hothers
  have hone := h f (List.mem_cons_of_mem e hf) reversed
  rw [othersAtStart_eq ((List.Perm.swap e f others).trans (hperm.cons e))] at hone
  rw [othersAtStart_eq hperm]
  exact (List.sublist_cons_self e others).countP_le.trans hone

/-- Once a walk has come along one edge to its end, one edge at most goes on from there. -/
theorem Unbranched.countP_stop_le {link : Link Float} (h : Unbranched tolerance (link.edge :: remaining)) :
    remaining.countP (touches tolerance link.stop) ≤ 1 := by
  have hone : othersAtStart tolerance (link.edge :: remaining) link.flip ≤ 1 :=
    h link.edge List.mem_cons_self (!link.reversed)
  have hedges : (link.flip.edge :: remaining).Perm (link.edge :: remaining) := .refl _
  rwa [othersAtStart_eq hedges, Link.start_flip] at hone

/-- Where one edge at most can be taken, it is taken from any order. -/
theorem takeTouching?_perm {p : Point Float} (hperm : remaining.Perm remaining')
    (hone : remaining.countP (touches tolerance p) ≤ 1) :
    (takeTouching? tolerance p remaining = none ∧ takeTouching? tolerance p remaining' = none) ∨
      ∃ e others others', takeTouching? tolerance p remaining = some (e, others) ∧
        takeTouching? tolerance p remaining' = some (e, others') ∧ others.Perm others' := by
  cases h : takeTouching? tolerance p remaining with
  | none =>
    refine .inl ⟨rfl, ?_⟩
    cases h' : takeTouching? tolerance p remaining' with
    | none => rfl
    | some found =>
      obtain ⟨htouches, hothers⟩ := takeTouching?_eq_some h'
      have hnot := touches_of_takeTouching?_eq_none h _ ((hothers.trans hperm.symm).mem_iff.1 List.mem_cons_self)
      exact absurd htouches (by rw [hnot]; exact Bool.false_ne_true)
  | some found =>
    obtain ⟨e, others⟩ := found
    obtain ⟨htouches, hothers⟩ := takeTouching?_eq_some h
    have he := hothers.mem_iff.1 List.mem_cons_self
    refine .inr ?_
    cases h' : takeTouching? tolerance p remaining' with
    | none =>
      have hnot := touches_of_takeTouching?_eq_none h' e (hperm.mem_iff.1 he)
      exact absurd htouches (by rw [hnot]; exact Bool.false_ne_true)
    | some found' =>
      obtain ⟨e', others'⟩ := found'
      obtain ⟨htouches', hothers'⟩ := takeTouching?_eq_some h'
      have he' := (hothers'.trans hperm.symm).mem_iff.1 List.mem_cons_self
      obtain rfl : e = e' := by
        by_contra hne
        have htwo := two_le_countP he he' hne htouches htouches'
        omega
      exact ⟨e, others, others', rfl, rfl, ((hothers.trans hperm).trans hothers'.symm).cons_inv⟩

/-- **A walk that never has a choice goes on in the same way through any order of what remains.** -/
theorem walk_perm (linked : Nat) (link : Link Float) (hperm : remaining.Perm remaining')
    (h : Unbranched tolerance (link.edge :: remaining)) :
    walk tolerance linked link remaining = walk tolerance linked link remaining' := by
  induction linked, link, remaining using walk.induct tolerance generalizing remaining' with
  | case1 linked link remaining hempty =>
    obtain rfl := List.isEmpty_iff.1 hempty
    rw [hperm.nil_eq]
  | case2 linked link remaining hne hnone =>
    rcases takeTouching?_perm hperm h.countP_stop_le with ⟨-, hnone'⟩ | ⟨_, _, _, hsome, -, -⟩
    · have hne : remaining ≠ [] := by simpa using hne
      have hne' : remaining' ≠ [] := fun hnil => hne (hperm.trans (.of_eq hnil)).eq_nil
      rw [walk_of_none hne hnone, walk_of_none hne' hnone', hperm.length_eq]
    · cases hnone.symm.trans hsome
  | case3 linked link remaining hne e others hsome _ ih =>
    rcases takeTouching?_perm hperm h.countP_stop_le with ⟨hnone, -⟩ | ⟨_, _, others', hsome', htake', hothers⟩
    · cases hnone.symm.trans hsome
    · cases hsome.symm.trans hsome'
      obtain ⟨-, htaken⟩ := takeTouching?_eq_some hsome
      rw [walk_of_some hsome, walk_of_some htake']
      exact congrArg _ (ih hothers (h.tail.perm htaken.symm))

/-- **Where there is never a choice, all orders of the edges have the same outcome**: the same path, or the
same complaint. -/
theorem path_perm (origin : Point Float) (h : Unforked tolerance edges) (hperm : edges.Perm edges') :
    path tolerance origin edges = path tolerance origin edges' := by
  suffices hlinks : links tolerance edges = links tolerance edges' by rw [path, path, hlinks]
  by_cases hne : edges = []
  · subst hne
    rw [hperm.nil_eq]
  · have hne' : edges' ≠ [] := fun hnil => hne (hperm.trans (.of_eq hnil)).eq_nil
    obtain ⟨link, others, hstart, hothers⟩ := start?_of_ne_nil tolerance hne
    obtain ⟨link', others', hstart', hothers'⟩ := start?_of_ne_nil tolerance hne'
    obtain rfl : link = link' :=
      h.beginning link link' (begins_of_start? hstart).2 ((begins_of_start? hstart').2.perm hperm.symm)
    have hsame : others.Perm others' := ((hothers.trans hperm).trans hothers'.symm).cons_inv
    rw [links, hstart, links, hstart']
    exact walk_perm 1 link hsame (h.unbranched.perm hothers.symm)

/-- Two lines, one after the other, and two that lead from where they meet to a side and back. -/
def detour : List (Edge Float) :=
  [⟨.line, ⟨⟨0, 0⟩, [], ⟨10, 0⟩⟩⟩, ⟨.line, ⟨⟨10, 0⟩, [], ⟨20, 0⟩⟩⟩, ⟨.line, ⟨⟨10, 0⟩, [], ⟨15, 5⟩⟩⟩,
    ⟨.line, ⟨⟨15, 5⟩, [], ⟨10, 0⟩⟩⟩]

/-- Without the way to the side and back there is no choice. -/
theorem unforked_detour_two : Unforked ComposeOptions.standard.joinTolerance (detour.take 2) := by
  have hfree : IsFree ComposeOptions.standard.joinTolerance (detour.take 2)
      ⟨⟨.line, ⟨⟨0, 0⟩, [], ⟨10, 0⟩⟩⟩, false⟩ := ⟨List.mem_cons_self, by decide +kernel⟩
  have hunbranched : Unbranched ComposeOptions.standard.joinTolerance (detour.take 2) := by decide +kernel
  exact hunbranched.unforked (by decide +kernel) (by decide +kernel) (.inl ⟨_, hfree⟩)

end StencilKit.Chain
