/-
Where a walk begins.

An end of an edge is free when no other edge has an end there (`IsFree`). A walk begins at the lowest free
first point; if there is none, backwards at the lowest free last point; and only if no end is free at all,
at the lowest first point (`Begins`). None of this speaks of the order in which the edges are listed, and
two free ends are never at one finite point, so among free ends the beginning is a matter of the edges
alone (`Begins.unique`).
-/
import StencilKit.Proofs.Binary64.Distance
import StencilKit.Proofs.Binary64.Order
import StencilKit.Proofs.Chain.Walk

namespace StencilKit

theorem exists_mem_eachWithOthers {T : Type} {x : T} {xs : List T} (h : x ∈ xs) :
    ∃ others, (x, others) ∈ eachWithOthers xs := by
  induction xs with
  | nil => cases h
  | cons y ys ih =>
    rcases List.mem_cons.1 h with rfl | h
    · exact ⟨ys, List.mem_cons_self⟩
    · obtain ⟨others, hothers⟩ := ih h
      exact ⟨y :: others, List.mem_cons_of_mem _ (List.mem_map.2 ⟨_, hothers, rfl⟩)⟩

/-- Two different members with a property count as two. -/
theorem two_le_countP {T : Type} {p : T → Bool} {xs : List T} {x y : T} (hx : x ∈ xs) (hy : y ∈ xs)
    (hne : x ≠ y) (hpx : p x = true) (hpy : p y = true) : 2 ≤ xs.countP p := by
  obtain ⟨others, hothers⟩ := exists_mem_eachWithOthers hx
  have hperm := perm_of_mem_eachWithOthers hothers
  have hmem : y ∈ others := (List.mem_cons.1 (hperm.mem_iff.2 hy)).resolve_left hne.symm
  have hpos : 0 < others.countP p := List.countP_pos_iff.2 ⟨y, hmem, hpy⟩
  rw [← hperm.countP_eq, List.countP_cons_of_pos hpx]
  omega

namespace Link

variable {α : Type}

/-- The same edge, walked the other way. -/
def flip (l : Link α) : Link α := { l with reversed := !l.reversed }

@[simp] theorem edge_flip (l : Link α) : l.flip.edge = l.edge := rfl

@[simp] theorem start_flip (l : Link α) : l.flip.start = l.stop := by
  obtain ⟨e, _ | _⟩ := l <;> rfl

@[simp] theorem stop_flip (l : Link α) : l.flip.stop = l.start := by
  obtain ⟨e, _ | _⟩ := l <;> rfl

end Link

namespace Chain

/-! ## Lowest points -/

/-- **The lowest of several is one of them, and none is lower.** -/
theorem lowest?_eq_some {T : Type} {key : T → Point Float} {xs : List T} {x : T}
    (h : lowest? key xs = some x) : x ∈ xs ∧ ∀ y ∈ xs, (key x).rank ≤ (key y).rank := by
  induction xs generalizing x with
  | nil => cases h
  | cons y ys ih =>
    rw [lowest?] at h
    split at h
    · rename_i hnone
      cases h
      rw [lowest?_eq_none hnone]
      exact ⟨List.mem_cons_self, List.forall_mem_singleton.2 le_rfl⟩
    · rename_i z hz
      obtain ⟨hmem, hlowest⟩ := ih hz
      split at h
      · rename_i hlt
        cases h
        have hlt := Point.order_eq_lt_iff.1 hlt
        exact ⟨List.mem_cons_of_mem _ hmem, List.forall_mem_cons.2 ⟨hlt.le, hlowest⟩⟩
      · rename_i hnot
        cases h
        have hle := Nat.le_of_not_lt (mt Point.order_eq_lt_iff.2 hnot)
        exact ⟨List.mem_cons_self, List.forall_mem_cons.2 ⟨le_rfl, fun w hw => hle.trans (hlowest w hw)⟩⟩

/-! ## Free ends -/

variable {tolerance : Float}

/-- How many other edges of a list have an end where an edge of it begins, when walked as the link says. -/
def othersAtStart (tolerance : Float) (edges : List (Edge Float)) (l : Link Float) : Nat :=
  edges.countP (touches tolerance l.start) - (touches tolerance l.start l.edge).toNat

theorem othersAtStart_eq {edges others : List (Edge Float)} {l : Link Float}
    (hperm : (l.edge :: others).Perm edges) :
    othersAtStart tolerance edges l = others.countP (touches tolerance l.start) := by
  rw [othersAtStart, ← hperm.countP_eq, List.countP_cons]
  cases touches tolerance l.start l.edge
  · rfl
  · exact Nat.add_sub_cancel _ _

theorem othersAtStart_perm {edges edges' : List (Edge Float)} (hperm : edges.Perm edges') (l : Link Float) :
    othersAtStart tolerance edges l = othersAtStart tolerance edges' l := by
  rw [othersAtStart, othersAtStart, hperm.countP_eq]

/-- Whether an edge of a list begins, when walked as the link says, where no other edge of the list has
an end. -/
def IsFree (tolerance : Float) (edges : List (Edge Float)) (l : Link Float) : Prop :=
  l.edge ∈ edges ∧ othersAtStart tolerance edges l = 0

theorem IsFree.perm {edges edges' : List (Edge Float)} {l : Link Float} (h : IsFree tolerance edges l)
    (hperm : edges.Perm edges') : IsFree tolerance edges' l :=
  ⟨hperm.mem_iff.1 h.1, othersAtStart_perm hperm l ▸ h.2⟩

/-- An end is free if none of the others has an end there. -/
theorem isFree_iff {edges others : List (Edge Float)} {l : Link Float} (hperm : (l.edge :: others).Perm edges) :
    IsFree tolerance edges l ↔ (!others.any (touches tolerance l.start)) = true := by
  have hmem : l.edge ∈ edges := hperm.mem_iff.1 List.mem_cons_self
  rw [IsFree, othersAtStart_eq hperm, and_iff_right hmem, List.countP_eq_zero, Bool.not_eq_true',
    List.any_eq_false]

/-! ## Beginnings -/

/-- Where a walk through edges begins. -/
inductive Begins (tolerance : Float) (edges : List (Edge Float)) : Link Float → Prop where
  | forward {e : Edge Float} (free : IsFree tolerance edges ⟨e, false⟩)
      (lowest : ∀ f, IsFree tolerance edges ⟨f, false⟩ → e.route.source.rank ≤ f.route.source.rank) :
      Begins tolerance edges ⟨e, false⟩
  | backward {e : Edge Float} (none : ∀ f, ¬ IsFree tolerance edges ⟨f, false⟩)
      (free : IsFree tolerance edges ⟨e, true⟩)
      (lowest : ∀ f, IsFree tolerance edges ⟨f, true⟩ → e.route.target.rank ≤ f.route.target.rank) :
      Begins tolerance edges ⟨e, true⟩
  | anywhere {e : Edge Float} (none : ∀ l, ¬ IsFree tolerance edges l) (mem : e ∈ edges)
      (lowest : ∀ f ∈ edges, e.route.source.rank ≤ f.route.source.rank) : Begins tolerance edges ⟨e, false⟩

theorem Begins.perm {edges edges' : List (Edge Float)} {l : Link Float} (h : Begins tolerance edges l)
    (hperm : edges.Perm edges') : Begins tolerance edges' l := by
  cases h with
  | forward free lowest => exact .forward (free.perm hperm) fun f hf => lowest f (hf.perm hperm.symm)
  | backward none free lowest =>
    exact .backward (fun f hf => none f (hf.perm hperm.symm)) (free.perm hperm)
      fun f hf => lowest f (hf.perm hperm.symm)
  | anywhere none mem lowest =>
    exact .anywhere (fun l hl => none l (hl.perm hperm.symm)) (hperm.mem_iff.1 mem)
      fun f hf => lowest f (hperm.mem_iff.2 hf)

/-- The edges with a free end are those that are chosen from. -/
theorem mem_free_iff {edges : List (Edge Float)} (reversed : Bool) (stop : Edge Float → Point Float)
    (hstop : ∀ e, stop e = (⟨e, reversed⟩ : Link Float).start) (e : Edge Float) :
    IsFree tolerance edges ⟨e, reversed⟩ ↔
      ∃ others, (e, others) ∈ (eachWithOthers edges).filter
        fun (e, others) => !others.any (touches tolerance (stop e)) := by
  have hiff : ∀ {others}, (e, others) ∈ eachWithOthers edges →
      (IsFree tolerance edges ⟨e, reversed⟩ ↔ (!others.any (touches tolerance (stop e))) = true) := by
    intro others hothers
    rw [hstop]
    exact isFree_iff (perm_of_mem_eachWithOthers hothers)
  constructor
  · intro h
    obtain ⟨others, hothers⟩ := exists_mem_eachWithOthers h.1
    exact ⟨others, List.mem_filter.2 ⟨hothers, (hiff hothers).1 h⟩⟩
  · rintro ⟨others, hothers⟩
    obtain ⟨hmem, hfree⟩ := List.mem_filter.1 hothers
    exact (hiff hmem).2 hfree

theorem start?_of_ne_nil (tolerance : Float) {edges : List (Edge Float)} (h : edges ≠ []) :
    ∃ link others, start? tolerance edges = some (link, others) ∧ (link.edge :: others).Perm edges := by
  obtain ⟨e, es, rfl⟩ := List.exists_cons_of_ne_nil h
  exact start?_eq_some tolerance e es

/-- **A walk begins where it should.** -/
theorem begins_of_start? {edges others : List (Edge Float)} {link : Link Float}
    (h : start? tolerance edges = some (link, others)) :
    (link.edge :: others).Perm edges ∧ Begins tolerance edges link := by
  have hforward := @mem_free_iff tolerance edges false (·.route.source) fun _ => rfl
  have hbackward := @mem_free_iff tolerance edges true (·.route.target) fun _ => rfl
  unfold start? at h
  dsimp only at h
  split at h
  · rename_i e es hlow
    cases h
    obtain ⟨hmem, hlowest⟩ := lowest?_eq_some hlow
    refine ⟨perm_of_mem_eachWithOthers (List.mem_filter.1 hmem).1, .forward ((hforward e).2 ⟨_, hmem⟩) ?_⟩
    intro f hf
    obtain ⟨fs, hfs⟩ := (hforward f).1 hf
    exact hlowest (f, fs) hfs
  · rename_i e es hno hlow
    cases h
    obtain ⟨hmem, hlowest⟩ := lowest?_eq_some hlow
    refine ⟨perm_of_mem_eachWithOthers (List.mem_filter.1 hmem).1, .backward ?_ ((hbackward e).2 ⟨_, hmem⟩) ?_⟩
    · intro f hf
      obtain ⟨fs, hfs⟩ := (hforward f).1 hf
      rw [lowest?_eq_none hno] at hfs
      cases hfs
    · intro f hf
      obtain ⟨fs, hfs⟩ := (hbackward f).1 hf
      exact hlowest (f, fs) hfs
  · rename_i e es hno hno' hlow
    cases h
    obtain ⟨hmem, hlowest⟩ := lowest?_eq_some hlow
    have hperm := perm_of_mem_eachWithOthers hmem
    refine ⟨hperm, .anywhere ?_ (hperm.mem_iff.1 List.mem_cons_self) ?_⟩
    · rintro ⟨f, _ | _⟩ hf
      · obtain ⟨fs, hfs⟩ := (hforward f).1 hf
        rw [lowest?_eq_none hno] at hfs
        cases hfs
      · obtain ⟨fs, hfs⟩ := (hbackward f).1 hf
        rw [lowest?_eq_none hno'] at hfs
        cases hfs
    · intro f hf
      obtain ⟨fs, hfs⟩ := exists_mem_eachWithOthers hf
      exact hlowest (f, fs) hfs
  · cases h

/-- An edge has an end where it begins, if that is a place at all. -/
theorem touches_start (htolerance : 0 ≤ tolerance) {l : Link Float} (hfinite : l.start.isFinite = true) :
    touches tolerance l.start l.edge = true := by
  have hself := Point.isNear_self htolerance hfinite
  rw [touches, Bool.or_eq_true]
  obtain ⟨e, _ | _⟩ := l
  · exact .inl hself
  · exact .inr hself

/-- Free ends at one place are the ends of one edge. -/
theorem IsFree.edge_eq {edges : List (Edge Float)} (htolerance : 0 ≤ tolerance) {l m : Link Float}
    (hl : IsFree tolerance edges l) (hm : IsFree tolerance edges m) (hfinite : l.start.isFinite = true)
    (h : l.start.rank = m.start.rank) : l.edge = m.edge := by
  have hstart := Point.rank_injective h
  have hself := touches_start htolerance hfinite
  have htouch := touches_start htolerance (hstart ▸ hfinite)
  rw [← hstart] at htouch
  by_contra hne
  have htwo := two_le_countP hl.1 hm.1 hne hself htouch
  have hfree := hl.2
  rw [othersAtStart, hself, Bool.toNat_true] at hfree
  omega

/-- **There is only one place to begin**, unless no end is free and several edges begin at the lowest
first point. -/
theorem Begins.unique {edges : List (Edge Float)} (htolerance : 0 ≤ tolerance)
    (hfinite : ∀ e ∈ edges, ∀ p ∈ e.points, p.isFinite = true) {l m : Link Float}
    (hone : (∃ k, IsFree tolerance edges k) ∨ ∀ e ∈ edges, ∀ f ∈ edges,
      (∀ g ∈ edges, e.route.source.rank ≤ g.route.source.rank) → f.route.source = e.route.source → f = e)
    (hl : Begins tolerance edges l) (hm : Begins tolerance edges m) : l = m := by
  have hedge : ∀ {k k' : Link Float}, IsFree tolerance edges k → IsFree tolerance edges k' →
      k.start.rank = k'.start.rank → k.edge = k'.edge :=
    fun {k _} hk hk' h => hk.edge_eq htolerance hk' (hfinite k.edge hk.1 _ k.start_mem) h
  cases hl with
  | forward free lowest =>
    cases hm with
    | forward free' lowest' =>
      exact congrArg (Link.mk · false) (hedge free free' (le_antisymm (lowest _ free') (lowest' _ free)))
    | backward none => exact absurd free (none _)
    | anywhere none => exact absurd free (none _)
  | backward none free lowest =>
    cases hm with
    | forward free' => exact absurd free' (none _)
    | backward none' free' lowest' =>
      exact congrArg (Link.mk · true) (hedge free free' (le_antisymm (lowest _ free') (lowest' _ free)))
    | anywhere none' => exact absurd free (none' _)
  | anywhere none mem lowest =>
    cases hm with
    | forward free => exact absurd free (none _)
    | backward none' free => exact absurd free (none _)
    | anywhere none' mem' lowest' =>
      rename_i e f
      have hone := hone.resolve_left fun ⟨k, hk⟩ => none k hk
      have hsource := Point.rank_injective (le_antisymm (lowest f mem') (lowest' e mem))
      exact congrArg (Link.mk · false) (hone e mem f mem' lowest hsource.symm).symm

end Chain

end StencilKit
