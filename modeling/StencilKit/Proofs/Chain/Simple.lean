/-
Simple chains and simple loops.

Each link of a simple chain ends where the next one begins, and otherwise no two links have ends at one
place; in a simple loop also the last link ends where the first one begins. Such links are found again
from their edges alone, in whatever order these come: at the end of each link there is just one edge to
go on with and one direction to take it in (`walk_of_isOnward`). What is left open is where to begin. In a
chain that is settled by its two ends, which are the only free ones (`IsOpenChain.isFree_iff`); in a loop it
may be any link (`IsLoop.exists_head`). So the edges of a simple chain or loop are joined whatever their order.
-/
import Mathlib.Data.List.Perm.Basic
import Mathlib.Data.List.Rotate
import Mathlib.Data.Nat.ModEq
import StencilKit.Proofs.Chain.Beginning

namespace StencilKit

namespace Link

variable {α : Type}

/-- An edge is walked in one way or the other. -/
theorem eq_or_eq_flip_of_edge_eq {l m : Link α} (h : l.edge = m.edge) : l = m ∨ l = m.flip := by
  obtain ⟨e, r⟩ := l
  obtain ⟨f, s⟩ := m
  obtain rfl : e = f := h
  cases r <;> cases s <;> simp [flip]

/-- Whether a walk had rather begin with one link than with another: with one that begins at the first
point of its edge, or else with the one that begins at the lower point. -/
def comesBefore [Scalar α] (l m : Link α) : Bool :=
  if l.reversed = m.reversed then l.start.order m.start = .lt else !l.reversed

theorem comesBefore_asymm {l m : Link Float} (h : l.comesBefore m = true) : m.comesBefore l = false := by
  unfold comesBefore at h ⊢
  by_cases hsame : l.reversed = m.reversed
  · rw [if_pos hsame, decide_eq_true_eq, Point.order_eq_lt_iff] at h
    rw [if_pos hsame.symm, decide_eq_false_iff_not, Point.order_eq_lt_iff]
    omega
  · rw [if_neg hsame] at h
    rw [if_neg (Ne.symm hsame)]
    revert h hsame
    cases l.reversed <;> cases m.reversed <;> simp

end Link

namespace Chain

/-- Links walked the other way, the last one first. -/
def backwards {α : Type} (links : List (Link α)) : List (Link α) := (links.map Link.flip).reverse

variable {tolerance : Float} {next : Nat → Nat → Bool} {links : List (Link Float)}

/-- Whether one link begins where another ends just when told so by their numbers, and the links have no
other ends at one place. Nothing is said of the two ends of one link. -/
structure Touching (tolerance : Float) (next : Nat → Nat → Bool) (links : List (Link Float)) : Prop where
  join : ∀ i (_ : i < links.length), ∀ j (_ : j < links.length), i ≠ j →
    links[j].start.isNear tolerance links[i].stop = next i j
  starts : ∀ i (_ : i < links.length), ∀ j (_ : j < links.length), i ≠ j →
    links[j].start.isNear tolerance links[i].start = false
  stops : ∀ i (_ : i < links.length), ∀ j (_ : j < links.length), i ≠ j →
    links[j].stop.isNear tolerance links[i].stop = false

instance : Decidable (Touching tolerance next links) :=
  decidable_of_iff
    ((∀ i (_ : i < links.length), ∀ j (_ : j < links.length), i ≠ j →
        links[j].start.isNear tolerance links[i].stop = next i j) ∧
      (∀ i (_ : i < links.length), ∀ j (_ : j < links.length), i ≠ j →
        links[j].start.isNear tolerance links[i].start = false) ∧
      ∀ i (_ : i < links.length), ∀ j (_ : j < links.length), i ≠ j →
        links[j].stop.isNear tolerance links[i].stop = false)
    ⟨fun ⟨h₁, h₂, h₃⟩ => ⟨h₁, h₂, h₃⟩, fun ⟨h₁, h₂, h₃⟩ => ⟨h₁, h₂, h₃⟩⟩

/-- A simple chain: each link ends where the next one begins. -/
def IsOpenChain (tolerance : Float) (links : List (Link Float)) : Prop :=
  links ≠ [] ∧ Touching tolerance (fun i j => j == i + 1) links

/-- A simple loop: each link ends where the next one begins, and the last one where the first one does. -/
def IsLoop (tolerance : Float) (links : List (Link Float)) : Prop :=
  2 ≤ links.length ∧ Touching tolerance (fun i j => j == (i + 1) % links.length) links

instance : Decidable (IsOpenChain tolerance links) := inferInstanceAs (Decidable (_ ∧ _))

instance : Decidable (IsLoop tolerance links) := inferInstanceAs (Decidable (_ ∧ _))

/-- A chain in the direction in which it is walked. -/
def directed {α : Type} [Scalar α] (links : List (Link α)) : List (Link α) :=
  match links.head?, (backwards links).head? with
  | some first, some last => if last.comesBefore first then backwards links else links
  | _, _ => links

/-! ## The same links otherwise -/

@[simp] theorem length_backwards {α : Type} (links : List (Link α)) : (backwards links).length = links.length := by
  simp [backwards]

theorem perm_map_edge_backwards {α : Type} (links : List (Link α)) :
    ((backwards links).map (·.edge)).Perm (links.map (·.edge)) := by
  rw [backwards, List.map_reverse, List.map_map]
  exact List.reverse_perm _

theorem Touching.congr {next' : Nat → Nat → Bool} (h : Touching tolerance next links)
    (hnext : ∀ i < links.length, ∀ j < links.length, next i j = next' i j) : Touching tolerance next' links where
  join i hi j hj hne := (h.join i hi j hj hne).trans (hnext i hi j hj)
  starts := h.starts
  stops := h.stops

theorem getElem_backwards {α : Type} (links : List (Link α)) (i : Nat) (hi : i < (backwards links).length) :
    ∃ h : links.length - 1 - i < links.length, (backwards links)[i] = links[links.length - 1 - i].flip := by
  rw [length_backwards] at hi
  refine ⟨by omega, ?_⟩
  simp [backwards]

theorem Touching.backwards (h : Touching tolerance next links) :
    Touching tolerance (fun i j => next (links.length - 1 - j) (links.length - 1 - i)) (backwards links) where
  join i hi j hj hne := by
    obtain ⟨hi', hgi⟩ := getElem_backwards links i hi
    obtain ⟨hj', hgj⟩ := getElem_backwards links j hj
    rw [length_backwards] at hi hj
    rw [hgi, hgj, Link.start_flip, Link.stop_flip, Point.isNear_comm]
    exact h.join _ hj' _ hi' (by omega)
  starts i hi j hj hne := by
    obtain ⟨hi', hgi⟩ := getElem_backwards links i hi
    obtain ⟨hj', hgj⟩ := getElem_backwards links j hj
    rw [length_backwards] at hi hj
    rw [hgi, hgj, Link.start_flip, Link.start_flip]
    exact h.stops _ hi' _ hj' (by omega)
  stops i hi j hj hne := by
    obtain ⟨hi', hgi⟩ := getElem_backwards links i hi
    obtain ⟨hj', hgj⟩ := getElem_backwards links j hj
    rw [length_backwards] at hi hj
    rw [hgi, hgj, Link.stop_flip, Link.stop_flip]
    exact h.starts _ hi' _ hj' (by omega)

/-- **A simple chain is one from the other end as well.** -/
theorem IsOpenChain.backwards (h : IsOpenChain tolerance links) : IsOpenChain tolerance (backwards links) := by
  refine ⟨?_, h.2.backwards.congr ?_⟩
  · simpa [Chain.backwards] using h.1
  · intro i hi j hj
    rw [length_backwards] at hi hj
    rw [Bool.eq_iff_iff, beq_iff_eq, beq_iff_eq]
    omega

theorem eq_succ_mod_iff {n i j : Nat} (hi : i < n) (hj : j < n) :
    j = (i + 1) % n ↔ j = i + 1 ∨ i + 1 = n ∧ j = 0 := by
  by_cases h : i + 1 = n
  · rw [h, Nat.mod_self]
    omega
  · rw [Nat.mod_eq_of_lt (by omega)]
    omega

/-- A simple loop is one the other way round as well. -/
theorem IsLoop.backwards (h : IsLoop tolerance links) : IsLoop tolerance (backwards links) := by
  rw [IsLoop, length_backwards]
  refine ⟨h.1, h.2.backwards.congr ?_⟩
  intro i hi j hj
  rw [length_backwards] at hi hj
  rw [Bool.eq_iff_iff, beq_iff_eq, beq_iff_eq, eq_succ_mod_iff hi hj, eq_succ_mod_iff (by omega) (by omega)]
  omega

/-- A simple loop is one from each of its links. -/
theorem IsLoop.rotate (h : IsLoop tolerance links) (k : Nat) : IsLoop tolerance (links.rotate k) := by
  have hlength := List.length_rotate links k
  obtain ⟨htwo, htouching⟩ := h
  have hpos : 0 < links.length := by omega
  have hlt : ∀ i, (i + k) % links.length < links.length := fun i => Nat.mod_lt _ hpos
  have hne : ∀ {i j}, i < links.length → j < links.length → i ≠ j →
      (i + k) % links.length ≠ (j + k) % links.length := by
    intro i j hi hj hne heq
    refine hne ?_
    rw [← Nat.mod_eq_of_lt hi, ← Nat.mod_eq_of_lt hj]
    exact Nat.ModEq.add_right_cancel' k heq
  have hnext : ∀ {i j}, j < links.length →
      ((j + k) % links.length = ((i + k) % links.length + 1) % links.length ↔ j = (i + 1) % links.length) := by
    intro i j hj
    rw [Nat.mod_add_mod, Nat.add_right_comm i k 1]
    constructor
    · intro heq
      rw [← Nat.mod_eq_of_lt hj]
      exact Nat.ModEq.add_right_cancel' k heq
    · intro heq
      rw [heq, Nat.mod_add_mod]
  rw [IsLoop, hlength]
  refine ⟨htwo, ?_, ?_, ?_⟩
  · intro i hi j hj hij
    rw [hlength] at hi hj
    rw [List.getElem_rotate, List.getElem_rotate, htouching.join _ (hlt i) _ (hlt j) (hne hi hj hij),
      Bool.eq_iff_iff, beq_iff_eq, beq_iff_eq, hnext hj]
  · intro i hi j hj hij
    rw [hlength] at hi hj
    rw [List.getElem_rotate, List.getElem_rotate]
    exact htouching.starts _ (hlt i) _ (hlt j) (hne hi hj hij)
  · intro i hi j hj hij
    rw [hlength] at hi hj
    rw [List.getElem_rotate, List.getElem_rotate]
    exact htouching.stops _ (hlt i) _ (hlt j) (hne hi hj hij)

/-! ## Walking on -/

/-- Whether, of the links that come after a link, the next one begins where it ends, and no other has an
end there. -/
def IsOnward (tolerance : Float) (links : List (Link Float)) : Prop :=
  ∀ i (_ : i < links.length), ∀ j (_ : j < links.length), i < j →
    links[j].start.isNear tolerance links[i].stop = (j == i + 1) ∧
      links[j].stop.isNear tolerance links[i].stop = false

theorem IsOnward.tail {l : Link Float} (h : IsOnward tolerance (l :: links)) : IsOnward tolerance links := by
  intro i hi j hj hij
  have hij' := h (i + 1) (Nat.succ_lt_succ hi) (j + 1) (Nat.succ_lt_succ hj) (Nat.succ_lt_succ hij)
  simpa using hij'

theorem IsOpenChain.isOnward (h : IsOpenChain tolerance links) : IsOnward tolerance links :=
  fun i hi j hj hij => ⟨h.2.join i hi j hj hij.ne, h.2.stops i hi j hj hij.ne⟩

theorem IsLoop.isOnward (h : IsLoop tolerance links) : IsOnward tolerance links := by
  intro i hi j hj hij
  refine ⟨?_, h.2.stops i hi j hj hij.ne⟩
  rw [h.2.join i hi j hj hij.ne, Bool.eq_iff_iff, beq_iff_eq, beq_iff_eq, eq_succ_mod_iff hi hj]
  omega

/-- An edge has an end at a point if it begins or ends there, whichever way it is walked. -/
theorem touches_edge (p : Point Float) (l : Link Float) :
    touches tolerance p l.edge = (l.start.isNear tolerance p || l.stop.isNear tolerance p) := by
  obtain ⟨e, _ | _⟩ := l
  · rfl
  · exact Bool.or_comm _ _

/-- A link that begins at a point and does not end there is walked on in its own direction. -/
theorem reversed_eq {p : Point Float} {l : Link Float} (hstart : l.start.isNear tolerance p = true)
    (hstop : l.stop.isNear tolerance p = false) : (!l.edge.route.source.isNear tolerance p) = l.reversed := by
  obtain ⟨e, _ | _⟩ := l
  · rw [show e.route.source.isNear tolerance p = true from hstart]
    rfl
  · rw [show e.route.source.isNear tolerance p = false from hstop]
    rfl

/-- **From the edges that remain, in any order, the walk takes up the links that come next.** -/
theorem walk_of_isOnward (linked : Nat) {link : Link Float} {rest : List (Link Float)}
    (h : IsOnward tolerance (link :: rest)) {remaining : List (Edge Float)}
    (hperm : remaining.Perm (rest.map (·.edge))) :
    walk tolerance linked link remaining = .ok (link :: rest) := by
  induction rest generalizing linked link remaining with
  | nil =>
    obtain rfl := hperm.eq_nil
    exact walk_nil linked link
  | cons m ms ih =>
    have hstart : ∀ j (hj : j < (m :: ms).length),
        (m :: ms)[j].start.isNear tolerance link.stop = (j == 0) ∧
          (m :: ms)[j].stop.isNear tolerance link.stop = false := by
      intro j hj
      have hij := h 0 (Nat.succ_pos _) (j + 1) (Nat.succ_lt_succ hj) (Nat.succ_pos j)
      simpa using hij
    have hnear : m.start.isNear tolerance link.stop = true := (hstart 0 (Nat.succ_pos _)).1
    have haway : m.stop.isNear tolerance link.stop = false := (hstart 0 (Nat.succ_pos _)).2
    have htouch : touches tolerance link.stop m.edge = true := by
      rw [touches_edge, Bool.or_eq_true]
      exact .inl hnear
    cases htake : takeTouching? tolerance link.stop remaining with
    | none =>
      have hnot := touches_of_takeTouching?_eq_none htake m.edge (hperm.mem_iff.2 List.mem_cons_self)
      rw [htouch] at hnot
      cases hnot
    | some found =>
      obtain ⟨e, others⟩ := found
      obtain ⟨he, hothers⟩ := takeTouching?_eq_some htake
      -- of the links to come, only the next one has an end here
      have hedge : e = m.edge := by
        obtain ⟨k, hk, rfl⟩ := List.mem_map.1 ((hothers.trans hperm).mem_iff.1 List.mem_cons_self)
        obtain ⟨j, hj, rfl⟩ := List.mem_iff_getElem.1 hk
        obtain ⟨hjstart, hjstop⟩ := hstart j hj
        rw [touches_edge, hjstart, hjstop, Bool.or_false, beq_iff_eq] at he
        subst he
        rfl
      subst hedge
      rw [walk_of_some htake, reversed_eq hnear haway, ih (linked + 1) h.tail (hothers.trans hperm).cons_inv]
      rfl

theorem path_of_isOnward (origin : Point Float) {link : Link Float} {rest : List (Link Float)}
    {edges others : List (Edge Float)} (hstart : start? tolerance edges = some (link, others))
    (h : IsOnward tolerance (link :: rest)) (hperm : others.Perm (rest.map (·.edge))) :
    path tolerance origin edges = .ok (pathOf origin (link :: rest)) := by
  rw [path, Chain.links, hstart]
  simp only [walk_of_isOnward 1 h hperm]
  rfl

/-! ## The ends of a chain -/

section Ends

variable {edges : List (Edge Float)}

/-- A link begins at a free end if no other leads on to it. -/
theorem Touching.isFree_iff (h : Touching tolerance next links) (hperm : (links.map (·.edge)).Perm edges)
    {i : Nat} (hi : i < links.length) :
    IsFree tolerance edges links[i] ↔ ∀ j < links.length, j ≠ i → next j i = false := by
  have hothers : (links[i].edge :: (links.eraseIdx i).map (·.edge)).Perm edges :=
    ((List.getElem_cons_eraseIdx_perm hi).map Link.edge).trans hperm
  have htouches : ∀ j (hj : j < links.length), j ≠ i →
      touches tolerance links[i].start links[j].edge = next j i := by
    intro j hj hne
    rw [touches_edge, h.starts i hi j hj hne.symm, Bool.false_or, Point.isNear_comm, h.join j hj i hi hne]
  rw [Chain.isFree_iff hothers, Bool.not_eq_true', List.any_eq_false]
  constructor
  · intro hfree j hj hne
    have hmem : links[j] ∈ links.eraseIdx i := List.mem_eraseIdx_iff_getElem.2 ⟨j, hj, hne, rfl⟩
    have haway := hfree links[j].edge (List.mem_map.2 ⟨_, hmem, rfl⟩)
    rwa [htouches j hj hne, Bool.not_eq_true] at haway
  · intro hnext e he
    obtain ⟨k, hk, rfl⟩ := List.mem_map.1 he
    obtain ⟨j, hj, hne, rfl⟩ := List.mem_eraseIdx_iff_getElem.1 hk
    rw [htouches j hj hne, hnext j hj hne]
    exact Bool.false_ne_true

theorem IsOpenChain.isFree_getElem_iff (h : IsOpenChain tolerance links)
    (hperm : (links.map (·.edge)).Perm edges) {i : Nat} (hi : i < links.length) :
    IsFree tolerance edges links[i] ↔ i = 0 := by
  rw [h.2.isFree_iff hperm hi]
  constructor
  · intro hnext
    by_contra hne
    have hbefore := hnext (i - 1) (by omega) (by omega)
    rw [beq_eq_false_iff_ne] at hbefore
    omega
  · rintro rfl j - -
    exact beq_eq_false_iff_ne.2 (Nat.succ_ne_zero j).symm

/-- **The free ends of a simple chain are its two ends.** -/
theorem IsOpenChain.isFree_iff (h : IsOpenChain tolerance links) (hperm : (links.map (·.edge)).Perm edges)
    (k : Link Float) :
    IsFree tolerance edges k ↔ links.head? = some k ∨ (Chain.backwards links).head? = some k := by
  have hhead : ∀ {ls : List (Link Float)}, IsOpenChain tolerance ls → (ls.map (·.edge)).Perm edges →
      ((k ∈ ls ∧ IsFree tolerance edges k) ↔ ls.head? = some k) := by
    intro ls hls hlsperm
    constructor
    · rintro ⟨hk, hfree⟩
      obtain ⟨i, hi, rfl⟩ := List.mem_iff_getElem.1 hk
      obtain rfl := (hls.isFree_getElem_iff hlsperm hi).1 hfree
      rw [List.head?_eq_getElem?, List.getElem?_eq_getElem hi]
    · intro hk
      obtain ⟨l, ls, rfl⟩ := List.exists_cons_of_ne_nil hls.1
      cases hk
      exact ⟨List.mem_cons_self, (hls.isFree_getElem_iff hlsperm (Nat.succ_pos _)).2 rfl⟩
  have hmem : IsFree tolerance edges k → k ∈ links ∨ k ∈ Chain.backwards links := by
    rintro ⟨hk, -⟩
    obtain ⟨l, hl, hedge⟩ := List.mem_map.1 (hperm.mem_iff.2 hk)
    rcases Link.eq_or_eq_flip_of_edge_eq hedge.symm with rfl | rfl
    · exact .inl hl
    · exact .inr (List.mem_reverse.2 (List.mem_map.2 ⟨l, hl, rfl⟩))
  rw [← hhead h hperm, ← hhead h.backwards ((perm_map_edge_backwards links).trans hperm)]
  constructor
  · intro hfree
    exact (hmem hfree).imp (⟨·, hfree⟩) (⟨·, hfree⟩)
  · rintro (⟨-, hfree⟩ | ⟨-, hfree⟩) <;> exact hfree

/-- Of two free ends, a walk begins at one that does not come after the other. -/
theorem begins_of_isFree_iff {a b : Link Float} (hfree : ∀ k, IsFree tolerance edges k ↔ a = k ∨ b = k)
    (hab : b.comesBefore a = false) : Begins tolerance edges a := by
  have ha : IsFree tolerance edges a := (hfree a).2 (.inl rfl)
  unfold Link.comesBefore at hab
  obtain ⟨e, _ | _⟩ := a
  · refine .forward ha fun f hf => ?_
    rcases (hfree _).1 hf with heq | rfl
    · cases heq
      exact le_rfl
    · rw [if_pos rfl, decide_eq_false_iff_not, Point.order_eq_lt_iff] at hab
      exact Nat.le_of_not_lt hab
  · obtain ⟨f, _ | _⟩ := b
    · cases hab
    · refine .backward ?_ ha ?_
      · intro g hg
        rcases (hfree _).1 hg with heq | heq <;> cases heq
      · intro g hg
        rcases (hfree _).1 hg with heq | heq
        · cases heq
          exact le_rfl
        · cases heq
          rw [if_pos rfl, decide_eq_false_iff_not, Point.order_eq_lt_iff] at hab
          exact Nat.le_of_not_lt hab

/-- **A walk through the edges of a simple chain begins where the directed chain does.** -/
theorem IsOpenChain.begins (h : IsOpenChain tolerance links)
    (hperm : (links.map (·.edge)).Perm edges) :
    ∃ first rest, directed links = first :: rest ∧ Begins tolerance edges first := by
  obtain ⟨a, as, hlinks⟩ := List.exists_cons_of_ne_nil h.1
  obtain ⟨b, bs, hback⟩ := List.exists_cons_of_ne_nil h.backwards.1
  have hfree : ∀ k, IsFree tolerance edges k ↔ a = k ∨ b = k := by
    intro k
    rw [h.isFree_iff hperm, hback, hlinks, List.head?_cons, List.head?_cons, Option.some.injEq,
      Option.some.injEq]
  have hdirected : directed links = if b.comesBefore a then b :: bs else a :: as := by
    rw [directed, hback, hlinks]
    rfl
  rw [hdirected]
  split
  · rename_i hba
    exact ⟨b, bs, rfl, begins_of_isFree_iff (fun k => (hfree k).trans or_comm) (Link.comesBefore_asymm hba)⟩
  · rename_i hba
    exact ⟨a, as, rfl, begins_of_isFree_iff hfree (by simpa using hba)⟩

theorem directed_eq_or (links : List (Link Float)) :
    directed links = links ∨ directed links = Chain.backwards links := by
  unfold directed
  split
  · split
    · exact .inr rfl
    · exact .inl rfl
  · exact .inl rfl

/-- A simple loop can be walked from any of its edges, in the direction in which it is stored or not. -/
theorem IsLoop.exists_head (h : IsLoop tolerance links) {k : Link Float}
    (hk : k.edge ∈ links.map (·.edge)) :
    ∃ rest, IsOnward tolerance (k :: rest) ∧
      ((k :: rest).IsRotated links ∨ (k :: rest).IsRotated (Chain.backwards links)) := by
  have hrotated : ∀ {ls : List (Link Float)}, IsLoop tolerance ls → k ∈ ls →
      ∃ rest, IsOnward tolerance (k :: rest) ∧ (k :: rest).IsRotated ls := by
    intro ls hls hmem
    obtain ⟨before, after, rfl⟩ := List.append_of_mem hmem
    have hrotate : (before ++ k :: after).rotate before.length = k :: (after ++ before) := by
      rw [List.rotate_append_length_eq]
      rfl
    refine ⟨after ++ before, ?_, (List.IsRotated.symm ⟨before.length, hrotate⟩)⟩
    rw [← hrotate]
    exact (hls.rotate _).isOnward
  obtain ⟨l, hl, hedge⟩ := List.mem_map.1 hk
  rcases Link.eq_or_eq_flip_of_edge_eq hedge.symm with rfl | rfl
  · obtain ⟨rest, honward, hrot⟩ := hrotated h hl
    exact ⟨rest, honward, .inl hrot⟩
  · obtain ⟨rest, honward, hrot⟩ := hrotated h.backwards (List.mem_reverse.2 (List.mem_map.2 ⟨l, hl, rfl⟩))
    exact ⟨rest, honward, .inr hrot⟩

end Ends

/-! ## The path -/

section Path

variable {edges : List (Edge Float)}

theorem ne_nil_of_perm_map (hne : links ≠ []) (hperm : edges.Perm (links.map (·.edge))) : edges ≠ [] := by
  rintro rfl
  exact hne (List.map_eq_nil_iff.1 hperm.symm.eq_nil)

/-- A simple chain is walked in its direction, whatever the order of its edges. -/
theorem IsOpenChain.path_eq (h : IsOpenChain tolerance links) (htolerance : 0 ≤ tolerance) (origin : Point Float)
    (hfinite : ∀ e ∈ edges, ∀ p ∈ e.points, p.isFinite = true) (hperm : edges.Perm (links.map (·.edge))) :
    path tolerance origin edges = .ok (pathOf origin (directed links)) := by
  obtain ⟨first, rest, hdirected, hbegins⟩ := h.begins hperm.symm
  obtain ⟨honward, hedges⟩ : IsOnward tolerance (first :: rest) ∧ edges.Perm ((first :: rest).map (·.edge)) := by
    rw [← hdirected]
    rcases directed_eq_or links with heq | heq <;> rw [heq]
    · exact ⟨h.isOnward, hperm⟩
    · exact ⟨h.backwards.isOnward, hperm.trans (perm_map_edge_backwards links).symm⟩
  obtain ⟨link, others, hstart, hothers⟩ := start?_of_ne_nil tolerance (ne_nil_of_perm_map h.1 hperm)
  have hfree := (h.isFree_getElem_iff hperm.symm (List.length_pos_of_ne_nil h.1)).2 rfl
  obtain rfl : link = first :=
    (begins_of_start? hstart).2.unique htolerance hfinite (.inl ⟨_, hfree⟩) hbegins
  rw [hdirected]
  exact path_of_isOnward origin hstart honward (hothers.trans hedges).cons_inv

/-- A simple loop is walked once round, whatever the order of its edges. -/
theorem IsLoop.exists_path_eq (h : IsLoop tolerance links) (origin : Point Float)
    (hperm : edges.Perm (links.map (·.edge))) :
    ∃ walk, (walk.IsRotated links ∨ walk.IsRotated (Chain.backwards links)) ∧
      (walk.map (·.edge)).Perm edges ∧ path tolerance origin edges = .ok (pathOf origin walk) := by
  have hne : links ≠ [] := List.ne_nil_of_length_pos (Nat.zero_lt_two.trans_le h.1)
  obtain ⟨link, others, hstart, hothers⟩ := start?_of_ne_nil tolerance (ne_nil_of_perm_map hne hperm)
  obtain ⟨rest, honward, hrot⟩ := h.exists_head ((hothers.trans hperm).mem_iff.1 List.mem_cons_self)
  have hedges : ((link :: rest).map (·.edge)).Perm (links.map (·.edge)) := by
    rcases hrot with hrot | hrot
    · exact hrot.perm.map _
    · exact (hrot.perm.map _).trans (perm_map_edge_backwards links)
  exact ⟨link :: rest, hrot, hedges.trans hperm.symm,
    path_of_isOnward origin hstart honward ((hothers.trans hperm).trans hedges.symm).cons_inv⟩

end Path

/-- **The edges of a simple chain or loop are joined, in whatever order and directions they come.** A
chain is walked from the lower of its ends that are stored as first points, or, if neither is, from the
lower end; so all orders of the edges give the same path. A loop is walked once round, from one of its
links, in one direction or the other. -/
theorem path_of_simple (htolerance : 0 ≤ tolerance) (origin : Point Float)
    (hfinite : ∀ l ∈ links, ∀ p ∈ l.points, p.isFinite = true) {edges : List (Edge Float)}
    (hperm : edges.Perm (links.map (·.edge))) :
    (IsOpenChain tolerance links → path tolerance origin edges = .ok (pathOf origin (directed links))) ∧
    (IsLoop tolerance links → ∃ walk, (walk.IsRotated links ∨ walk.IsRotated (backwards links)) ∧
      (walk.map (·.edge)).Perm edges ∧ path tolerance origin edges = .ok (pathOf origin walk)) := by
  have hedges : ∀ e ∈ edges, ∀ p ∈ e.points, p.isFinite = true := by
    intro e he p hp
    obtain ⟨l, hl, rfl⟩ := List.mem_map.1 (hperm.mem_iff.1 he)
    refine hfinite l hl p ?_
    unfold Link.points
    split
    · exact List.mem_reverse.2 hp
    · exact hp
  exact ⟨fun hopen => hopen.path_eq htolerance origin hedges hperm, fun hloop => hloop.exists_path_eq origin hperm⟩

/-- Three lines of a chain, the second of them stored backwards. -/
def threeLines : List (Link Float) :=
  [⟨⟨.line, ⟨⟨0, 0⟩, [], ⟨10, 0⟩⟩⟩, false⟩, ⟨⟨.line, ⟨⟨10, 10⟩, [], ⟨10, 0⟩⟩⟩, true⟩,
    ⟨⟨.line, ⟨⟨10, 10⟩, [], ⟨0, 10⟩⟩⟩, false⟩]

/-- The line that closes the chain to a loop. -/
def closingLine : Link Float := ⟨⟨.line, ⟨⟨0, 0⟩, [], ⟨0, 10⟩⟩⟩, true⟩

theorem path_of_simple_threeLines :
    path 0.001 0 (threeLines.map (·.edge)).reverse =
      .ok [.move ⟨0, 0⟩, .line ⟨10, 0⟩, .line ⟨10, 10⟩, .line ⟨0, 10⟩] ∧
    ∃ walk, (walk.IsRotated (threeLines ++ [closingLine]) ∨
        walk.IsRotated (backwards (threeLines ++ [closingLine]))) ∧
      path 0.001 0 ((threeLines ++ [closingLine]).map (·.edge)) = .ok (pathOf 0 walk) := by
  constructor
  · have hpath := (path_of_simple (by decide +kernel) 0 (by decide +kernel) (List.reverse_perm _)).1
      (show IsOpenChain 0.001 threeLines by decide +kernel)
    rw [hpath]
    decide +kernel
  · obtain ⟨walk, hwalk, -, hpath⟩ := (path_of_simple (by decide +kernel) 0 (by decide +kernel) (.refl _)).2
      (show IsLoop 0.001 (threeLines ++ [closingLine]) by decide +kernel)
    exact ⟨walk, hwalk, hpath⟩

end Chain

end StencilKit
