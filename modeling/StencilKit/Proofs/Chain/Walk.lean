/-
What comes of joining edges into one path.

A walk holds on to two things from step to step (`Traverses`): each link begins where the one before
it ends, and the links so far and the edges that remain are all the edges, each of them once. The walk
ends in one of two ways (`walk_cases`): nothing remains, or nothing that remains has an end at the
point that was reached.

* `path_cases`: what a path is made of, and what is known when there is none.
-/
import Mathlib.Data.List.Chain
import StencilKit.Chain
import StencilKit.Scalar.Double

namespace StencilKit

/-! ## Choosing from a list -/

theorem perm_of_mem_eachWithOthers {T : Type} {x : T} {xs others : List T}
    (h : (x, others) ∈ eachWithOthers xs) : (x :: others).Perm xs := by
  induction xs generalizing x others with
  | nil => cases h
  | cons y ys ih =>
    rcases List.mem_cons.1 h with h | h
    · cases h
      exact .refl _
    · obtain ⟨⟨z, rest⟩, hz, heq⟩ := List.mem_map.1 h
      cases heq
      exact (List.Perm.swap y x rest).trans ((ih hz).cons y)

theorem eachWithOthers_ne_nil {T : Type} (x : T) (xs : List T) : eachWithOthers (x :: xs) ≠ [] :=
  List.cons_ne_nil _ _

theorem Link.start_mem {α : Type} (l : Link α) : l.start ∈ l.edge.points := by
  obtain ⟨e, _ | _⟩ := l
  · exact List.mem_cons_self
  · exact List.mem_cons_of_mem _ (List.mem_append_right _ List.mem_cons_self)

namespace Chain

variable {α : Type} [Scalar α]

theorem mem_of_lowest? {T : Type} {key : T → Point α} {xs : List T} {x : T} (h : lowest? key xs = some x) :
    x ∈ xs := by
  induction xs generalizing x with
  | nil => cases h
  | cons y ys ih =>
    rw [lowest?] at h
    split at h
    · cases h
      exact List.mem_cons_self
    · rename_i z hz
      split at h
      · cases h
        exact List.mem_cons_of_mem _ (ih hz)
      · cases h
        exact List.mem_cons_self

theorem lowest?_eq_none {T : Type} {key : T → Point α} {xs : List T} (h : lowest? key xs = none) : xs = [] := by
  cases xs with
  | nil => rfl
  | cons y ys =>
    rw [lowest?] at h
    split at h
    · cases h
    · split at h <;> cases h

variable {tolerance : α}

/-- A walk has a beginning if there is an edge at all, and keeps all other edges for later. -/
theorem start?_eq_some (tolerance : α) (e : Edge α) (es : List (Edge α)) :
    ∃ link others, start? tolerance (e :: es) = some (link, others) ∧
      (link.edge :: others).Perm (e :: es) := by
  unfold start?
  dsimp only
  split
  · rename_i f others _ _ h
    exact ⟨_, _, rfl, perm_of_mem_eachWithOthers (List.mem_filter.1 (mem_of_lowest? h)).1⟩
  · rename_i f others _ _ h
    exact ⟨_, _, rfl, perm_of_mem_eachWithOthers (List.mem_filter.1 (mem_of_lowest? h)).1⟩
  · rename_i f others _ _ h
    exact ⟨_, _, rfl, perm_of_mem_eachWithOthers (mem_of_lowest? h)⟩
  · rename_i h
    exact absurd (lowest?_eq_none h) (eachWithOthers_ne_nil e es)

theorem takeTouching?_eq_some {p : Point α} {es others : List (Edge α)} {e : Edge α}
    (h : takeTouching? tolerance p es = some (e, others)) :
    touches tolerance p e = true ∧ (e :: others).Perm es := by
  induction es generalizing e others with
  | nil => cases h
  | cons f es ih =>
    rw [takeTouching?] at h
    split at h
    · rename_i hf
      cases h
      exact ⟨hf, .refl _⟩
    · obtain ⟨⟨g, rest⟩, hg, heq⟩ := Option.map_eq_some_iff.1 h
      cases heq
      obtain ⟨htouches, hperm⟩ := ih hg
      exact ⟨htouches, (List.Perm.swap f e rest).trans (hperm.cons f)⟩

theorem touches_of_takeTouching?_eq_none {p : Point α} {es : List (Edge α)}
    (h : takeTouching? tolerance p es = none) : ∀ e ∈ es, touches tolerance p e = false := by
  induction es with
  | nil => exact List.forall_mem_nil _
  | cons f es ih =>
    rw [takeTouching?] at h
    split at h
    · cases h
    · rename_i hf
      exact List.forall_mem_cons.2 ⟨by simpa using hf, ih (Option.map_eq_none_iff.1 h)⟩

/-! ## Walks -/

/-- Links that lead on from one another, and that take each of the edges once but for the others,
which they do not take. -/
structure Traverses (tolerance : α) (links : List (Link α)) (edges others : List (Edge α)) : Prop where
  joined : links.IsChain fun l m => m.start.isNear tolerance l.stop = true
  once : (links.map (·.edge) ++ others).Perm edges

/-- An edge that touches the end of a link is walked on from there. -/
theorem isNear_start_of_touches {link : Link α} {e : Edge α} (h : touches tolerance link.stop e = true) :
    (⟨e, !e.route.source.isNear tolerance link.stop⟩ : Link α).start.isNear tolerance link.stop = true := by
  rw [touches, Bool.or_eq_true] at h
  cases hsource : e.route.source.isNear tolerance link.stop with
  | true => exact hsource
  | false =>
    rw [hsource] at h
    exact h.resolve_left Bool.false_ne_true

theorem Traverses.cons {link : Link α} {links : List (Link α)} {e : Edge α} {es remaining others : List (Edge α)}
    (h : Traverses tolerance links (e :: es) others) (hperm : (e :: es).Perm remaining)
    (hhead : ∀ m ∈ links.head?, m.start.isNear tolerance link.stop = true) :
    Traverses tolerance (link :: links) (link.edge :: remaining) others where
  joined := List.isChain_cons.2 ⟨hhead, h.joined⟩
  once := (h.once.trans hperm).cons link.edge

theorem walk_nil (linked : Nat) (link : Link α) : walk tolerance linked link [] = .ok [link] := by
  rw [walk]
  rfl

theorem walk_of_some {linked : Nat} {link : Link α} {remaining others : List (Edge α)} {e : Edge α}
    (h : takeTouching? tolerance link.stop remaining = some (e, others)) :
    walk tolerance linked link remaining =
      (walk tolerance (linked + 1) ⟨e, !e.route.source.isNear tolerance link.stop⟩ others).map (link :: ·) := by
  have hne : remaining.isEmpty = false := by
    cases remaining with
    | nil => cases h
    | cons => rfl
  rw [walk, if_neg (by simp [hne])]
  split
  · rename_i hnone
    cases hnone.symm.trans h
  · rename_i hsome
    cases hsome.symm.trans h
    rfl

theorem walk_of_none {linked : Nat} {link : Link α} {remaining : List (Edge α)} (hne : remaining ≠ [])
    (h : takeTouching? tolerance link.stop remaining = none) :
    walk tolerance linked link remaining = .error (.disconnected linked remaining.length link.stop) := by
  rw [walk, if_neg (by simpa using hne)]
  split
  · rfl
  · rename_i hsome
    cases hsome.symm.trans h

/-- **The two ways in which a walk ends.** -/
theorem walk_cases (tolerance : α) (linked : Nat) (link : Link α) (remaining : List (Edge α)) :
    (∃ links, Traverses tolerance (link :: links) (link.edge :: remaining) [] ∧
      walk tolerance linked link remaining = .ok (link :: links)) ∨
    ∃ links last others, Traverses tolerance (links ++ [last]) (link.edge :: remaining) others ∧
      (links ++ [last]).head? = some link ∧ others ≠ [] ∧
      (∀ e ∈ others, touches tolerance last.stop e = false) ∧
      walk tolerance linked link remaining =
        .error (.disconnected (linked + links.length) others.length last.stop) := by
  induction linked, link, remaining using walk.induct tolerance with
  | case1 linked link remaining hempty =>
    obtain rfl := List.isEmpty_iff.1 hempty
    exact .inl ⟨[], ⟨.singleton _, .refl _⟩, walk_nil linked link⟩
  | case2 linked link remaining hne hnone =>
    have hne : remaining ≠ [] := by simpa using hne
    exact .inr ⟨[], link, remaining, ⟨.singleton _, .refl _⟩, rfl, hne,
      touches_of_takeTouching?_eq_none hnone, walk_of_none hne hnone⟩
  | case3 linked link remaining hne e others hsome _ ih =>
    obtain ⟨htouches, hperm⟩ := takeTouching?_eq_some hsome
    have hnear := isNear_start_of_touches htouches
    rw [walk_of_some hsome]
    rcases ih with ⟨links, htraverses, hwalk⟩ | ⟨links, last, left, htraverses, hhead, hleft, haway, hwalk⟩
    · refine .inl ⟨_, htraverses.cons hperm ?_, by rw [hwalk]; rfl⟩
      rintro _ ⟨⟩
      exact hnear
    · refine .inr ⟨link :: links, last, left, htraverses.cons hperm ?_, rfl, hleft, haway, ?_⟩
      · rw [hhead]
        rintro _ ⟨⟩
        exact hnear
      · rw [hwalk, List.length_cons, Nat.add_right_comm, Nat.add_assoc]
        rfl

/-- Edges are all linked, or linking them comes to an end before that; it fails in no other way. -/
theorem links_cases (tolerance : α) (e : Edge α) (es : List (Edge α)) :
    (∃ first rest, Traverses tolerance (first :: rest) (e :: es) [] ∧ links tolerance (e :: es) = .ok (first :: rest)) ∨
    ∃ stitched remaining stop, links tolerance (e :: es) = .error (.disconnected stitched remaining stop) := by
  obtain ⟨link, remaining, hstart, hperm⟩ := start?_eq_some tolerance e es
  have hlinks : links tolerance (e :: es) = walk tolerance 1 link remaining := by
    rw [links, hstart]
  rw [hlinks]
  rcases walk_cases tolerance 1 link remaining with ⟨rest, htraverses, hwalk⟩ | ⟨_, _, _, -, -, -, -, hwalk⟩
  · exact .inl ⟨link, rest, ⟨htraverses.joined, htraverses.once.trans hperm⟩, hwalk⟩
  · exact .inr ⟨_, _, _, hwalk⟩

/-- A path goes along one edge at least, and along each edge once. -/
theorem exists_pathOf {origin : Point α} {edges : List (Edge α)} {p : Path α}
    (h : path tolerance origin edges = .ok p) :
    ∃ first rest, Traverses tolerance (first :: rest) edges [] ∧ p = pathOf origin (first :: rest) := by
  rw [path] at h
  cases edges with
  | nil => cases h
  | cons e es =>
    rcases links_cases tolerance e es with ⟨first, rest, htraverses, hlinks⟩ | ⟨_, _, _, hlinks⟩
    · rw [hlinks] at h
      cases h
      exact ⟨first, rest, htraverses, rfl⟩
    · rw [hlinks] at h
      cases h

/-- **What comes of joining edges.** Either all edges are joined: the path begins where the first of
them does and goes along one after the other, in some order and direction, each beginning where the one
before it ended. Or some edges are left when others are joined in this way, and none of those has an end
where the last of these ends; how many were joined, how many are left and where is all that is said. -/
theorem path_cases (tolerance : α) (origin : Point α) (e : Edge α) (es : List (Edge α)) :
    (∃ first rest, Traverses tolerance (first :: rest) (e :: es) [] ∧
      path tolerance origin (e :: es) = .ok (.move (first.start - origin) ::
        (first :: rest).flatMap fun l => Path.along l.edge.kind (l.points.map (· - origin)))) ∨
    ∃ before last others, Traverses tolerance (before ++ [last]) (e :: es) others ∧ others ≠ [] ∧
      (before ++ [last]).length + others.length = (e :: es).length ∧
      (∀ o ∈ others, o.route.source.isNear tolerance last.stop = false ∧
        o.route.target.isNear tolerance last.stop = false) ∧
      path tolerance origin (e :: es) =
        .error (.disconnected (before ++ [last]).length others.length last.stop) := by
  obtain ⟨link, remaining, hstart, hperm⟩ := start?_eq_some tolerance e es
  have hpath : path tolerance origin (e :: es) = (walk tolerance 1 link remaining).map (pathOf origin) := by
    rw [path, links, hstart]
  rw [hpath]
  rcases walk_cases tolerance 1 link remaining with
    ⟨links, htraverses, hwalk⟩ | ⟨links, last, others, htraverses, -, hne, haway, hwalk⟩
  · refine .inl ⟨link, links, ⟨htraverses.joined, htraverses.once.trans hperm⟩, ?_⟩
    rw [hwalk]
    rfl
  · have hlength : (links ++ [last]).length + others.length = (e :: es).length := by
      rw [← (htraverses.once.trans hperm).length_eq, @List.length_append _ _ others, List.length_map]
    refine .inr ⟨links, last, others, ⟨htraverses.joined, htraverses.once.trans hperm⟩, hne, hlength, ?_, ?_⟩
    · intro o ho
      simpa [touches] using haway o ho
    · rw [hwalk, List.length_append, List.length_singleton, Nat.add_comm 1]
      rfl

/-- A line, and a curve that is walked backwards: between two control points the pen stops halfway. -/
example : path (0 : Float) 0
    [⟨.line, ⟨⟨0, 0⟩, [], ⟨4, 0⟩⟩⟩, ⟨.curve, ⟨⟨12, 4⟩, [⟨8, 4⟩, ⟨8, 0⟩], ⟨4, 0⟩⟩⟩] =
      .ok [.move ⟨0, 0⟩, .line ⟨4, 0⟩, .quad ⟨8, 0⟩ ⟨8, 2⟩, .quad ⟨8, 4⟩ ⟨12, 4⟩] := by
  decide +kernel

end Chain

end StencilKit
