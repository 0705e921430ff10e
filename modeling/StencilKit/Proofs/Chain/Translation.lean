/-
Chains in another place.

Whether two ends touch and which of two points is the lower one does not change if all edges are moved alike.
So they are joined in the same order and in the same directions; and where they cannot be joined, the end that
nothing goes on from has moved with them (`path_moved`).
-/
import StencilKit.Proofs.Coordinates.Translation
import StencilKit.Proofs.Chain.Walk

namespace StencilKit

theorem eachWithOthers_map {T U : Type} (f : T → U) (xs : List T) :
    eachWithOthers (xs.map f) = (eachWithOthers xs).map fun (x, others) => (f x, others.map f) := by
  induction xs with
  | nil => rfl
  | cons x xs ih =>
    rw [List.map_cons, eachWithOthers, eachWithOthers, ih, List.map_cons, List.map_map, List.map_map]
    rfl

/-- A failure of the same drawing in another place: where edges do not join is the only place it speaks of. -/
def Failure.moved {α : Type} [Scalar α] (d : Point α) : Failure α → Failure α
  | disconnected stitched remaining stop => disconnected stitched remaining (stop + d)
  | failure => failure

/-- A link in another place. -/
def Link.moved {α : Type} [Scalar α] (l : Link α) (d : Point α) : Link α := ⟨l.edge.moved d, l.reversed⟩

/-- An edge with others, all in another place. -/
def Chain.movedChoice {α : Type} [Scalar α] (d : Point α) (x : Edge α × List (Edge α)) : Edge α × List (Edge α) :=
  (x.1.moved d, x.2.map (·.moved d))

section

variable {K : Type} [Field K] [LinearOrder K] [FloorRing K] [Transcendental K]

namespace Link

@[simp] theorem start_moved (l : Link K) (d : Point K) : (l.moved d).start = l.start + d := by
  unfold start moved
  split <;> rfl

@[simp] theorem stop_moved (l : Link K) (d : Point K) : (l.moved d).stop = l.stop + d := by
  unfold stop moved
  split <;> rfl

@[simp] theorem points_moved (l : Link K) (d : Point K) : (l.moved d).points = l.points.map (· + d) := by
  unfold points moved
  split <;> simp

end Link

namespace Chain

variable (d : Point K) {tolerance : K}

theorem touches_moved (p : Point K) (e : Edge K) :
    touches tolerance (p + d) (e.moved d) = touches tolerance p e := by
  rw [touches, touches]
  exact congr (congrArg or (Point.isNear_add d tolerance e.route.source p))
    (Point.isNear_add d tolerance e.route.target p)

theorem takeTouching?_moved (p : Point K) (es : List (Edge K)) :
    takeTouching? tolerance (p + d) (es.map (·.moved d)) =
      (takeTouching? tolerance p es).map (movedChoice d) := by
  induction es with
  | nil => rfl
  | cons e es ih =>
    rw [List.map_cons, takeTouching?, takeTouching?, touches_moved]
    split
    · rfl
    · rw [ih, Option.map_map, Option.map_map]
      rfl

/-- **A walk goes the same way in another place.** -/
theorem walk_moved (linked : Nat) (link : Link K) (remaining : List (Edge K)) :
    walk tolerance linked (link.moved d) (remaining.map (·.moved d)) =
      ((walk tolerance linked link remaining).map (·.map (·.moved d))).mapError (·.moved d) := by
  induction linked, link, remaining using walk.induct tolerance with
  | case1 linked link remaining hempty =>
    obtain rfl := List.isEmpty_iff.1 hempty
    rw [List.map_nil, walk_nil, walk_nil]
    rfl
  | case2 linked link remaining hne hnone =>
    have hne : remaining ≠ [] := by simpa using hne
    have hnone' : takeTouching? tolerance (link.moved d).stop (remaining.map (·.moved d)) = none := by
      rw [Link.stop_moved, takeTouching?_moved, hnone]
      rfl
    rw [walk_of_none hne hnone, walk_of_none (by simpa using hne) hnone', List.length_map, Link.stop_moved]
    rfl
  | case3 linked link remaining hne e others hsome _ ih =>
    have hsome' : takeTouching? tolerance (link.moved d).stop (remaining.map (·.moved d)) =
        some (e.moved d, others.map (·.moved d)) := by
      rw [Link.stop_moved, takeTouching?_moved, hsome]
      rfl
    have hnear : (e.moved d).route.source.isNear tolerance (link.moved d).stop =
        e.route.source.isNear tolerance link.stop := by
      rw [Link.stop_moved]
      exact Point.isNear_add d tolerance e.route.source link.stop
    rw [walk_of_some hsome, walk_of_some hsome', hnear]
    have ih : walk tolerance (linked + 1) ⟨e.moved d, !e.route.source.isNear tolerance link.stop⟩
        (others.map (·.moved d)) = _ := ih
    rw [ih]
    cases walk tolerance (linked + 1) ⟨e, !e.route.source.isNear tolerance link.stop⟩ others <;> rfl

theorem pathOf_moved (origin : Point K) (links : List (Link K)) :
    pathOf (origin + d) (links.map (·.moved d)) = pathOf origin links := by
  have hsteps : ∀ l : Link K, linkSteps (origin + d) (l.moved d) = linkSteps origin l := by
    intro l
    rw [linkSteps, linkSteps, Link.points_moved, List.map_map]
    exact congrArg _ (List.map_congr_left fun p _ => Point.add_sub_add d p origin)
  cases links with
  | nil => rfl
  | cons l ls =>
    have hflat : ((l :: ls).map (·.moved d)).flatMap (linkSteps (origin + d)) = (l :: ls).flatMap (linkSteps origin) := by
      rw [List.flatMap_map]
      exact List.flatMap_congr fun l _ => hsteps l
    rw [List.map_cons] at hflat
    rw [List.map_cons, pathOf, pathOf, Link.start_moved, Point.add_sub_add, hflat]

end Chain

end

variable {K : Type} [Field K] [LinearOrder K] [IsStrictOrderedRing K] [FloorRing K] [Transcendental K]

theorem Point.order_add (d p q : Point K) : (p + d).order (q + d) = p.order q := by
  have hcompare : ∀ a b t : K, compare (a + t) (b + t) = compare a b := by
    intro a b t
    rw [← cmp_eq_compare, ← cmp_eq_compare, cmp_add_right]
  show (compare (p.x + d.x) (q.x + d.x)).then (compare (p.y + d.y) (q.y + d.y)) = _
  rw [hcompare, hcompare]
  rfl

namespace Chain

omit [IsStrictOrderedRing K] in
theorem lowest?_map {T U : Type} {key : T → Point K} {key' : U → Point K} {f : T → U}
    (h : ∀ x y, (key' (f x)).order (key' (f y)) = (key x).order (key y)) (xs : List T) :
    lowest? key' (xs.map f) = (lowest? key xs).map f := by
  induction xs with
  | nil => rfl
  | cons x xs ih =>
    rw [List.map_cons, lowest?, lowest?, ih]
    cases lowest? key xs with
    | none => rfl
    | some y =>
      simp only [Option.map_some, h]
      split <;> rfl

variable (d : Point K) {tolerance : K}

omit [IsStrictOrderedRing K] in
theorem filter_free_moved (stop : Edge K → Point K) (hstop : ∀ e, stop (e.moved d) = stop e + d)
    (xs : List (Edge K × List (Edge K))) :
    (xs.map (movedChoice d)).filter (fun x => !x.2.any (touches tolerance (stop x.1))) =
      (xs.filter fun x => !x.2.any (touches tolerance (stop x.1))).map (movedChoice d) := by
  rw [List.filter_map]
  refine congrArg _ (List.filter_congr fun x _ => congrArg not ?_)
  show (x.2.map (·.moved d)).any (touches tolerance (stop (x.1.moved d))) = _
  rw [hstop, List.any_map]
  exact congrArg _ (funext fun e => touches_moved d (stop x.1) e)

theorem lowest?_moved (key : Edge K → Point K) (hkey : ∀ e, key (e.moved d) = key e + d)
    (xs : List (Edge K × List (Edge K))) :
    lowest? (fun x => key x.1) (xs.map (movedChoice d)) = (lowest? (fun x => key x.1) xs).map (movedChoice d) := by
  refine lowest?_map (fun x y => ?_) xs
  show (key (x.1.moved d)).order (key (y.1.moved d)) = _
  rw [hkey, hkey, Point.order_add]

/-- **A walk begins with the same edge in another place.** -/
theorem start?_moved (edges : List (Edge K)) :
    start? tolerance (edges.map (·.moved d)) =
      (start? tolerance edges).map fun (link, others) => (link.moved d, others.map (·.moved d)) := by
  have hall : eachWithOthers (edges.map (·.moved d)) = (eachWithOthers edges).map (movedChoice d) :=
    eachWithOthers_map _ edges
  unfold start?
  dsimp only
  rw [hall, filter_free_moved d (·.route.source) fun _ => rfl, filter_free_moved d (·.route.target) fun _ => rfl,
    lowest?_moved d (·.route.source) fun _ => rfl, lowest?_moved d (·.route.target) fun _ => rfl,
    lowest?_moved d (·.route.source) fun _ => rfl]
  generalize lowest? (fun x : Edge K × List (Edge K) => x.1.route.source) (List.filter _ _) = forward
  generalize lowest? (fun x : Edge K × List (Edge K) => x.1.route.target) (List.filter _ _) = backward
  generalize lowest? (fun x : Edge K × List (Edge K) => x.1.route.source) (eachWithOthers edges) = any
  cases forward with
  | some x => rfl
  | none =>
    cases backward with
    | some x => rfl
    | none => cases any <;> rfl

/-- **A path through edges in another place** is the same, seen from an origin that has moved with them. -/
theorem path_moved (origin : Point K) (edges : List (Edge K)) :
    path tolerance (origin + d) (edges.map (·.moved d)) = (path tolerance origin edges).mapError (·.moved d) := by
  have hlinks : links tolerance (edges.map (·.moved d)) =
      ((links tolerance edges).map (·.map (·.moved d))).mapError (·.moved d) := by
    rw [links, links, start?_moved]
    cases start? tolerance edges with
    | none => rfl
    | some start => exact walk_moved d 1 start.1 start.2
  rw [path, path, hlinks]
  cases links tolerance edges with
  | error e => rfl
  | ok links => exact congrArg Except.ok (pathOf_moved d origin links)

end Chain

end StencilKit
