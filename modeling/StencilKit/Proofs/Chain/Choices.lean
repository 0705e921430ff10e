/-
What the order of the edges decides.

Where several edges begin at the lowest point, or several touch the end that a walk has come to, the one that
is listed first is taken; so the order of the list settles the choices that a walk has, and nothing else. A walk
that may choose freely (`Walks`, `CanLink`) comes to just what some order makes the other one come to
(`canLink_iff`): any choices that it makes are those of the list in which the edges stand in the order in which
it takes them.

* `start?_of_begins`: a beginning that is listed first is where the walk begins.
* `path_orders_agree_iff`: when all orders have the same outcome.
-/
import StencilKit.Proofs.Chain.Permutation

namespace StencilKit.Chain

variable {tolerance : Float} {edges remaining remaining' : List (Edge Float)}
  {r : Except (Failure Float) (List (Link Float))}

/-! ## Free walks -/

/-- What a walk can come to that goes on from a link with any edge that touches its end. -/
inductive Walks (tolerance : Float) :
    Nat → Link Float → List (Edge Float) → Except (Failure Float) (List (Link Float)) → Prop
  | done {linked : Nat} {link : Link Float} : Walks tolerance linked link [] (.ok [link])
  | stuck {linked : Nat} {link : Link Float} {remaining : List (Edge Float)} : remaining ≠ [] →
    (∀ e ∈ remaining, touches tolerance link.stop e = false) →
    Walks tolerance linked link remaining (.error (.disconnected linked remaining.length link.stop))
  | step {linked : Nat} {link : Link Float} {remaining others : List (Edge Float)} {e : Edge Float}
    {r : Except (Failure Float) (List (Link Float))} : (e :: others).Perm remaining →
    touches tolerance link.stop e = true →
    Walks tolerance (linked + 1) ⟨e, !e.route.source.isNear tolerance link.stop⟩ others r →
    Walks tolerance linked link remaining (r.map (link :: ·))

/-- What can come of joining edges, from any beginning and by any way on. -/
inductive CanLink (tolerance : Float) (edges : List (Edge Float)) :
    Except (Failure Float) (List (Link Float)) → Prop
  | nothing : edges = [] → CanLink tolerance edges (.error .emptySelection)
  | walk {link : Link Float} {others : List (Edge Float)} {r : Except (Failure Float) (List (Link Float))} :
    (link.edge :: others).Perm edges → Begins tolerance edges link → Walks tolerance 1 link others r →
    CanLink tolerance edges r

theorem Walks.perm {linked : Nat} {link : Link Float} (h : Walks tolerance linked link remaining r)
    (hperm : remaining.Perm remaining') : Walks tolerance linked link remaining' r := by
  cases h with
  | done =>
    obtain rfl := hperm.nil_eq
    exact .done
  | stuck hne haway =>
    rw [hperm.length_eq]
    exact .stuck (fun hnil => hne (hperm.trans (.of_eq hnil)).eq_nil) fun e he => haway e (hperm.mem_iff.2 he)
  | step hothers htouches h => exact .step (hothers.trans hperm) htouches h

/-- **The walk is one of the free ones.** -/
theorem walks_walk (linked : Nat) (link : Link Float) (remaining : List (Edge Float)) :
    Walks tolerance linked link remaining (walk tolerance linked link remaining) := by
  induction linked, link, remaining using walk.induct tolerance with
  | case1 linked link remaining hempty =>
    obtain rfl := List.isEmpty_iff.1 hempty
    rw [walk_nil]
    exact .done
  | case2 linked link remaining hne hnone =>
    have hne : remaining ≠ [] := by simpa using hne
    rw [walk_of_none hne hnone]
    exact .stuck hne (touches_of_takeTouching?_eq_none hnone)
  | case3 linked link remaining hne e others hsome _ ih =>
    obtain ⟨htouches, hperm⟩ := takeTouching?_eq_some hsome
    rw [walk_of_some hsome]
    exact .step hperm htouches ih

/-- **A free walk is the walk through some order of what remains.** -/
theorem Walks.exists_perm {linked : Nat} {link : Link Float} (h : Walks tolerance linked link remaining r) :
    ∃ remaining', remaining'.Perm remaining ∧ walk tolerance linked link remaining' = r := by
  induction h with
  | done => exact ⟨[], .refl _, walk_nil _ _⟩
  | stuck hne haway =>
    refine ⟨_, .refl _, walk_of_none hne ?_⟩
    rw [Option.eq_none_iff_forall_ne_some]
    rintro ⟨e, others⟩ hsome
    obtain ⟨htouches, hperm⟩ := takeTouching?_eq_some hsome
    rw [haway e (hperm.mem_iff.1 List.mem_cons_self)] at htouches
    cases htouches
  | @step _ link _ _ e _ hperm htouches _ ih =>
    obtain ⟨others', hothers, hwalk⟩ := ih
    -- The edge that is taken next is listed first.
    have htake : takeTouching? tolerance link.stop (e :: others') = some (e, others') := by
      rw [takeTouching?, if_pos htouches]
    refine ⟨e :: others', (hothers.cons e).trans hperm, ?_⟩
    rw [walk_of_some htake, hwalk]

/-! ## Beginnings -/

/-- The first of several is the lowest if no other one is lower. -/
theorem lowest?_cons_of_le {T : Type} {key : T → Point Float} {x : T} {xs : List T}
    (h : ∀ y ∈ xs, (key x).rank ≤ (key y).rank) : lowest? key (x :: xs) = some x := by
  rw [lowest?]
  split
  · rfl
  · rename_i y hy
    have hle := h y (lowest?_eq_some hy).1
    rw [if_neg (mt Point.order_eq_lt_iff.1 (Nat.not_lt.2 hle))]

/-- Of the edges that are chosen from, the one that is listed first is the lowest if no other one is lower. -/
theorem lowest?_filter_eachWithOthers (key : Edge Float → Point Float) {p : Edge Float × List (Edge Float) → Bool}
    {e : Edge Float} {others : List (Edge Float)} (he : p (e, others) = true)
    (h : ∀ x ∈ (eachWithOthers (e :: others)).filter p, (key e).rank ≤ (key x.1).rank) :
    lowest? (fun (f, _) => key f) ((eachWithOthers (e :: others)).filter p) = some (e, others) := by
  rw [eachWithOthers, List.filter_cons_of_pos he] at h ⊢
  exact lowest?_cons_of_le fun x hx => h x (List.mem_cons_of_mem _ hx)

theorem lowest?_eq_none_of_forall {T : Type} {key : T → Point Float} {xs : List T} (h : ∀ x, x ∉ xs) :
    lowest? key xs = none := by
  rw [List.eq_nil_iff_forall_not_mem.2 h, lowest?]

/-- **A beginning that is listed first is where the walk begins.** -/
theorem start?_of_begins {link : Link Float} {others : List (Edge Float)}
    (h : Begins tolerance (link.edge :: others) link) :
    start? tolerance (link.edge :: others) = some (link, others) := by
  have hforward := @mem_free_iff tolerance (link.edge :: others) false (·.route.source) fun _ => rfl
  have hbackward := @mem_free_iff tolerance (link.edge :: others) true (·.route.target) fun _ => rfl
  have hfirst : ∀ {e : Edge Float} {reversed : Bool}, IsFree tolerance (e :: others) ⟨e, reversed⟩ →
      (!others.any (touches tolerance (⟨e, reversed⟩ : Link Float).start)) = true :=
    (isFree_iff (.refl _)).1
  unfold start?
  dsimp only
  cases h with
  | forward free lowest =>
    rw [lowest?_filter_eachWithOthers (·.route.source) (hfirst free)
      fun x hx => lowest x.1 ((hforward x.1).2 ⟨x.2, hx⟩)]
  | backward none free lowest =>
    rw [lowest?_eq_none_of_forall fun x hx => none x.1 ((hforward x.1).2 ⟨x.2, hx⟩),
      lowest?_filter_eachWithOthers (·.route.target) (hfirst free)
        fun x hx => lowest x.1 ((hbackward x.1).2 ⟨x.2, hx⟩)]
  | @anywhere e none mem lowest =>
    have hmem : ∀ x ∈ eachWithOthers (e :: others), x.1 ∈ e :: others := fun x hx =>
      (perm_of_mem_eachWithOthers hx).mem_iff.1 List.mem_cons_self
    rw [lowest?_eq_none_of_forall fun x hx => none ⟨x.1, false⟩ ((hforward x.1).2 ⟨x.2, hx⟩),
      lowest?_eq_none_of_forall fun x hx => none ⟨x.1, true⟩ ((hbackward x.1).2 ⟨x.2, hx⟩)]
    have hlowest : lowest? (fun (f, _) => f.route.source) (eachWithOthers (e :: others)) = some (e, others) :=
      lowest?_cons_of_le fun x hx => lowest x.1 (hmem x (List.mem_cons_of_mem _ hx))
    rw [hlowest]

/-! ## Orders -/

/-- **What can come of joining edges is what comes of it in some order.** -/
theorem canLink_iff : CanLink tolerance edges r ↔ ∃ edges', edges.Perm edges' ∧ links tolerance edges' = r := by
  constructor
  · rintro (rfl | ⟨hperm, hbegins, hwalks⟩)
    · exact ⟨[], .refl _, rfl⟩
    · obtain ⟨others', hothers, hwalk⟩ := hwalks.exists_perm
      have hperm' := (hothers.cons _).trans hperm
      refine ⟨_, hperm'.symm, ?_⟩
      rw [links, start?_of_begins (hbegins.perm hperm'.symm)]
      exact hwalk
  · rintro ⟨edges', hperm, rfl⟩
    by_cases hne : edges' = []
    · subst hne
      exact .nothing hperm.eq_nil
    · obtain ⟨link, others, hstart, hothers⟩ := start?_of_ne_nil tolerance hne
      have hbegins := (begins_of_start? hstart).2.perm hperm.symm
      rw [links, hstart]
      exact .walk (hothers.trans hperm.symm) hbegins (walks_walk 1 link others)

/-- **When the order of the edges does not tell**: all orders have the same outcome, which is the same path or
none in either case, just when all free walks do. And so it is, down to the complaint, where there is never a
choice. -/
theorem path_orders_agree_iff (tolerance : Float) (origin : Point Float) (edges : List (Edge Float)) :
    ((∀ edges', edges.Perm edges' →
        (path tolerance origin edges').toOption = (path tolerance origin edges).toOption) ↔
      ∀ r r', CanLink tolerance edges r → CanLink tolerance edges r' →
        (r.map (pathOf origin)).toOption = (r'.map (pathOf origin)).toOption) ∧
    (Unforked tolerance edges →
      ∀ edges', edges.Perm edges' → path tolerance origin edges' = path tolerance origin edges) := by
  refine ⟨⟨?_, ?_⟩, fun hunforked edges' hperm => (path_perm origin hunforked hperm).symm⟩
  · intro hsame r r' hr hr'
    obtain ⟨edges', hperm, rfl⟩ := canLink_iff.1 hr
    obtain ⟨edges'', hperm', rfl⟩ := canLink_iff.1 hr'
    exact (hsame edges' hperm).trans (hsame edges'' hperm').symm
  · intro hsame edges' hperm
    exact hsame _ _ (canLink_iff.2 ⟨edges', hperm, rfl⟩) (canLink_iff.2 ⟨edges, .refl _, rfl⟩)

theorem path_orders_agree_two :
    path ComposeOptions.standard.joinTolerance 0 (detour.take 2).reverse =
      path ComposeOptions.standard.joinTolerance 0 (detour.take 2) :=
  (path_orders_agree_iff ComposeOptions.standard.joinTolerance 0 (detour.take 2)).2 unforked_detour_two _
    (List.reverse_perm _).symm

/-- **The order tells where there is a choice**: a walk that passes the detour by does not come back for it. -/
theorem path_ne_of_detour :
    ∃ edges edges' : List (Edge Float), edges.Perm edges' ∧
      (∀ e ∈ edges, ∀ p ∈ e.points, p.isFinite = true) ∧
      path ComposeOptions.standard.joinTolerance 0 edges = .error (.disconnected 2 2 ⟨20, 0⟩) ∧
      path ComposeOptions.standard.joinTolerance 0 edges' =
        .ok [.move ⟨0, 0⟩, .line ⟨10, 0⟩, .line ⟨15, 5⟩, .line ⟨10, 0⟩, .line ⟨20, 0⟩] ∧
      path ComposeOptions.standard.joinTolerance 0 edges ≠ path ComposeOptions.standard.joinTolerance 0 edges' := by
  refine ⟨detour, [detour[0], detour[2], detour[3], detour[1]], ?_, ?_, ?_, ?_, ?_⟩
  · exact .cons _ ((List.Perm.swap _ _ _).trans (.cons _ (.swap _ _ _)))
  all_goals decide +kernel

/-- Three lines that all begin at one point. -/
def spokes : List (Edge Float) :=
  [⟨.line, ⟨⟨0, 0⟩, [], ⟨4, 0⟩⟩⟩, ⟨.line, ⟨⟨0, 0⟩, [], ⟨0, 3⟩⟩⟩, ⟨.line, ⟨⟨0, 0⟩, [], ⟨3, 4⟩⟩⟩]

/-- There is a choice, but no order of the lines joins them. -/
example : ∀ edges ∈ spokes.permutations', (path ComposeOptions.standard.joinTolerance 0 edges).toOption = none := by
  decide +kernel

end StencilKit.Chain
