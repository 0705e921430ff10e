/-
What is made equal by a map of numbers was equal before.

A map of numbers may forget something about them, such as the sign of a zero. As long as it tells
apart what `==` tells apart (`Separates`), two things that it makes equal were equal in the sense of
`==` before, unless they hold a number that differs from itself; that is the lemma `beq_of_map` of
each type.
-/
import StencilKit.Proofs.Coordinates.Map

namespace StencilKit

variable {α β : Type} {T U : Type}

/-! ## What a map tells apart -/

/-- Whether a map makes only such numbers equal as are equal in the sense of `==`. A number that
differs from itself does not count. -/
def Separates [BEq α] (f : α → β) : Prop := ∀ a b, f a = f b → (a == a) = true → (a == b) = true

/-- Whether all of some numbers equal themselves. -/
def Reflexive [BEq α] (numbers : List α) : Prop := ∀ a ∈ numbers, (a == a) = true

theorem Reflexive.of_flatMap [BEq α] {g : T → List α} {xs : List T} {x : T} (h : Reflexive (xs.flatMap g))
    (hx : x ∈ xs) : Reflexive (g x) := fun a ha => h a (List.mem_flatMap.2 ⟨x, hx, ha⟩)

theorem Reflexive.left [BEq α] {as bs : List α} (h : Reflexive (as ++ bs)) : Reflexive as :=
  fun a ha => h a (List.mem_append_left bs ha)

theorem Reflexive.right [BEq α] {as bs : List α} (h : Reflexive (as ++ bs)) : Reflexive bs :=
  fun b hb => h b (List.mem_append_right as hb)

theorem Reflexive.append [BEq α] {as bs : List α} (ha : Reflexive as) (hb : Reflexive bs) :
    Reflexive (as ++ bs) :=
  List.forall_mem_append.2 ⟨ha, hb⟩

theorem Reflexive.flatMap [BEq α] {g : T → List α} {xs : List T} (h : ∀ x ∈ xs, Reflexive (g x)) :
    Reflexive (xs.flatMap g) := by
  intro a ha
  obtain ⟨x, hx, hax⟩ := List.mem_flatMap.1 ha
  exact h x hx a hax

theorem beq_list_of_map [BEq T] {g : T → U} {xs ys : List T} (h : xs.map g = ys.map g)
    (hx : ∀ x ∈ xs, ∀ y, g x = g y → (x == y) = true) : (xs == ys) = true := by
  induction xs generalizing ys with
  | nil =>
    cases ys with
    | nil => rfl
    | cons y ys => cases h
  | cons x xs ih =>
    cases ys with
    | nil => cases h
    | cons y ys =>
      rw [List.map_cons, List.map_cons, List.cons.injEq] at h
      have hhead := hx x List.mem_cons_self y h.1
      have htail := ih h.2 fun z hz => hx z (List.mem_cons_of_mem _ hz)
      rw [List.cons_beq_cons, hhead, htail]
      rfl

section

variable [BEq α] {f : α → β} (hf : Separates f)
include hf

theorem Point.beq_of_map {p q : Point α} (hp : Reflexive p.numbers) (h : p.map f = q.map f) :
    (p == q) = true := by
  obtain ⟨px, py⟩ := p
  obtain ⟨qx, qy⟩ := q
  obtain ⟨hx, hy⟩ := Point.mk.inj h
  have h₁ := hf px qx hx (hp px (by simp [numbers]))
  have h₂ := hf py qy hy (hp py (by simp [numbers]))
  show (px == qx && py == qy) = true
  rw [h₁, h₂]
  rfl

theorem Box.beq_of_map {b c : Box α} (hb : Reflexive b.numbers) (h : b.map f = c.map f) :
    (b == c) = true := by
  obtain ⟨bx, by', bw, bh⟩ := b
  obtain ⟨cx, cy, cw, ch⟩ := c
  obtain ⟨hx, hy, hw, hh⟩ := Box.mk.inj h
  have h₁ := hf bx cx hx (hb bx (by simp [numbers]))
  have h₂ := hf by' cy hy (hb by' (by simp [numbers]))
  have h₃ := hf bw cw hw (hb bw (by simp [numbers]))
  have h₄ := hf bh ch hh (hb bh (by simp [numbers]))
  show (bx == cx && (by' == cy && (bw == cw && bh == ch))) = true
  rw [h₁, h₂, h₃, h₄]
  rfl

theorem PathStep.beq_of_map {s t : PathStep α} (hs : Reflexive s.numbers) (h : s.map f = t.map f) :
    (s == t) = true := by
  cases s with
  | move p =>
    cases t <;> try cases h
    exact Point.beq_of_map hf hs (PathStep.move.inj h)
  | line p =>
    cases t <;> try cases h
    exact Point.beq_of_map hf hs (PathStep.line.inj h)
  | quad control stop =>
    cases t <;> try cases h
    rename_i control' stop'
    obtain ⟨hcontrol, hstop⟩ := PathStep.quad.inj h
    have h₁ := Point.beq_of_map hf hs.left hcontrol
    have h₂ := Point.beq_of_map hf hs.right hstop
    show (control == control' && stop == stop') = true
    rw [h₁, h₂]
    rfl
  | close =>
    cases t <;> try cases h
    rfl

theorem Point.beq_list_of_map {ps qs : List (Point α)} (hps : Reflexive (ps.flatMap numbers))
    (h : ps.map (map f) = qs.map (map f)) : (ps == qs) = true :=
  StencilKit.beq_list_of_map h fun _ hp _ hpq => beq_of_map hf (hps.of_flatMap hp) hpq

theorem Node.beq_of_map {n m : Node α} (hn : Reflexive n.numbers) (h : n.map f = m.map f) :
    (n == m) = true := by
  cases n with
  | path p =>
    cases m <;> try cases h
    rename_i q
    have hsteps : List.map (PathStep.map f) p = List.map (PathStep.map f) q := Node.path.inj h
    exact beq_list_of_map hsteps fun s hs t hst => PathStep.beq_of_map hf (hn.of_flatMap hs) hst
  | rect b =>
    cases m <;> try cases h
    exact Box.beq_of_map hf hn (Node.rect.inj h)
  | ellipse b =>
    cases m <;> try cases h
    exact Box.beq_of_map hf hn (Node.ellipse.inj h)
  | reference name b =>
    cases m <;> try cases h
    rename_i name' b'
    obtain ⟨rfl, hb⟩ := Node.reference.inj h
    have h₁ := Box.beq_of_map hf hn hb
    show (name == name && b == b') = true
    rw [h₁, beq_self_eq_true]
    rfl
  | image src b =>
    cases m <;> try cases h
    rename_i src' b'
    obtain ⟨rfl, hb⟩ := Node.image.inj h
    have h₁ := Box.beq_of_map hf hn hb
    show (src == src && b == b') = true
    rw [h₁, beq_self_eq_true]
    rfl
  | strokeWidth width =>
    cases m <;> try cases h
    rename_i width'
    exact hf width width' (Node.strokeWidth.inj h) (hn width (by simp [numbers]))
  | dashed on =>
    cases m <;> cases h
    exact beq_self_eq_true on
  | dashPattern text | strokeColor text | fillColor text | unknown text =>
    cases m <;> cases h
    exact beq_self_eq_true text
  | stroke | fillStroke =>
    cases m <;> cases h
    rfl

theorem Anchor.beq_of_map {a b : Anchor α} (ha : Reflexive a.numbers) (h : a.map f = b.map f) :
    (a == b) = true := by
  obtain ⟨ax, ay, name⟩ := a
  obtain ⟨bx, bby, name'⟩ := b
  obtain ⟨hx, hy, rfl⟩ := Anchor.mk.inj h
  have h₁ := hf ax bx hx (ha ax (by simp [numbers]))
  have h₂ := hf ay bby hy (ha ay (by simp [numbers]))
  show (ax == bx && (ay == bby && name == name)) = true
  rw [h₁, h₂, beq_self_eq_true]
  rfl

theorem EdgeTrace.beq_of_map {t u : EdgeTrace α} (ht : Reflexive t.numbers) (h : t.map f = u.map f) :
    (t == u) = true := by
  obtain ⟨name, kind, own, ps⟩ := t
  obtain ⟨name', kind', own', qs⟩ := u
  obtain ⟨rfl, rfl, rfl, hps⟩ := EdgeTrace.mk.inj h
  have h₁ := Point.beq_list_of_map hf ht hps
  show (name == name && (kind == kind && (own == own && ps == qs))) = true
  rw [h₁, beq_self_eq_true, beq_self_eq_true, beq_self_eq_true]
  rfl

theorem RegionTrace.beq_of_map {t u : RegionTrace α} (ht : Reflexive t.numbers) (h : t.map f = u.map f) :
    (t == u) = true := by
  obtain ⟨name, kind, own, shape, b⟩ := t
  obtain ⟨name', kind', own', shape', c⟩ := u
  obtain ⟨rfl, rfl, rfl, rfl, hb⟩ := RegionTrace.mk.inj h
  have h₁ := Box.beq_of_map hf ht hb
  show (name == name && (kind == kind && (own == own && (shape == shape && b == c)))) = true
  rw [h₁, beq_self_eq_true, beq_self_eq_true, beq_self_eq_true, beq_self_eq_true]
  rfl

theorem Connection.beq_of_map {c d : Connection α} (hc : Reflexive c.numbers) (h : c.map f = d.map f) :
    (c == d) = true := by
  cases c with
  | anchor a =>
    cases d <;> try cases h
    exact Anchor.beq_of_map hf hc (Connection.anchor.inj h)
  | edge t =>
    cases d <;> try cases h
    exact EdgeTrace.beq_of_map hf hc (Connection.edge.inj h)
  | region t =>
    cases d <;> try cases h
    exact RegionTrace.beq_of_map hf hc (Connection.region.inj h)
  | unknown tag =>
    cases d <;> cases h
    exact beq_self_eq_true tag

theorem Stencil.beq_of_map {s t : Stencil α} (hs : Reflexive s.numbers) (h : s.map f = t.map f) :
    (s == t) = true := by
  obtain ⟨w, height, fixed, strokeWidth, cs, ns⟩ := s
  obtain ⟨w', height', fixed', strokeWidth', cs', ns'⟩ := t
  obtain ⟨hw, hh, rfl, rfl, hcs, hns⟩ := Stencil.mk.inj h
  have hrest : Reflexive (cs.flatMap Connection.numbers ++ ns.flatMap Node.numbers) :=
    fun a ha => hs a (List.mem_cons_of_mem _ (List.mem_cons_of_mem _ ha))
  have h₁ := hf w w' hw (hs w (by simp [numbers]))
  have h₂ := hf height height' hh (hs height (by simp [numbers]))
  have h₃ := beq_list_of_map hcs fun c hc d hcd => Connection.beq_of_map hf (hrest.left.of_flatMap hc) hcd
  have h₄ := beq_list_of_map hns fun n hn m hnm => Node.beq_of_map hf (hrest.right.of_flatMap hn) hnm
  show (w == w' && (height == height' && (fixed == fixed && (strokeWidth == strokeWidth &&
    (cs == cs' && ns == ns'))))) = true
  rw [h₁, h₂, h₃, h₄, beq_self_eq_true, beq_self_eq_true]
  rfl

theorem Route.beq_of_map {r q : Route α} (hr : Reflexive r.numbers) (h : r.map f = q.map f) :
    (r == q) = true := by
  obtain ⟨source, bends, target⟩ := r
  obtain ⟨source', bends', target'⟩ := q
  obtain ⟨hsource, hbends, htarget⟩ := Route.mk.inj h
  have hpoint : ∀ p ∈ source :: bends ++ [target], Reflexive p.numbers := fun p hp => Reflexive.of_flatMap hr hp
  have h₁ := Point.beq_of_map hf (hpoint source (by simp)) hsource
  have h₂ := StencilKit.beq_list_of_map hbends fun p hp q hpq => Point.beq_of_map hf (hpoint p (by simp [hp])) hpq
  have h₃ := Point.beq_of_map hf (hpoint target (by simp)) htarget
  show (source == source' && (bends == bends' && target == target')) = true
  rw [h₁, h₂, h₃]
  rfl

theorem Edge.beq_of_map {d e : Edge α} (hd : Reflexive d.numbers) (h : d.map f = e.map f) :
    (d == e) = true := by
  obtain ⟨kind, r⟩ := d
  obtain ⟨kind', q⟩ := e
  obtain ⟨rfl, hr⟩ := Edge.mk.inj h
  have h₁ := Route.beq_of_map hf hd hr
  show (kind == kind && r == q) = true
  rw [h₁, beq_self_eq_true]
  rfl

theorem Anchorage.beq_of_map {a b : Anchorage α} (ha : Reflexive a.numbers) (h : a.map f = b.map f) :
    (a == b) = true := by
  cases a with
  | spot box =>
    cases b <;> try cases h
    exact Box.beq_of_map hf ha (Anchorage.spot.inj h)
  | along e =>
    cases b <;> try cases h
    exact Edge.beq_of_map hf ha (Anchorage.along.inj h)
  | region kind shape box =>
    cases b <;> try cases h
    rename_i kind' shape' box'
    obtain ⟨rfl, rfl, hbox⟩ := Anchorage.region.inj h
    have h₁ := Box.beq_of_map hf ha hbox
    show (kind == kind && (shape == shape && box == box')) = true
    rw [h₁, beq_self_eq_true, beq_self_eq_true]
    rfl

theorem Marker.beq_of_map {m n : Marker α} (hm : Reflexive m.numbers) (h : m.map f = n.map f) :
    (m == n) = true := by
  obtain ⟨label, a⟩ := m
  obtain ⟨label', b⟩ := n
  obtain ⟨rfl, ha⟩ := Marker.mk.inj h
  have h₁ := Anchorage.beq_of_map hf hm ha
  show (label == label && a == b) = true
  rw [h₁, beq_self_eq_true]
  rfl

theorem Style.beq_of_map {s t : Style α} (hs : Reflexive s.numbers) (h : s.map f = t.map f) :
    (s == t) = true := by
  obtain ⟨stroke, fill?, width?, dashed, pattern?, rounded⟩ := s
  obtain ⟨stroke', fill?', width?', dashed', pattern?', rounded'⟩ := t
  obtain ⟨rfl, rfl, hwidth, rfl, rfl, rfl⟩ := Style.mk.inj h
  have h₁ : (width? == width?') = true := by
    cases width? with
    | none =>
      cases width?' <;> cases hwidth
      rfl
    | some a =>
      cases width?' <;> try cases hwidth
      rename_i b
      exact hf a b (Option.some.inj hwidth) (hs a (by simp [numbers]))
  show (stroke == stroke && (fill? == fill? && (width? == width?' && (dashed == dashed && (pattern? == pattern? &&
    rounded == rounded))))) = true
  rw [h₁, beq_self_eq_true, beq_self_eq_true, beq_self_eq_true, beq_self_eq_true, beq_self_eq_true]
  rfl

theorem Marker.beq_list_of_map {ms ns : List (Marker α)} (hms : Reflexive (ms.flatMap numbers))
    (h : ms.map (map f) = ns.map (map f)) : (ms == ns) = true :=
  StencilKit.beq_list_of_map h fun _ hm _ hmn => beq_of_map hf (hms.of_flatMap hm) hmn

theorem Primitive.beq_of_map {p q : Primitive α} (hp : Reflexive p.numbers) (h : p.map f = q.map f) :
    (p == q) = true := by
  cases p with
  | edge e style outline markers =>
    cases q <;> try cases h
    rename_i e' style' outline' markers'
    obtain ⟨he, hstyle, rfl, hmarkers⟩ := Primitive.edge.inj h
    have h₁ := Edge.beq_of_map hf hp.left.left he
    have h₂ := Style.beq_of_map hf hp.left.right hstyle
    have h₃ := Marker.beq_list_of_map hf hp.right hmarkers
    show (e == e' && (style == style' && (outline == outline && markers == markers'))) = true
    rw [h₁, h₂, h₃, beq_self_eq_true]
    rfl
  | stencil shape b style outline markers =>
    cases q <;> try cases h
    rename_i shape' b' style' outline' markers'
    obtain ⟨rfl, hb, hstyle, rfl, hmarkers⟩ := Primitive.stencil.inj h
    have h₁ := Box.beq_of_map hf hp.left.left hb
    have h₂ := Style.beq_of_map hf hp.left.right hstyle
    have h₃ := Marker.beq_list_of_map hf hp.right hmarkers
    show (shape == shape && (b == b' && (style == style' && (outline == outline && markers == markers')))) = true
    rw [h₁, h₂, h₃, beq_self_eq_true, beq_self_eq_true]
    rfl
  | image src b style markers =>
    cases q <;> try cases h
    rename_i src' b' style' markers'
    obtain ⟨rfl, hb, hstyle, hmarkers⟩ := Primitive.image.inj h
    have h₁ := Box.beq_of_map hf hp.left.left hb
    have h₂ := Style.beq_of_map hf hp.left.right hstyle
    have h₃ := Marker.beq_list_of_map hf hp.right hmarkers
    show (src == src && (b == b' && (style == style' && markers == markers'))) = true
    rw [h₁, h₂, h₃, beq_self_eq_true]
    rfl
  | text value b style =>
    cases q <;> try cases h
    rename_i value' b' style'
    obtain ⟨rfl, hb, hstyle⟩ := Primitive.text.inj h
    have h₁ := Box.beq_of_map hf hp.left hb
    have h₂ := Style.beq_of_map hf hp.right hstyle
    show (value == value && (b == b' && style == style')) = true
    rw [h₁, h₂, beq_self_eq_true]
    rfl
  | group edges style =>
    cases q <;> try cases h
    rename_i edges' style'
    obtain ⟨hedges, hstyle⟩ := Primitive.group.inj h
    have h₁ := beq_list_of_map hedges fun e he d hed => Edge.beq_of_map hf (hp.left.of_flatMap he) hed
    have h₂ := Style.beq_of_map hf hp.right hstyle
    show (edges == edges' && style == style') = true
    rw [h₁, h₂]
    rfl

theorem Parts.beq_of_map {p q : Parts α} (hp : Reflexive p.numbers) (h : p.map f = q.map f) :
    (p == q) = true := by
  obtain ⟨primitives, markers⟩ := p
  obtain ⟨primitives', markers'⟩ := q
  obtain ⟨hprimitives, hmarkers⟩ := Parts.mk.inj h
  have h₁ := beq_list_of_map hprimitives fun x hx y hxy => Primitive.beq_of_map hf (hp.left.of_flatMap hx) hxy
  have h₂ := Marker.beq_list_of_map hf hp.right hmarkers
  show (primitives == primitives' && markers == markers') = true
  rw [h₁, h₂]
  rfl

end

end StencilKit
