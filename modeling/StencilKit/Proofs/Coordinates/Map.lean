/-
Drawings and stencils with their numbers changed one by one, and the numbers that they hold.
-/
import StencilKit.Decomposition

namespace StencilKit

variable {α β γ : Type} {T U : Type}

/-! ## Maps -/

namespace Point

def map (f : α → β) (p : Point α) : Point β := ⟨f p.x, f p.y⟩

def numbers (p : Point α) : List α := [p.x, p.y]

end Point

namespace Box

def map (f : α → β) (b : Box α) : Box β := ⟨f b.x, f b.y, f b.w, f b.h⟩

def numbers (b : Box α) : List α := [b.x, b.y, b.w, b.h]

end Box

namespace PathStep

def map (f : α → β) : PathStep α → PathStep β
  | move p => move (p.map f)
  | line p => line (p.map f)
  | quad control stop => quad (control.map f) (stop.map f)
  | close => close

def numbers : PathStep α → List α
  | move p | line p => p.numbers
  | quad control stop => control.numbers ++ stop.numbers
  | close => []

end PathStep

namespace Node

def map (f : α → β) : Node α → Node β
  | path p => path (List.map (PathStep.map f) p)
  | rect b => rect (b.map f)
  | ellipse b => ellipse (b.map f)
  | reference name b => reference name (b.map f)
  | image src b => image src (b.map f)
  | dashed on => dashed on
  | dashPattern pattern => dashPattern pattern
  | strokeWidth width => strokeWidth (f width)
  | strokeColor color => strokeColor color
  | fillColor color => fillColor color
  | stroke => stroke
  | fillStroke => fillStroke
  | unknown tag => unknown tag

def numbers : Node α → List α
  | path p => List.flatMap PathStep.numbers p
  | rect b | ellipse b | reference _ b | image _ b => b.numbers
  | strokeWidth width => [width]
  | _ => []

end Node

namespace Anchor

def map (f : α → β) (a : Anchor α) : Anchor β := ⟨f a.x, f a.y, a.name⟩

def numbers (a : Anchor α) : List α := [a.x, a.y]

end Anchor

namespace EdgeTrace

def map (f : α → β) (t : EdgeTrace α) : EdgeTrace β := ⟨t.name, t.kind, t.own, t.points.map (Point.map f)⟩

def numbers (t : EdgeTrace α) : List α := t.points.flatMap Point.numbers

end EdgeTrace

namespace RegionTrace

def map (f : α → β) (t : RegionTrace α) : RegionTrace β := ⟨t.name, t.kind, t.own, t.shape, t.box.map f⟩

def numbers (t : RegionTrace α) : List α := t.box.numbers

end RegionTrace

namespace Connection

def map (f : α → β) : Connection α → Connection β
  | anchor a => anchor (a.map f)
  | edge t => edge (t.map f)
  | region t => region (t.map f)
  | unknown tag => unknown tag

def numbers : Connection α → List α
  | anchor a => a.numbers
  | edge t => t.numbers
  | region t => t.numbers
  | unknown _ => []

end Connection

namespace Stencil

def map (f : α → β) (s : Stencil α) : Stencil β :=
  ⟨f s.w, f s.h, s.fixed, s.strokeWidth, s.connections.map (Connection.map f), s.foreground.map (Node.map f)⟩

def numbers (s : Stencil α) : List α :=
  s.w :: s.h :: (s.connections.flatMap Connection.numbers ++ s.foreground.flatMap Node.numbers)

end Stencil

namespace Route

def map (f : α → β) (r : Route α) : Route β := ⟨r.source.map f, r.bends.map (Point.map f), r.target.map f⟩

def numbers (r : Route α) : List α := r.points.flatMap Point.numbers

end Route

namespace Edge

def map (f : α → β) (e : Edge α) : Edge β := ⟨e.kind, e.route.map f⟩

def numbers (e : Edge α) : List α := e.route.numbers

end Edge

namespace Anchorage

def map (f : α → β) : Anchorage α → Anchorage β
  | spot b => spot (b.map f)
  | along e => along (e.map f)
  | region kind shape b => region kind shape (b.map f)

def numbers : Anchorage α → List α
  | spot b | region _ _ b => b.numbers
  | along e => e.numbers

end Anchorage

namespace Marker

def map (f : α → β) (m : Marker α) : Marker β := ⟨m.label, m.anchorage.map f⟩

def numbers (m : Marker α) : List α := m.anchorage.numbers

end Marker

namespace Style

def map (f : α → β) (s : Style α) : Style β :=
  ⟨s.stroke, s.fill?, s.width?.map f, s.dashed, s.pattern?, s.rounded⟩

def numbers (s : Style α) : List α := s.width?.toList

end Style

namespace Primitive

def map (f : α → β) : Primitive α → Primitive β
  | edge e style outline markers => edge (e.map f) (style.map f) outline (markers.map (Marker.map f))
  | stencil shape b style outline markers =>
    stencil shape (b.map f) (style.map f) outline (markers.map (Marker.map f))
  | image src b style markers => image src (b.map f) (style.map f) (markers.map (Marker.map f))
  | text value b style => text value (b.map f) (style.map f)
  | group edges style => group (edges.map (Edge.map f)) (style.map f)

def numbers : Primitive α → List α
  | edge e style _ markers => e.numbers ++ style.numbers ++ markers.flatMap Marker.numbers
  | stencil _ b style _ markers | image _ b style markers =>
    b.numbers ++ style.numbers ++ markers.flatMap Marker.numbers
  | text _ b style => b.numbers ++ style.numbers
  | group edges style => edges.flatMap Edge.numbers ++ style.numbers

end Primitive

namespace Parts

def map (f : α → β) (p : Parts α) : Parts β :=
  ⟨p.primitives.map (Primitive.map f), p.markers.map (Marker.map f)⟩

def numbers (p : Parts α) : List α := p.primitives.flatMap Primitive.numbers ++ p.markers.flatMap Marker.numbers

end Parts

theorem Stencil.numbers_subset_of_connection {s : Stencil α} {c : Connection α} (hc : c ∈ s.connections) :
    c.numbers ⊆ s.numbers := fun _ ha =>
  List.mem_cons_of_mem _ (List.mem_cons_of_mem _ (List.mem_append_left _ (List.mem_flatMap.2 ⟨c, hc, ha⟩)))

theorem Stencil.numbers_subset_of_node {s : Stencil α} {n : Node α} (hn : n ∈ s.foreground) :
    n.numbers ⊆ s.numbers := fun _ ha =>
  List.mem_cons_of_mem _ (List.mem_cons_of_mem _ (List.mem_append_right _ (List.mem_flatMap.2 ⟨n, hn, ha⟩)))

/-! ## One map after another -/

section

variable (f : α → β) (g : β → γ)

@[simp] theorem Point.map_map (p : Point α) : (p.map f).map g = p.map (g ∘ f) := rfl

@[simp] theorem Box.map_map (b : Box α) : (b.map f).map g = b.map (g ∘ f) := rfl

@[simp] theorem PathStep.map_map (s : PathStep α) : (s.map f).map g = s.map (g ∘ f) := by
  cases s <;> rfl

@[simp] theorem Node.map_map (n : Node α) : (n.map f).map g = n.map (g ∘ f) := by
  cases n with
  | path p => simp [map, Function.comp_def]
  | _ => rfl

@[simp] theorem EdgeTrace.map_map (t : EdgeTrace α) : (t.map f).map g = t.map (g ∘ f) := by
  simp [map, Function.comp_def]

@[simp] theorem Connection.map_map (c : Connection α) : (c.map f).map g = c.map (g ∘ f) := by
  cases c with
  | edge t => simp [map]
  | _ => rfl

@[simp] theorem Stencil.map_map (s : Stencil α) : (s.map f).map g = s.map (g ∘ f) := by
  simp [map, Function.comp_def]

@[simp] theorem Route.map_map (r : Route α) : (r.map f).map g = r.map (g ∘ f) := by
  simp [map, Function.comp_def]

@[simp] theorem Edge.map_map (e : Edge α) : (e.map f).map g = e.map (g ∘ f) := by
  simp [map]

@[simp] theorem Anchorage.map_map (a : Anchorage α) : (a.map f).map g = a.map (g ∘ f) := by
  cases a with
  | along e => simp [map]
  | _ => rfl

@[simp] theorem Marker.map_map (m : Marker α) : (m.map f).map g = m.map (g ∘ f) := by
  simp [map]

@[simp] theorem Style.map_map (s : Style α) : (s.map f).map g = s.map (g ∘ f) := by
  simp [map]

@[simp] theorem Primitive.map_map (p : Primitive α) : (p.map f).map g = p.map (g ∘ f) := by
  cases p <;> simp [map, Function.comp_def]

@[simp] theorem Parts.map_map (p : Parts α) : (p.map f).map g = p.map (g ∘ f) := by
  simp [map, Function.comp_def]

end

end StencilKit
