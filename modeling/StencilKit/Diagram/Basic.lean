/-
Diagrams: numbered cells, and a history of what was inserted and removed.

Changes are recorded in batches. Between an outermost `beginUpdate` and its `endUpdate` they are
pending, and the end commits them as one batch; outside they are batches of their own. Numbers are
handed out in ascending order and never twice.
-/
import StencilKit.Drawing.Primitive

namespace StencilKit

/-- An element of a diagram. -/
inductive Cell (α : Type) where
  | primitive (primitive : Primitive α)
  /-- A marker on its own, in the drawing plane. -/
  | marker (marker : Marker α)
  /-- A box drawn by the stencil that its style names. -/
  | stencil (box : Box α) (style : String)
  | group (children : List Nat)
  deriving BEq, DecidableEq

/-- A recorded change. -/
inductive Change where
  | inserted (id : Nat)
  | removed (id : Nat)
  deriving DecidableEq, Repr

/-- The cells with their numbers, ascending, and what is recorded of them. -/
structure Diagram (α : Type) where
  cells : List (Nat × Cell α) := []
  nextId : Nat := 0
  /-- How many updates are open, one inside the other. -/
  level : Nat := 0
  pending : List Change := []
  /-- The committed batches, the oldest first. -/
  history : List (List Change) := []
  deriving BEq, DecidableEq

namespace Diagram

variable {α : Type}

def empty : Diagram α := {}

def get? (d : Diagram α) (id : Nat) : Option (Cell α) := d.cells.lookup id

/-- The numbers of the cells, ascending. -/
def ids (d : Diagram α) : List Nat := d.cells.map (·.1)

def isUpdating (d : Diagram α) : Bool := decide (0 < d.level)

/-- The diagram with one more change recorded. -/
def record (d : Diagram α) (c : Change) : Diagram α :=
  if d.isUpdating then { d with pending := d.pending ++ [c] }
  else { d with history := d.history ++ [[c]] }

def beginUpdate (d : Diagram α) : Diagram α := { d with level := d.level + 1 }

/-- Closes the innermost update; there may be none. -/
def endUpdate (d : Diagram α) : Diagram α :=
  match d.level with
  | 0 => d
  | 1 =>
    if d.pending.isEmpty then { d with level := 0 }
    else { d with level := 0, pending := [], history := d.history ++ [d.pending] }
  | level + 1 => { d with level }

/-- The diagram with one more cell, whose number is the next one. -/
def insert (d : Diagram α) (cell : Cell α) : Diagram α :=
  { d with cells := d.cells ++ [(d.nextId, cell)], nextId := d.nextId + 1 }.record (.inserted d.nextId)

/-- The diagram without a cell, which may not be there. -/
def remove (d : Diagram α) (id : Nat) : Diagram α :=
  if (d.get? id).isSome then
    { d with cells := d.cells.filter (·.1 != id) }.record (.removed id)
  else d

end Diagram

/-- A single step in the making of a diagram. -/
inductive Edit (α : Type) where
  | insert (cell : Cell α)
  | remove (id : Nat)
  | beginUpdate
  | endUpdate
  deriving BEq, DecidableEq

namespace Diagram

variable {α : Type}

/-- The diagram after an edit. -/
def apply (d : Diagram α) : Edit α → Diagram α
  | .insert cell => d.insert cell
  | .remove id => d.remove id
  | .beginUpdate => d.beginUpdate
  | .endUpdate => d.endUpdate

/-- The diagram that a list of edits makes out of nothing. -/
def ofEdits (edits : List (Edit α)) : Diagram α := edits.foldl apply empty

end Diagram

end StencilKit
