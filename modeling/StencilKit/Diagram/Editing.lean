/-
Programs that edit a diagram.

A program goes from step to step. A step may fail, and then the program ends there; what was done before is not
taken back, and the diagram that a program leaves is the one that its last step left, whether it failed or not.
-/
import StencilKit.Diagram.Basic
import StencilKit.Failure

namespace StencilKit

/-- A program that edits a diagram; it comes to a result or to a failure, and to a diagram in either case. -/
abbrev Editing (β : Type) := EStateM (Failure Float) (Diagram Float) β

namespace Editing

variable {β : Type}

/-- What is found out about the diagram. -/
def look (f : Diagram Float → Except (Failure Float) β) : Editing β := fun d =>
  match f d with
  | .ok b => .ok b d
  | .error failure => .error failure d

/-- What is worked out without the diagram. -/
def work (result : Except (Failure Float) β) : Editing β := look fun _ => result

def beginUpdate : Editing Unit := fun d => .ok () d.beginUpdate

def endUpdate : Editing Unit := fun d => .ok () d.endUpdate

/-- Puts a cell in, and tells its number. -/
def insert (cell : Cell Float) : Editing Nat := fun d => .ok d.nextId (d.insert cell)

/-- Puts a group of cells in, and tells its number. -/
def group (children : List Nat) : Editing Nat := insert (.group children)

/-- Takes a cell out, and gives it back if it was there. -/
def remove (id : Nat) : Editing (Option (Cell Float)) := fun d => .ok (d.get? id) (d.remove id)

end Editing

end StencilKit
