/-
What can be asked of a diagram in an editor, and what comes back.

A command may fail, and the reply then says why. The diagram after a command is the one that it left, whether
it failed or not.
-/
import StencilKit.Diagram.Merge

namespace StencilKit

/-- Something asked of a diagram. -/
inductive Command where
  | edit (edit : Edit Float)
  | look (id : Nat)
  | merge (ids : List Nat) (background : Background) (arrangement : Arrangement)
  | split (id : Nat)

/-- What comes back. -/
inductive Reply where
  | done
  /-- The number of a cell that was inserted. -/
  | inserted (id : Nat)
  /-- A cell that was looked at or removed, if it was there. -/
  | cell (cell? : Option (Cell Float))
  | merged (numbers : Merged)
  /-- The numbers of the cells that a stencil was split into. -/
  | split (ids : List Nat)
  | failed (failure : Failure Float)

namespace Diagram

/-- The reply to an edit. -/
def replyTo (d : Diagram Float) : Edit Float → Reply
  | .insert _ => .inserted d.nextId
  | .remove id => .cell (d.get? id)
  | .beginUpdate | .endUpdate => .done

end Diagram

/-- The diagram that a program leaves, and its reply. -/
def Editing.perform (program : Editing Reply) (d : Diagram Float) : Diagram Float × Reply :=
  match program.run d with
  | .ok reply d' => (d', reply)
  | .error failure d' => (d', .failed failure)

/-- The diagram after a command, and the reply. -/
def Diagram.run (d : Diagram Float) (editor : Editor) : Command → Diagram Float × Reply
  | .edit e => (d.apply e, d.replyTo e)
  | .look id => (d, .cell (d.get? id))
  | .merge ids background arrangement =>
    Editing.perform (Reply.merged <$> editor.merge ids background arrangement) d
  | .split id => Editing.perform (Reply.split <$> editor.split id) d

end StencilKit
