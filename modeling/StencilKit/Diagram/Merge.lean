/-
Merging cells of a diagram into one stencil cell, and splitting a stencil cell into what it draws.

Either of them first finds out all that it has to know, which may fail, and then edits the diagram in one
update, which may not.
-/
import StencilKit.Composition
import StencilKit.Decomposition
import StencilKit.Diagram.Editing

namespace StencilKit

/-- What cells are merged and split with. -/
structure Editor where
  library : Library
  hit : HitTest Float
  composing : ComposeOptions Float
  decomposing : DecomposeOptions Float

/-- What a selection is composed with in an editor. -/
def Editor.workshop (editor : Editor) : Workshop Float where
  resolve := editor.library.resolve
  hit := editor.hit
  options := editor.composing

/-- What a selection of cells comes to: primitives in order, the cells of texts, which stay, and the
cells that the merged stencil replaces. -/
structure Selection where
  primitives : List (Primitive Float)
  texts : List Nat
  consumed : List Nat

/-- The numbers that a merge hands out. -/
structure Merged where
  stencil : Nat
  group? : Option Nat
  deriving DecidableEq, Repr

namespace Diagram

/-- The edge primitive in a cell, as a member of a group. -/
def member (d : Diagram Float) (id : Nat) : Except (Failure Float) (Primitive Float) :=
  match d.get? id with
  | none => .error (.unknownCell id)
  | some (.primitive p) => if p.edge?.isSome then .ok p else .error (.unsupportedCell id)
  | some _ => .error (.unsupportedCell id)

/-- The primitive that a cell stands for, and the cells that go away with it besides itself. -/
def selected (d : Diagram Float) (id : Nat) : Except (Failure Float) (Primitive Float × List Nat) :=
  match d.get? id with
  | none => .error (.unknownCell id)
  | some (.primitive p) => .ok (p, [])
  | some (.stencil box style) =>
    match ShapeRef.ofStyle? style with
    | some shape => .ok (.stencil shape box {} false [], [])
    | none => .error (.notAStencil id)
  | some (.group children) => do
    let members ← children.mapM d.member
    match Primitive.ofMembers? members with
    | some group => .ok (group, children)
    | none => .error (.unsupportedCell id)
  | some (.marker _) => .error (.unsupportedCell id)

/-- What the selected cells come to. A text is not consumed; a group's children come before it. -/
def select (d : Diagram Float) : List Nat → Except (Failure Float) Selection
  | [] => .ok ⟨[], [], []⟩
  | id :: ids => do
    let (p, children) ← d.selected id
    let rest ← d.select ids
    if p.isText then return { rest with primitives := p :: rest.primitives, texts := id :: rest.texts }
    return { rest with primitives := p :: rest.primitives, consumed := children ++ id :: rest.consumed }

/-- The shape and the box of a stencil cell. -/
def stencilAt (d : Diagram Float) (id : Nat) : Except (Failure Float) (ShapeRef × Box Float) :=
  match d.get? id with
  | none => .error (.unknownCell id)
  | some (.stencil box style) =>
    match ShapeRef.ofStyle? style with
    | some shape => .ok (shape, box)
    | none => .error (.notAStencil id)
  | some _ => .error (.notAStencil id)

end Diagram

namespace Editing

/-- The update of a merge: the stencil comes in, what it replaces goes, and it is grouped with the texts if
there are any. -/
def replace (s : Selection) (stencil : Cell Float) : Editing Merged := do
  beginUpdate
  let number ← insert stencil
  s.consumed.forM fun id => discard (remove id)
  let group? ← if s.texts.isEmpty then pure none else some <$> group (number :: s.texts)
  endUpdate
  return ⟨number, group?⟩

/-- The update of a split: the parts of a stencil come in, and its cell goes. -/
def exchange (id : Nat) (parts : Parts Float) : Editing (List Nat) := do
  beginUpdate
  let primitives ← parts.primitives.mapM fun p => insert (.primitive p)
  let markers ← parts.markers.mapM fun m => insert (.marker m)
  discard (remove id)
  endUpdate
  return primitives ++ markers

end Editing

namespace Editor

open Editing

/-- Merges the selected cells into one stencil cell. -/
def merge (editor : Editor) (ids : List Nat) (background : Background) (arrangement : Arrangement) :
    Editing Merged := do
  let s ← look (·.select ids)
  let composition ← work (editor.workshop.compose s.primitives background arrangement)
  let style ← work (composition.style editor.library.packing)
  replace s (.stencil composition.bounds style)

/-- Splits a stencil cell into the primitives and markers that it is composed of; with the numbers of
the new cells. -/
def split (editor : Editor) (id : Nat) : Editing (List Nat) := do
  let (shape, box) ← look (·.stencilAt id)
  let parts ← work (editor.library.decompose shape editor.decomposing box)
  exchange id parts

end Editor

end StencilKit
