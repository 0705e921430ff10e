/-
Catalogues of named stencils, and what a shape reference resolves to.
-/
import StencilKit.Stencil.Interpretation
import StencilKit.Stencil.Packing

namespace StencilKit

/-- What references are resolved with: the stencils that have a name, and the packing of tokens. -/
structure Library where
  get? : String → Option (Stencil Float)
  packing : Packing

/-- The stencil that a reference means. The two built-in shapes are stencils of unit size; a token
is unpacked and read. -/
def Library.resolve (library : Library) : ShapeRef → Except (Failure Float) (Stencil Float)
  | .rectangle => .ok (.single (.rect (.ofSize 1 1)))
  | .ellipse => .ok (.single (.ellipse (.ofSize 1 1)))
  | .named name =>
    match library.get? name with
    | some s => .ok s
    | none => .error (.unknownStencil name)
  | .embedded token =>
    match library.packing.unpack token with
    | .ok text => Stencil.ofText text
    | .error fault => .error (.malformedToken fault)

/-- Stencils by name, in the order in which the names were first used. -/
structure Catalogue where
  entries : List (String × Stencil Float)

namespace Catalogue

def empty : Catalogue := ⟨[]⟩

/-- The number of names. -/
def size (c : Catalogue) : Nat := c.entries.length

def isEmpty (c : Catalogue) : Bool := c.entries.isEmpty

def get? (c : Catalogue) (name : String) : Option (Stencil Float) := c.entries.lookup name

/-- Puts a stencil under a name, in the place of one that had the name before. -/
def insert (c : Catalogue) (name : String) (s : Stencil Float) : Catalogue :=
  if (c.get? name).isSome then ⟨c.entries.map fun (n, t) => if n = name then (n, s) else (n, t)⟩
  else ⟨c.entries ++ [(name, s)]⟩

/-- The library of a catalogue, with the usual packing. -/
def library (c : Catalogue) : Library := ⟨c.get?, .base64⟩

end Catalogue

end StencilKit
