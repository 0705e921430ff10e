/-
Why something cannot be done, as causes with what a message needs to name them.
-/
import StencilKit.Decimal.Shortest
import StencilKit.Plane.Point
import StencilKit.Scalar.Check
import StencilKit.Stencil.Token
import StencilKit.Text.Quoted

namespace StencilKit

/-- A cause of failure. -/
inductive Failure (α : Type) where
  | emptySelection
  | degenerateBounds (w h : α)
  /-- The primitive at this position is not an edge where only edges can be joined. -/
  | notAnEdge (index : Nat)
  /-- After `stitched` edges, none of the `remaining` ones begins or ends where the path ends. -/
  | disconnected (stitched remaining : Nat) (stop : Point α)
  /-- A text is not XML; the fault lies at a byte of the text. -/
  | malformedText (message : String) (offset : Nat)
  | missingAttribute (tag name : String)
  | invalidAttribute (tag name value : String) (flaw? : Option NumberFlaw)
  | unexpectedRoot (found : String)
  /-- A stencil has no text. -/
  | unwritable (reason : String)
  | unknownStencil (name : String)
  | malformedToken (fault : Token.Fault)
  | unknownCell (id : Nat)
  | unsupportedCell (id : Nat)
  | notAStencil (id : Nat)
  deriving DecidableEq

/-- Where the fault lies: with what was asked for, with a name or token that leads nowhere, or with
data that is not well formed. -/
inductive FailureKind where
  | precondition
  | resolution
  | malformed
  deriving DecidableEq, Repr

namespace Failure

variable {α : Type}

def kind : Failure α → FailureKind
  | emptySelection | degenerateBounds _ _ | notAnEdge _ | unsupportedCell _ => .precondition
  | unknownStencil _ | malformedToken _ | unknownCell _ | notAStencil _ => .resolution
  | disconnected _ _ _ | malformedText _ _ | missingAttribute _ _ | invalidAttribute _ _ _ _
  | unexpectedRoot _ | unwritable _ => .malformed

/-- A short code for programs. -/
def code : Failure α → String
  | emptySelection => "precondition::empty_selection"
  | degenerateBounds _ _ => "precondition::degenerate_bounds"
  | notAnEdge _ => "precondition::not_an_edge"
  | disconnected _ _ _ => "malformed::disconnected_edges"
  | malformedText _ _ => "parse::syntax"
  | missingAttribute _ _ => "malformed::missing_attribute"
  | invalidAttribute _ _ _ _ => "malformed::invalid_attribute"
  | unexpectedRoot _ => "malformed::unexpected_root"
  | unwritable _ => "malformed::serialize"
  | unknownStencil _ => "resolution::unknown_stencil"
  | malformedToken _ => "resolution::decompress"
  | unknownCell _ => "resolution::unknown_cell"
  | unsupportedCell _ => "precondition::unsupported_cell"
  | notAStencil _ => "resolution::not_a_stencil"

/-- What to do about it, where there is something to say. -/
def help? : Failure α → Option String
  | emptySelection => some "select at least one non-text primitive before merging"
  | degenerateBounds _ _ => some "a stencil needs a non-zero width and height to normalize against"
  | disconnected _ _ _ => some "every edge must share an endpoint with the path built so far"
  | unsupportedCell _ => some "only primitives and stencil elements can be merged"
  | _ => none

/-- The wording of a failure. -/
def message : Failure Float → String
  | emptySelection => "selection is empty"
  | degenerateBounds w h =>
    let w := Decimal.text w
    let h := Decimal.text h
    s!"selection bounds are degenerate: {w}x{h}"
  | notAnEdge index => s!"primitive {index} is not an edge and cannot join a single path"
  | disconnected _ remaining stop =>
    let x := Decimal.text stop.x
    let y := Decimal.text stop.y
    s!"{remaining} edge(s) do not connect to the path ending at ({x}, {y})"
  | malformedText message _ => s!"invalid stencil text: {message}"
  | missingAttribute tag name => s!"<{tag}> is missing attribute `{name}`"
  | invalidAttribute tag name value _ =>
    let shown := Quoted.quote value
    s!"<{tag}> has invalid `{name}` value {shown}"
  | unexpectedRoot found => s!"expected <shape> root, found <{found}>"
  | unwritable reason => s!"stencil cannot be written as XML: {reason}"
  | unknownStencil name =>
    let shown := Quoted.quote name
    s!"no stencil registered under {shown}"
  | malformedToken fault =>
    let reason := fault.message
    s!"stencil token cannot be decompressed: {reason}"
  | unknownCell id => s!"no element with id {id}"
  | unsupportedCell id => s!"element {id} cannot be merged into a stencil"
  | notAStencil id => s!"element {id} does not carry a stencil"

end Failure

end StencilKit
