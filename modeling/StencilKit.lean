import StencilKit.Diagram.Command
import StencilKit.Plane.Label
import StencilKit.Proofs.Diagram.Splitting
import StencilKit.Proofs.Diagram.Groups
import StencilKit.Proofs.Decomposition.Outlines
import StencilKit.Proofs.Decomposition.Markers
import StencilKit.Proofs.Decomposition.Foreground
import StencilKit.Proofs.Decomposition.Strokes
import StencilKit.Proofs.Decomposition.Smooth
import StencilKit.Proofs.Decomposition.Edges
import StencilKit.Proofs.Binary64.Unit
import StencilKit.Proofs.Decomposition.Redrawing
import StencilKit.Proofs.Coordinates.Exact
import StencilKit.Proofs.Decomposition.Placing
import StencilKit.Proofs.Chain.Simple
import StencilKit.Proofs.Chain.Choices
import StencilKit.Proofs.Stencil.Rereading
import StencilKit.Proofs.Diagram.Readback
import StencilKit.Proofs.Decomposition.Segments
import StencilKit.Proofs.Decomposition.Joints
import StencilKit.Proofs.Decomposition.Flags
import StencilKit.Proofs.Composition.Blocks
import StencilKit.Proofs.Composition.Anchors
import StencilKit.Proofs.Coordinates.Enclosure
import StencilKit.Proofs.Coordinates.Stepping
import StencilKit.Proofs.Coordinates.Samples
import StencilKit.Proofs.Composition.Fit
import StencilKit.Proofs.Coordinates.Translation
import StencilKit.Proofs.Chain.Translation
import StencilKit.Proofs.Composition.Translation
import StencilKit.Proofs.Stencil.Misreading
import StencilKit.Proofs.Stencil.Acceptance
import StencilKit.Proofs.Stencil.Pruning
import StencilKit.Proofs.Decomposition.Subpaths
import StencilKit.Proofs.Composition.Bounds
import StencilKit.Proofs.Diagram.Exchange
import StencilKit.Proofs.Coordinates.Hull
import StencilKit.Proofs.Composition.SinglePath
import StencilKit.Proofs.Composition.Composable
import StencilKit.Proofs.Composition.Bundling
import StencilKit.Proofs.Coordinates.Division
import StencilKit.Proofs.Attachment.Lines
import StencilKit.Proofs.Attachment.Curves
import StencilKit.Proofs.Region.Rearrangement
import StencilKit.Proofs.Region.Corners
import StencilKit.Proofs.Attachment.Scanning
import StencilKit.Proofs.Chain.Reversal
import StencilKit.Proofs.Stencil.Spellings
import StencilKit.Proofs.Text.Places
import StencilKit.Proofs.Region.Nearest
import StencilKit.Proofs.Drawing.Entries
import StencilKit.Proofs.Diagram.Editing
