import TypedModule.Graph.Annotate
import TypedModule.Graph.Outline
import TypedModule.Graph.Pass
import TypedModule.Json.ReadBack
import TypedModule.Json.Writer
import TypedModule.Main
import TypedModule.Settings.Chain
import TypedModule.Text.Utf8.ReadBack
import TypedModule.Proofs.Graph.Path
import TypedModule.Proofs.Graph.Annotation
import TypedModule.Proofs.Graph.Unfold
import TypedModule.Proofs.Graph.Without
import TypedModule.Proofs.Graph.Planting
import TypedModule.Proofs.Graph.Copying
import TypedModule.Proofs.Graph.Module
import TypedModule.Proofs.Graph.Separation
import TypedModule.Proofs.Graph.Layout
import TypedModule.Proofs.Graph.Reversal
import TypedModule.Proofs.Graph.Atomic
import TypedModule.Proofs.Disk.Writing
import TypedModule.Proofs.Command.Inputs
import TypedModule.Proofs.Command.Outcome
import TypedModule.Proofs.Command.Verbatim
import TypedModule.Proofs.Graph.Building
import TypedModule.Proofs.Graph.LineNodes
import TypedModule.Proofs.Json.Grammar
import TypedModule.Proofs.Json.RoundTrip
import TypedModule.Proofs.Settings.Overrides
import TypedModule.Proofs.Settings.FromData
import TypedModule.Proofs.Settings.Loading
import TypedModule.Proofs.Command.Words
import TypedModule.Proofs.Command.Routes
import TypedModule.Proofs.Text.LineEnds
import TypedModule.Proofs.Graph.TextRows
import TypedModule.Proofs.Graph.Statistics
import TypedModule.Proofs.Name.Acceptance
import TypedModule.Proofs.Name.Pictures
import TypedModule.Proofs.Declarations.Slots
import TypedModule.Proofs.Declarations.ErrorClass
import TypedModule.Proofs.Declarations.Exports
import TypedModule.Proofs.Declarations.Bindings
import TypedModule.Proofs.Graph.Place
import TypedModule.Proofs.Graph.Purging
import TypedModule.Proofs.Text.OneLine
import TypedModule.Proofs.Outline.Rows
import TypedModule.Proofs.Outline.Listing
import TypedModule.Proofs.Grid.Alignment
import TypedModule.Proofs.Outline.Drawing
