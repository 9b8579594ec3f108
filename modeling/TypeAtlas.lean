import TypeAtlas.Object.Flags
import TypeAtlas.Main
import TypeAtlas.Proofs.Order.Consistent
import TypeAtlas.Proofs.Resolution.References
import TypeAtlas.Proofs.Resolution.SeenTo
import TypeAtlas.Proofs.Resolution.Declares
import TypeAtlas.Proofs.Resolution.Work
import TypeAtlas.Proofs.Resolution.InTurn
import TypeAtlas.Proofs.Order.Cycles
import TypeAtlas.Proofs.Order.Repeated
import TypeAtlas.Proofs.Graph.Reordered
import TypeAtlas.Proofs.Run.Package
import TypeAtlas.Proofs.Run.Runs
import TypeAtlas.Proofs.Run.Effects
import TypeAtlas.Proofs.Run.Once
import TypeAtlas.Proofs.Run.Ordered
import TypeAtlas.Proofs.Run.Closed
import TypeAtlas.Proofs.Run.Dependencies
import TypeAtlas.Proofs.Layout.Covers
import TypeAtlas.Proofs.Layout.Collect
import TypeAtlas.Proofs.Layout.Tiles
import TypeAtlas.Proofs.Layout.Fillers
import TypeAtlas.Proofs.Memory.Ordered
import TypeAtlas.Proofs.Memory.Growth
import TypeAtlas.Proofs.Memory.Gaps
import TypeAtlas.Proofs.Memory.Calls
import TypeAtlas.Proofs.Memory.Reads
import TypeAtlas.Proofs.Memory.Overlay
import TypeAtlas.Proofs.Memory.Captured
import TypeAtlas.Proofs.Memory.Blocks
import TypeAtlas.Proofs.Resolution.Virtuals
import TypeAtlas.Proofs.Run.Virtuals
import TypeAtlas.Proofs.Resolution.Adds
import TypeAtlas.Proofs.Resolution.Ends
import TypeAtlas.Proofs.Run.Recorded
import TypeAtlas.Proofs.Run.Reordered
import TypeAtlas.Proofs.Run.Named
import TypeAtlas.Proofs.Json.Snapshot
import TypeAtlas.Proofs.Json.Policy
import TypeAtlas.Proofs.Graph.Numbered
import TypeAtlas.Proofs.Pattern.Search
import TypeAtlas.Proofs.Pattern.Tokens
import TypeAtlas.Proofs.Memory.Words
import TypeAtlas.Proofs.Text.Replaced
import TypeAtlas.Proofs.VirtualTable.Entries
import TypeAtlas.Proofs.VirtualTable.Slots
import TypeAtlas.Proofs.Layout.Compared
import TypeAtlas.Proofs.Method.Frame
import TypeAtlas.Proofs.Method.Block
import TypeAtlas.Proofs.Layout.Overflows
import TypeAtlas.Proofs.Layout.Bits
import TypeAtlas.Proofs.Memory.Completes
import TypeAtlas.Proofs.Graph.Derives
import TypeAtlas.Proofs.Graph.Identifiers
import TypeAtlas.Proofs.Bundle.Written
import TypeAtlas.Proofs.Resolution.Returns
import TypeAtlas.Proofs.Layout.Preordered
import TypeAtlas.Proofs.Run.Picked
import TypeAtlas.Proofs.Order.Placed
