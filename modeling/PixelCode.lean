import PixelCode.Main
import PixelCode.Proofs.Machine.Move
import PixelCode.Proofs.Machine.Form
import PixelCode.Proofs.Machine.Path
import PixelCode.Proofs.Machine.Alignment
import PixelCode.Proofs.Machine.Termination
import PixelCode.Proofs.Program.Sweep
import PixelCode.Proofs.Assembly.Line
import PixelCode.Proofs.Assembly.RoundTrip
import PixelCode.Proofs.Machine.Dispatch
import PixelCode.Proofs.Structured.Semantics
import PixelCode.Proofs.Structured.Exit
import PixelCode.Proofs.Structured.Simulation
import PixelCode.Proofs.Structured.Adequacy
import PixelCode.Proofs.Program.Embedding
import PixelCode.Proofs.Machine.Relocation
import PixelCode.Proofs.Machine.Ending
import PixelCode.Proofs.Machine.Transfer
import PixelCode.Proofs.Machine.Insertion
import PixelCode.Proofs.Image.Hiding
import PixelCode.Proofs.Machine.Extension
import PixelCode.Proofs.Machine.Refusal
import PixelCode.Proofs.Machine.Failure
import PixelCode.Proofs.Machine.Conclusion
import PixelCode.Proofs.Machine.Reports
import PixelCode.Proofs.Machine.Chronicle
import PixelCode.Proofs.Machine.Frames
import PixelCode.Proofs.Assembly.Grammar
import PixelCode.Proofs.Machine.Whole
import PixelCode.Proofs.Assembly.Correspondence
import PixelCode.Proofs.Machine.Provenance
import PixelCode.Proofs.Machine.Spending
import PixelCode.Proofs.Files.Places
import PixelCode.Proofs.Command.Effect
import PixelCode.Proofs.Command.Product
import PixelCode.Proofs.Files.Naming
import PixelCode.Proofs.Command.Recovery
import PixelCode.Proofs.Png.Lossless
import PixelCode.Proofs.Machine.Position
import PixelCode.Proofs.Assembly.Comment
import PixelCode.Proofs.Command.ErrorStream
import PixelCode.Proofs.Command.Logging
import PixelCode.Proofs.Machine.Delivery
import PixelCode.Proofs.Command.Exits
import PixelCode.Proofs.Machine.Routing
import PixelCode.Proofs.Machine.Containment
import PixelCode.Proofs.Text.Feeds
import PixelCode.Proofs.Assembly.Composition
import PixelCode.Proofs.Program.Listing
import PixelCode.Proofs.Image.Lens
import PixelCode.Proofs.Program.Tokens
import PixelCode.Proofs.Number.Layout
import PixelCode.Proofs.Number.Value
import PixelCode.Proofs.Number.Exact
import PixelCode.Proofs.Number.Character
import PixelCode.Proofs.Number.Shortest
import PixelCode.Proofs.Number.Numeral
import PixelCode.Proofs.Number.Faithful
import PixelCode.Proofs.Program.Nesting
import PixelCode.Proofs.Program.Clauses
import PixelCode.Proofs.Command.Pairing
import PixelCode.Proofs.Command.Frame
import PixelCode.Proofs.Machine.Wording
