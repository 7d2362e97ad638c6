import HangulPane.Console.Basic
import HangulPane.Console.Input
import HangulPane.Console.Sink
import HangulPane.Console.Warnings
import HangulPane.Exploration
import HangulPane.Files
import HangulPane.Instruction
import HangulPane.Listing.Reader
import HangulPane.Listing.Writer
import HangulPane.Machine.Fault
import HangulPane.Machine.Run
import HangulPane.Machine.Step
import HangulPane.Main
import HangulPane.Number.Basic
import HangulPane.Number.Combine
import HangulPane.Number.Unbounded
import HangulPane.Number.Word
import HangulPane.Opcode
import HangulPane.Pane.Basic
import HangulPane.Pane.Cell
import HangulPane.Pane.Emission
import HangulPane.Pane.Trace
import HangulPane.Program.Basic
import HangulPane.Program.Blocks
import HangulPane.Program.Collapse
import HangulPane.Program.Compact
import HangulPane.Program.Depth
import HangulPane.Program.Error
import HangulPane.Program.Fold
import HangulPane.Program.Load
import HangulPane.Program.Optimize
import HangulPane.Program.Reach
import HangulPane.Records
import HangulPane.Session
import HangulPane.Settings.Basic
import HangulPane.Settings.Choices
import HangulPane.Settings.CommandLine
import HangulPane.Settings.Defaults
import HangulPane.Settings.Detect
import HangulPane.Settings.Document
import HangulPane.Space
import HangulPane.Storage
import HangulPane.Table
import HangulPane.Text.Blank
import HangulPane.Text.Capital
import HangulPane.Text.Column
import HangulPane.Text.Decimal
import HangulPane.Text.Utf8
import HangulPane.Proofs.Behaviour
import HangulPane.Proofs.Console.Numeral
import HangulPane.Proofs.Exploration
import HangulPane.Proofs.Listing.RoundTrip
import HangulPane.Proofs.Listing.WellFormed
import HangulPane.Proofs.Machine.Effect
import HangulPane.Proofs.Machine.Ending
import HangulPane.Proofs.Machine.Image
import HangulPane.Proofs.Machine.Observation
import HangulPane.Proofs.Machine.Output
import HangulPane.Proofs.Machine.Refinement
import HangulPane.Proofs.Machine.Window
import HangulPane.Proofs.Pane.Compile
import HangulPane.Proofs.Pane.Safety
import HangulPane.Proofs.Pane.WellFormed
import HangulPane.Proofs.Program.Agreement
import HangulPane.Proofs.Program.Revision
import HangulPane.Proofs.Program.WellFormed
import HangulPane.Proofs.Records.Layout
import HangulPane.Proofs.Records.RoundTrip
import HangulPane.Proofs.Program.Reachability
import HangulPane.Proofs.Program.DeadGuards
import HangulPane.Proofs.Records.Grammar
import HangulPane.Proofs.Records.NormalForm
import HangulPane.Proofs.Program.Comments
import HangulPane.Proofs.Session
import HangulPane.Proofs.Program.Precision
import HangulPane.Proofs.Machine.Retrace
import HangulPane.Proofs.Program.JumpChains
import HangulPane.Proofs.Program.Rearrangement
import HangulPane.Proofs.Program.Renumbering
import HangulPane.Proofs.Program.StorageContext
import HangulPane.Proofs.Machine.DepthTables
import HangulPane.Proofs.Records.Encodable
import HangulPane.Proofs.Program.Termination
import HangulPane.Proofs.Pane.Tracer
import HangulPane.Proofs.Pane.Chronicle
import HangulPane.Proofs.Pane.Layout
import HangulPane.Proofs.Pane.Wraparound
import HangulPane.Proofs.Listing.Resolution
import HangulPane.Proofs.Machine.Failure
import HangulPane.Proofs.Machine.Replay
import HangulPane.Proofs.Console.Delivery
import HangulPane.Proofs.Text.Utf8
import HangulPane.Proofs.Console.Characters
import HangulPane.Proofs.Console.Echo
import HangulPane.Proofs.Console.Scanner
import HangulPane.Proofs.Console.Numbers
import HangulPane.Proofs.Settings.Recognition
import HangulPane.Proofs.Console.Throttle
import HangulPane.Proofs.Machine.Accounting
import HangulPane.Proofs.Number.Exactness
import HangulPane.Proofs.Program.LabelFacts
import HangulPane.Proofs.Program.Overrun
