import Conditioning.Main
import Conditioning.Proofs.Phase.Reachable
import Conditioning.Proofs.Except
import Conditioning.Proofs.Vocabulary
import Conditioning.Proofs.Phase.Compiled
import Conditioning.Proofs.Phase.Succession
import Conditioning.Proofs.Calls
import Conditioning.Proofs.Cells
import Conditioning.Proofs.World.Reachable
import Conditioning.Proofs.Phase.Ending
import Conditioning.Proofs.World.Order
import Conditioning.Proofs.Record.Series
import Conditioning.Proofs.Record.Writes
import Conditioning.Proofs.Run.Replay
import Conditioning.Proofs.Run.Faithful
import Conditioning.Proofs.Run.Reachable
import Conditioning.Proofs.Run.Subjects
import Conditioning.Proofs.Run.Sequence
import Conditioning.Proofs.Run.Prolonged
import Conditioning.Proofs.Phase.Counting
import Conditioning.Proofs.Phase.AfterEnd
import Conditioning.Proofs.World.Counting
import Conditioning.Proofs.Mechanism.Responses
import Conditioning.Proofs.Run.History
import Conditioning.Proofs.Run.Steps
import Conditioning.Proofs.Query.Policy
import Conditioning.Proofs.Double.Packing
import Conditioning.Proofs.Double.Order
import Conditioning.Proofs.Double.Rounding
import Conditioning.Proofs.Double.Parts
import Conditioning.Proofs.Double.Shortest
import Conditioning.Proofs.Random.Unit
import Conditioning.Proofs.Double.Scientific
import Conditioning.Proofs.Phase.WellFormed
import Conditioning.Proofs.Phase.Open
import Conditioning.Proofs.Script.Blocks
import Conditioning.Proofs.Script.Assembly
import Conditioning.Proofs.Script.Prefix
import Conditioning.Proofs.Literal.Reading
import Conditioning.Proofs.Literal.Grammar
import Conditioning.Proofs.Literal.Sequence
import Conditioning.Proofs.Literal.Spelling
import Conditioning.Proofs.Literal.Doubles
import Conditioning.Proofs.Literal.RoundTrip
import Conditioning.Proofs.Text.Parts
import Conditioning.Proofs.Phase.Spelling
import Conditioning.Proofs.Phase.Names
import Conditioning.Proofs.Phase.Numbers
import Conditioning.Proofs.Phase.Conditions
import Conditioning.Proofs.Phase.Lines
import Conditioning.Proofs.Phase.Written
import Conditioning.Proofs.Mechanism.WellFormed
import Conditioning.Proofs.World.WellFormed
import Conditioning.Proofs.Checked.Access
import Conditioning.Proofs.Checked.Mechanism
import Conditioning.Proofs.Checked.Phase
import Conditioning.Proofs.Checked.Record
import Conditioning.Proofs.Checked.Run
import Conditioning.Proofs.Script.InRange
import Conditioning.Proofs.Script.Lines
import Conditioning.Proofs.Script.Gather
import Conditioning.Proofs.Script.Declared
import Conditioning.Proofs.Phase.Machine
import Conditioning.Proofs.Stages.Settings
import Conditioning.Proofs.Stages.Query
import Conditioning.Proofs.Stages.Script
import Conditioning.Proofs.Script.Numbered
import Conditioning.Proofs.Report.Grammar
import Conditioning.Proofs.Report.Numbers
import Conditioning.Proofs.Report.Written
import Conditioning.Proofs.Report.Complete
import Conditioning.Proofs.Query.Occurrences
import Conditioning.Proofs.Query.Selection
import Conditioning.Proofs.Query.Resolved
import Conditioning.Proofs.Checked.Query
import Conditioning.Proofs.Query.InRange
import Conditioning.Proofs.Query.Partition
import Conditioning.Proofs.Query.Agreement
import Conditioning.Proofs.Query.Labels
import Conditioning.Proofs.Run.Aligned
import Conditioning.Proofs.Mechanism.Update
import Conditioning.Proofs.Query.Matches
import Conditioning.Proofs.Query.Pinned
import Conditioning.Proofs.Query.Subjects
import Conditioning.Proofs.Script.Costs
import Conditioning.Proofs.Scalar.Exact
import Conditioning.Proofs.Mechanism.Presentations
import Conditioning.Proofs.Mechanism.Probabilities
import Conditioning.Proofs.Literal.Keys
import Conditioning.Proofs.Literal.Sameness
import Conditioning.Proofs.Literal.Merge
import Conditioning.Proofs.Literal.Bytes
import Conditioning.Proofs.Checked.Reader
import Conditioning.Proofs.Literal.InPlace
import Conditioning.Proofs.Mechanism.Tables
import Conditioning.Proofs.Mechanism.Names
import Conditioning.Proofs.Mechanism.Expansion
import Conditioning.Proofs.Mechanism.Requirements
import Conditioning.Proofs.Phase.Log
import Conditioning.Proofs.Random.Weighted
import Conditioning.Proofs.Random.Streams
import Conditioning.Proofs.Phase.Gap
import Conditioning.Proofs.Phase.Draft
import Conditioning.Proofs.Phase.References
import Conditioning.Proofs.Command.Arguments
import Conditioning.Proofs.Script.Subplots
import Conditioning.Proofs.Record.Notes
