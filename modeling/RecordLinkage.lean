import RecordLinkage.Binary64.Basic
import RecordLinkage.Binary64.Decimal
import RecordLinkage.Block.Pairs
import RecordLinkage.Block.Plan
import RecordLinkage.Block.Run
import RecordLinkage.Block.Task
import RecordLinkage.Document.Basic
import RecordLinkage.Document.Types
import RecordLinkage.Drain
import RecordLinkage.Entity
import RecordLinkage.Error
import RecordLinkage.Fault
import RecordLinkage.Graph.Basic
import RecordLinkage.Graph.Cluster
import RecordLinkage.Graph.Edge
import RecordLinkage.Graph.EdgeIndex
import RecordLinkage.Key
import RecordLinkage.Linkage
import RecordLinkage.Outcome
import RecordLinkage.Pool
import RecordLinkage.Program
import RecordLinkage.Progress.Counter
import RecordLinkage.Progress.Scripted
import RecordLinkage.Progress.Wait
import RecordLinkage.Proofs.Amid.Facts
import RecordLinkage.Proofs.Amid.Rules
import RecordLinkage.Proofs.Amid.Step
import RecordLinkage.Proofs.Amid.Turns
import RecordLinkage.Proofs.Block.Dispatched
import RecordLinkage.Proofs.Block.Pairs
import RecordLinkage.Proofs.Block.Recorded
import RecordLinkage.Proofs.Block.Scored
import RecordLinkage.Proofs.Crew.Basic
import RecordLinkage.Proofs.Crew.Entities
import RecordLinkage.Proofs.Crew.Ledger
import RecordLinkage.Proofs.Crew.Licences
import RecordLinkage.Proofs.Crew.Separate
import RecordLinkage.Proofs.Crew.Sweep
import RecordLinkage.Proofs.Document.DataModel
import RecordLinkage.Proofs.Document.Format
import RecordLinkage.Proofs.Document.Reading
import RecordLinkage.Proofs.Document.RoundTrip
import RecordLinkage.Proofs.Drain.Anchored
import RecordLinkage.Proofs.Drain.Contraction
import RecordLinkage.Proofs.Drain.Heights
import RecordLinkage.Proofs.Drain.Mirror
import RecordLinkage.Proofs.Drain.Overflow
import RecordLinkage.Proofs.Drain.Progress
import RecordLinkage.Proofs.Drain.Quotient
import RecordLinkage.Proofs.Drain.Reach
import RecordLinkage.Proofs.Drain.Run
import RecordLinkage.Proofs.Drain.Step
import RecordLinkage.Proofs.Drain.Thresholds
import RecordLinkage.Proofs.Drain.Ties
import RecordLinkage.Proofs.Drain.Total
import RecordLinkage.Proofs.Graph.Anchored
import RecordLinkage.Proofs.Graph.Coherent
import RecordLinkage.Proofs.Graph.Commute
import RecordLinkage.Proofs.Graph.Complete
import RecordLinkage.Proofs.Graph.Contraction
import RecordLinkage.Proofs.Graph.Distance
import RecordLinkage.Proofs.Graph.Edits
import RecordLinkage.Proofs.Graph.Linked
import RecordLinkage.Proofs.Graph.Links
import RecordLinkage.Proofs.Graph.Mirror
import RecordLinkage.Proofs.Graph.Partition
import RecordLinkage.Proofs.Graph.Quotient
import RecordLinkage.Proofs.Graph.Sound
import RecordLinkage.Proofs.Pipeline.Integrity
import RecordLinkage.Proofs.Pipeline.Linkage
import RecordLinkage.Proofs.Pipeline.Operation
import RecordLinkage.Proofs.Pipeline.Partition
import RecordLinkage.Proofs.Program.Exchanges
import RecordLinkage.Proofs.Program.Kinds
import RecordLinkage.Proofs.Program.Rules
import RecordLinkage.Proofs.Program.Run
import RecordLinkage.Proofs.Program.Stays
import RecordLinkage.Proofs.Recording.Basic
import RecordLinkage.Proofs.Recording.Counted
import RecordLinkage.Proofs.Recording.Inline
import RecordLinkage.Proofs.Recording.Ledger
import RecordLinkage.Proofs.Recording.Progress
import RecordLinkage.Proofs.Recording.Repeated
import RecordLinkage.Proofs.Recording.Script
import RecordLinkage.Proofs.Scoring.Failed
import RecordLinkage.Proofs.Scoring.Figures
import RecordLinkage.Proofs.Scoring.MinWeight
import RecordLinkage.Proofs.Scoring.Outcomes
import RecordLinkage.Proofs.Scoring.Overlaps
import RecordLinkage.Proofs.Scoring.Trackers
import RecordLinkage.Proofs.Sorted.Domain
import RecordLinkage.Proofs.Sorted.Ext
import RecordLinkage.Proofs.Sorted.Find
import RecordLinkage.Proofs.Sorted.Map
import RecordLinkage.Proofs.Sorted.Values
import RecordLinkage.Proofs.Store.Commute
import RecordLinkage.Proofs.Store.Entries
import RecordLinkage.Proofs.Store.Lifetime
import RecordLinkage.Proofs.Store.Names
import RecordLinkage.Proofs.Store.Parts
import RecordLinkage.Proofs.Store.Plain
import RecordLinkage.Proofs.Store.Refinement
import RecordLinkage.Proofs.Store.Request
import RecordLinkage.Proofs.Store.Vertices
import RecordLinkage.Proofs.Sweep.Exact
import RecordLinkage.Proofs.Ties.Calm
import RecordLinkage.Proofs.Ties.View
import RecordLinkage.Proofs.Ties.Web
import RecordLinkage.Proofs.Uuid.Drawn
import RecordLinkage.Proofs.Uuid.Text
import RecordLinkage.Proofs.Uuid.Version
import RecordLinkage.Proofs.Wait.Cancelled
import RecordLinkage.Proofs.Wait.Countdown
import RecordLinkage.Proofs.Wait.Looks
import RecordLinkage.Proofs.Wait.Stalls
import RecordLinkage.Proofs.Weight.Binary64
import RecordLinkage.Proofs.Weight.Detour
import RecordLinkage.Proofs.Weight.Exact
import RecordLinkage.Proofs.Weight.Laws
import RecordLinkage.Proofs.Weight.Linkage
import RecordLinkage.Proofs.Weight.Minimum
import RecordLinkage.Proofs.Weight.Overflow
import RecordLinkage.Proofs.Weight.Ranks
import RecordLinkage.Proofs.Weight.Rounding
import RecordLinkage.Scoring.Features
import RecordLinkage.Scoring.Figures
import RecordLinkage.Scoring.MinWeight
import RecordLinkage.Scoring.Oracle
import RecordLinkage.Scoring.Pair
import RecordLinkage.Service
import RecordLinkage.Session.Basic
import RecordLinkage.Session.Blocks
import RecordLinkage.Session.Orders
import RecordLinkage.Settings.Basic
import RecordLinkage.Settings.Override
import RecordLinkage.Settings.Sources
import RecordLinkage.Settings.Value
import RecordLinkage.Settings.Wrapped
import RecordLinkage.Sha1
import RecordLinkage.Sorted.Key
import RecordLinkage.Sorted.List
import RecordLinkage.Sorted.Map
import RecordLinkage.Store
import RecordLinkage.Sweep
import RecordLinkage.Text.Hex
import RecordLinkage.Text.Hidden
import RecordLinkage.Text.Quoted
import RecordLinkage.Text.Reader
import RecordLinkage.Toml.Document
import RecordLinkage.Toml.Number
import RecordLinkage.Toml.Table
import RecordLinkage.Toml.Text
import RecordLinkage.Uuid.Basic
import RecordLinkage.Uuid.Source
import RecordLinkage.Uuid.Text
import RecordLinkage.Weight
