import BlockFlow.Act
import BlockFlow.Archive
import BlockFlow.Canvas
import BlockFlow.Fault
import BlockFlow.Flow.Basic
import BlockFlow.Flow.Cycle
import BlockFlow.Flow.Document
import BlockFlow.Flow.Edit
import BlockFlow.Flow.Validate
import BlockFlow.Journal
import BlockFlow.Json.Reader
import BlockFlow.Json.Source
import BlockFlow.Json.Writer
import BlockFlow.Main
import BlockFlow.Measure
import BlockFlow.Number.Binary64
import BlockFlow.Number.Decimal
import BlockFlow.Number.Extended
import BlockFlow.Number.Layout
import BlockFlow.Number.Read
import BlockFlow.Palette
import BlockFlow.Proofs.Acyclic
import BlockFlow.Proofs.Admission
import BlockFlow.Proofs.Amending
import BlockFlow.Proofs.Answers
import BlockFlow.Proofs.Caches
import BlockFlow.Proofs.Calendar
import BlockFlow.Proofs.Chains
import BlockFlow.Proofs.Comments
import BlockFlow.Proofs.Coverage
import BlockFlow.Proofs.Documents
import BlockFlow.Proofs.Editing
import BlockFlow.Proofs.Effects
import BlockFlow.Proofs.Emission
import BlockFlow.Proofs.Exploration
import BlockFlow.Proofs.Failures
import BlockFlow.Proofs.FlowMap
import BlockFlow.Proofs.Following
import BlockFlow.Proofs.Forest
import BlockFlow.Proofs.Identifier
import BlockFlow.Proofs.Joining
import BlockFlow.Proofs.Limits
import BlockFlow.Proofs.Lines
import BlockFlow.Proofs.Listing
import BlockFlow.Proofs.Literals
import BlockFlow.Proofs.Made
import BlockFlow.Proofs.Making
import BlockFlow.Proofs.Nesting
import BlockFlow.Proofs.Numerals
import BlockFlow.Proofs.Ordering
import BlockFlow.Proofs.Preorder
import BlockFlow.Proofs.Reached
import BlockFlow.Proofs.Reading
import BlockFlow.Proofs.Recency
import BlockFlow.Proofs.Recursion
import BlockFlow.Proofs.Regeneration
import BlockFlow.Proofs.Removal
import BlockFlow.Proofs.Renaming
import BlockFlow.Proofs.Repetition
import BlockFlow.Proofs.Rereading
import BlockFlow.Proofs.RoundTrip
import BlockFlow.Proofs.Rounding
import BlockFlow.Proofs.Saving
import BlockFlow.Proofs.Search
import BlockFlow.Proofs.Served
import BlockFlow.Proofs.Settings
import BlockFlow.Proofs.Settling
import BlockFlow.Proofs.Sound
import BlockFlow.Proofs.Spellings
import BlockFlow.Proofs.Stamps
import BlockFlow.Proofs.Steps
import BlockFlow.Proofs.StoreWrites
import BlockFlow.Proofs.Surrogates
import BlockFlow.Proofs.Transcript
import BlockFlow.Proofs.Traversal
import BlockFlow.Proofs.Unanswered
import BlockFlow.Proofs.Undoing
import BlockFlow.Proofs.Unsaved
import BlockFlow.Proofs.Validation
import BlockFlow.Proofs.Visits
import BlockFlow.Proofs.Zones
import BlockFlow.Runner.Basic
import BlockFlow.Runner.Execute
import BlockFlow.Script.Emission
import BlockFlow.Script.Generate
import BlockFlow.Script.Node
import BlockFlow.Script.Statement
import BlockFlow.Script.Writer
import BlockFlow.Service.Basic
import BlockFlow.Service.Request
import BlockFlow.Service.Route
import BlockFlow.Session
import BlockFlow.Sorting
import BlockFlow.Startup
import BlockFlow.Store.Basic
import BlockFlow.Store.Cell
import BlockFlow.Store.Location
import BlockFlow.Text.Blank
import BlockFlow.Text.Digit
import BlockFlow.Text.Encoding
import BlockFlow.Text.Lowercase
import BlockFlow.Text.Printable
import BlockFlow.Text.Quoted
import BlockFlow.Time.Calendar
import BlockFlow.Time.Stamp
import BlockFlow.Value.Access
import BlockFlow.Value.Basic
import BlockFlow.Value.Key
import BlockFlow.Value.KeySet
import BlockFlow.Value.Order
import BlockFlow.Workspace
