import FormDependencies.Action.Basic
import FormDependencies.Action.Name
import FormDependencies.Action.Registry
import FormDependencies.Binary64.Basic
import FormDependencies.Binary64.Decimal
import FormDependencies.Binary64.Notation
import FormDependencies.Binary64.Round
import FormDependencies.Binary64.Shortest
import FormDependencies.Binding.Basic
import FormDependencies.Binding.Evaluation
import FormDependencies.Binding.Group
import FormDependencies.Binding.History
import FormDependencies.Binding.Observer
import FormDependencies.Binding.Reference
import FormDependencies.Config
import FormDependencies.Declaration
import FormDependencies.Document.Basic
import FormDependencies.Document.Edit
import FormDependencies.Document.Event
import FormDependencies.Document.Forest
import FormDependencies.Document.Form
import FormDependencies.Document.Outline
import FormDependencies.Document.Snapshot
import FormDependencies.Document.Template
import FormDependencies.Engine.Basic
import FormDependencies.Engine.Pass
import FormDependencies.Engine.Pump
import FormDependencies.Engine.Run
import FormDependencies.Error
import FormDependencies.Evaluator.Basic
import FormDependencies.Evaluator.Script
import FormDependencies.Json.Basic
import FormDependencies.Json.Grammar
import FormDependencies.Json.Reader
import FormDependencies.Json.Writer
import FormDependencies.KeyedList
import FormDependencies.Log
import FormDependencies.Proofs.Action.Effect
import FormDependencies.Proofs.Action.Inert
import FormDependencies.Proofs.Action.Naming
import FormDependencies.Proofs.Action.Quiet
import FormDependencies.Proofs.Action.Visibility
import FormDependencies.Proofs.Binary64.Exact
import FormDependencies.Proofs.Binding.Announcement
import FormDependencies.Proofs.Binding.Coherence
import FormDependencies.Proofs.Binding.Correspondence
import FormDependencies.Proofs.Binding.Effect
import FormDependencies.Proofs.Binding.Evaluation
import FormDependencies.Proofs.Binding.Extension
import FormDependencies.Proofs.Binding.Independence
import FormDependencies.Proofs.Binding.Initialisation
import FormDependencies.Proofs.Binding.Invariant
import FormDependencies.Proofs.Binding.Keys
import FormDependencies.Proofs.Binding.Lifecycle
import FormDependencies.Proofs.Binding.Lookup
import FormDependencies.Proofs.Binding.Naming
import FormDependencies.Proofs.Binding.Nearest
import FormDependencies.Proofs.Binding.Notice
import FormDependencies.Proofs.Binding.Order
import FormDependencies.Proofs.Binding.Origin
import FormDependencies.Proofs.Binding.Projections
import FormDependencies.Proofs.Binding.Prospect
import FormDependencies.Proofs.Binding.Rearrangement
import FormDependencies.Proofs.Binding.Reclamation
import FormDependencies.Proofs.Binding.Registry
import FormDependencies.Proofs.Binding.Settlement
import FormDependencies.Proofs.Binding.Signature
import FormDependencies.Proofs.Binding.Slots
import FormDependencies.Proofs.Binding.Source
import FormDependencies.Proofs.Binding.Standing
import FormDependencies.Proofs.Binding.Supply
import FormDependencies.Proofs.Binding.Truth
import FormDependencies.Proofs.Binding.Turn
import FormDependencies.Proofs.Binding.Uses
import FormDependencies.Proofs.Binding.Watching
import FormDependencies.Proofs.Binding.Wiring
import FormDependencies.Proofs.Declaration.Naming
import FormDependencies.Proofs.Declaration.Reading
import FormDependencies.Proofs.Declaration.Sharing
import FormDependencies.Proofs.Declaration.Written
import FormDependencies.Proofs.Document.Agreement
import FormDependencies.Proofs.Document.Attachment
import FormDependencies.Proofs.Document.Attributes
import FormDependencies.Proofs.Document.Complete
import FormDependencies.Proofs.Document.Forest
import FormDependencies.Proofs.Document.Links
import FormDependencies.Proofs.Document.Moves
import FormDependencies.Proofs.Document.Preorder
import FormDependencies.Proofs.Document.Relocation
import FormDependencies.Proofs.Document.Traversal
import FormDependencies.Proofs.Engine.Afresh
import FormDependencies.Proofs.Engine.Callback
import FormDependencies.Proofs.Engine.Change
import FormDependencies.Proofs.Engine.Conduct
import FormDependencies.Proofs.Engine.Currency
import FormDependencies.Proofs.Engine.Effect
import FormDependencies.Proofs.Engine.Evaluations
import FormDependencies.Proofs.Engine.Handover
import FormDependencies.Proofs.Engine.Hosted
import FormDependencies.Proofs.Engine.Ledger
import FormDependencies.Proofs.Engine.Limit
import FormDependencies.Proofs.Engine.NotifiedWrite
import FormDependencies.Proofs.Engine.Once
import FormDependencies.Proofs.Engine.Readiness
import FormDependencies.Proofs.Engine.Registration
import FormDependencies.Proofs.Engine.Repetition
import FormDependencies.Proofs.Engine.Scan
import FormDependencies.Proofs.Engine.Schedule
import FormDependencies.Proofs.Engine.Standing
import FormDependencies.Proofs.Engine.Step
import FormDependencies.Proofs.Engine.Termination
import FormDependencies.Proofs.Query.Grammar
import FormDependencies.Proofs.Query.Reading
import FormDependencies.Proofs.Query.Recognition
import FormDependencies.Proofs.Query.Scoping
import FormDependencies.Proofs.Reactive.Delivery
import FormDependencies.Proofs.Reactive.Dropped
import FormDependencies.Proofs.Reactive.History
import FormDependencies.Proofs.Reactive.Recorded
import FormDependencies.Proofs.Reactive.Run
import FormDependencies.Proofs.Selector.Completeness
import FormDependencies.Proofs.Selector.Faults
import FormDependencies.Proofs.Selector.Grammar
import FormDependencies.Proofs.Selector.Lookahead
import FormDependencies.Proofs.Selector.Matching
import FormDependencies.Proofs.Selector.Recognition
import FormDependencies.Proofs.Selector.Rendering
import FormDependencies.Proofs.Selector.Soundness
import FormDependencies.Proofs.Text.Runs
import FormDependencies.Proofs.Text.Split
import FormDependencies.Proofs.Value.Congruence
import FormDependencies.Proofs.Value.Representative
import FormDependencies.Proofs.Value.Retraction
import FormDependencies.Proofs.Value.Same
import FormDependencies.Proofs.Widget.Reading
import FormDependencies.Proofs.Widget.RoundTrip
import FormDependencies.Proofs.Widget.Writing
import FormDependencies.Query.Basic
import FormDependencies.Query.Parser
import FormDependencies.Query.Values
import FormDependencies.Reactive.Network
import FormDependencies.Reactive.Observable
import FormDependencies.Reactive.Observables
import FormDependencies.Reactive.Program
import FormDependencies.Selector.Basic
import FormDependencies.Selector.Error
import FormDependencies.Selector.Parser
import FormDependencies.Text.Blank
import FormDependencies.Text.Offset
import FormDependencies.Text.Printable
import FormDependencies.Text.Quoted
import FormDependencies.Text.Split
import FormDependencies.Value.Basic
import FormDependencies.Value.RefType
import FormDependencies.Widget.Accessor
import FormDependencies.Widget.Builtin
import FormDependencies.Widget.Descriptor
import FormDependencies.Widget.Registry
import FormDependencies.Widget.Validation
import FormDependencies.Proofs.Binary64.Reading
import FormDependencies.Proofs.Binding.WriteBack
import FormDependencies.Proofs.Json.Grammar
import FormDependencies.Proofs.Json.Reading
import FormDependencies.Proofs.Json.Writing
import FormDependencies.Proofs.Config.RoundTrip
