import EntityMapping.Accessor
import EntityMapping.Action
import EntityMapping.Assignment
import EntityMapping.Batch
import EntityMapping.DateTime
import EntityMapping.DateTime.Reader
import EntityMapping.Decimal
import EntityMapping.Dict
import EntityMapping.Double
import EntityMapping.Double.Shortest
import EntityMapping.Double.Wide
import EntityMapping.Error
import EntityMapping.Fetcher
import EntityMapping.Graph.Cycle
import EntityMapping.Graph.Sweep
import EntityMapping.Heap
import EntityMapping.Heap.Json
import EntityMapping.Heap.Numbering
import EntityMapping.Heap.Summary
import EntityMapping.Include
import EntityMapping.Item
import EntityMapping.Journal
import EntityMapping.Json
import EntityMapping.Json.Embedded
import EntityMapping.Json.Outline
import EntityMapping.Json.Printer
import EntityMapping.Json.Reader
import EntityMapping.Json.Skipper
import EntityMapping.Key
import EntityMapping.MapperKey
import EntityMapping.Metadata
import EntityMapping.Pass
import EntityMapping.Pass.Fetching
import EntityMapping.Pass.Mapping
import EntityMapping.Pass.State
import EntityMapping.Pass.Waves
import EntityMapping.Plan
import EntityMapping.Plan.Commit
import EntityMapping.Powers
import EntityMapping.Proofs.Building
import EntityMapping.Proofs.Commitment
import EntityMapping.Proofs.Delivery
import EntityMapping.Proofs.Evaluation
import EntityMapping.Proofs.ExactlyOnce
import EntityMapping.Proofs.Graph.Chains
import EntityMapping.Proofs.Graph.Cycles
import EntityMapping.Proofs.Graph.Sweeping
import EntityMapping.Proofs.Grouping
import EntityMapping.Proofs.Heights
import EntityMapping.Proofs.Including
import EntityMapping.Proofs.Naming
import EntityMapping.Proofs.Outcome
import EntityMapping.Proofs.Pass.Account
import EntityMapping.Proofs.Pass.Draining
import EntityMapping.Proofs.Pass.Filling
import EntityMapping.Proofs.Pass.Groups
import EntityMapping.Proofs.Pass.Holes
import EntityMapping.Proofs.Pass.Resolving
import EntityMapping.Proofs.Pass.Serving
import EntityMapping.Proofs.Pass.Trace
import EntityMapping.Proofs.Pass.Waves
import EntityMapping.Proofs.Plain
import EntityMapping.Proofs.Projecting
import EntityMapping.Proofs.Reference
import EntityMapping.Proofs.Rendering
import EntityMapping.Proofs.Resolution
import EntityMapping.Proofs.Source.Following
import EntityMapping.Proofs.Source.Joining
import EntityMapping.Proofs.Typing
import EntityMapping.Proofs.WaveBound
import EntityMapping.Query
import EntityMapping.Recipe.Conversion
import EntityMapping.Recipe.Expression
import EntityMapping.Recipe.HookStep
import EntityMapping.Recipe.Resolver
import EntityMapping.Recipe.Template
import EntityMapping.Registry
import EntityMapping.Registry.ConfigText
import EntityMapping.Registry.Description
import EntityMapping.Row
import EntityMapping.ScalarType
import EntityMapping.Session
import EntityMapping.Shape
import EntityMapping.Source
import EntityMapping.Source.Affinity
import EntityMapping.Source.Cell
import EntityMapping.Source.Database
import EntityMapping.Source.Join
import EntityMapping.Source.Listing
import EntityMapping.Source.Memory
import EntityMapping.Source.Page
import EntityMapping.Source.Select
import EntityMapping.Source.Table
import EntityMapping.Text.Blank
import EntityMapping.Text.Diagnostic
import EntityMapping.Text.Digits
import EntityMapping.Text.Hex
import EntityMapping.Text.Quoted
import EntityMapping.Text.Shown
import EntityMapping.Text.SnakeCase
import EntityMapping.Transient
import EntityMapping.Uuid
import EntityMapping.Value
import EntityMapping.Proofs.Conformance
import EntityMapping.Proofs.Faults
import EntityMapping.Proofs.Pass.Keeping
import EntityMapping.Proofs.Identity
import EntityMapping.Proofs.Hooking
import EntityMapping.Proofs.Sharing
import EntityMapping.Proofs.Pass.Loads
import EntityMapping.Proofs.LoadBound
import EntityMapping.Proofs.NestedLoop
import EntityMapping.Proofs.Source.Attaching
import EntityMapping.Proofs.Paths
import EntityMapping.Proofs.Charting
import EntityMapping.Proofs.Source.Storing
import EntityMapping.Proofs.Pass.Exchanging
import EntityMapping.Proofs.Backends
import EntityMapping.Proofs.Graph.Searching
import EntityMapping.Proofs.Graph.Sorting
import EntityMapping.Proofs.Pass.Settings
import EntityMapping.Proofs.WaveLimit
import EntityMapping.Proofs.Supplying
import EntityMapping.Proofs.Completion
import EntityMapping.Proofs.Reordering
import EntityMapping.Proofs.Heap.Unfolding
import EntityMapping.Proofs.Pass.Answering
import EntityMapping.Proofs.Fetching
import EntityMapping.Proofs.Sufficiency
import EntityMapping.Proofs.Merging
import EntityMapping.Proofs.Carriers
import EntityMapping.Proofs.Lookups
import EntityMapping.Proofs.Embedding
import EntityMapping.Proofs.Key.Parameters
import EntityMapping.Proofs.Source.Selecting
import EntityMapping.Proofs.Walking
import EntityMapping.Proofs.Key.Identifying
import EntityMapping.Proofs.Reporting
