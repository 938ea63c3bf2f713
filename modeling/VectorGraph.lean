import VectorGraph.Arena
import VectorGraph.Binary
import VectorGraph.Config
import VectorGraph.Config.Yaml
import VectorGraph.CreationOrder
import VectorGraph.Decimal
import VectorGraph.Demo
import VectorGraph.Graph
import VectorGraph.Graph.Config
import VectorGraph.Graph.Error
import VectorGraph.Graph.Record
import VectorGraph.Hybrid
import VectorGraph.Id
import VectorGraph.Json.Forms
import VectorGraph.Json.Numeral
import VectorGraph.Json.Reader
import VectorGraph.Json.Record
import VectorGraph.Json.Value
import VectorGraph.Log
import VectorGraph.Main
import VectorGraph.Mismatch
import VectorGraph.Output
import VectorGraph.Proofs.Arena
import VectorGraph.Proofs.Arena.History
import VectorGraph.Proofs.Arena.Supply
import VectorGraph.Proofs.Arena.Values
import VectorGraph.Proofs.Binary.Arithmetic
import VectorGraph.Proofs.Binary.Narrowing
import VectorGraph.Proofs.Binary.Negation
import VectorGraph.Proofs.Binary.Pattern
import VectorGraph.Proofs.Binary.Rounding
import VectorGraph.Proofs.Checked.Arena
import VectorGraph.Proofs.Checked.Graph
import VectorGraph.Proofs.Checked.Hybrid
import VectorGraph.Proofs.Checked.Vector
import VectorGraph.Proofs.Config
import VectorGraph.Proofs.Decimal
import VectorGraph.Proofs.Decimal.Midpoints
import VectorGraph.Proofs.Demo
import VectorGraph.Proofs.Demo.Building
import VectorGraph.Proofs.Graph.Adjacency
import VectorGraph.Proofs.Graph.Cascade
import VectorGraph.Proofs.Graph.Deletions
import VectorGraph.Proofs.Graph.Detach
import VectorGraph.Proofs.Graph.Edgewise
import VectorGraph.Proofs.Graph.Invariant
import VectorGraph.Proofs.Graph.Ledger
import VectorGraph.Proofs.Graph.Links
import VectorGraph.Proofs.Graph.Outcomes
import VectorGraph.Proofs.Graph.Payloads
import VectorGraph.Proofs.Graph.Queries
import VectorGraph.Proofs.Graph.Resize
import VectorGraph.Proofs.Graph.Restoring
import VectorGraph.Proofs.Graph.Rounds
import VectorGraph.Proofs.Graph.Runs
import VectorGraph.Proofs.Graph.Steps
import VectorGraph.Proofs.Graph.Threads
import VectorGraph.Proofs.Hybrid.Connections
import VectorGraph.Proofs.Hybrid.Creation
import VectorGraph.Proofs.Hybrid.Fresh
import VectorGraph.Proofs.Hybrid.Hits
import VectorGraph.Proofs.Hybrid.InStep
import VectorGraph.Proofs.Hybrid.Refusals
import VectorGraph.Proofs.Hybrid.Resize
import VectorGraph.Proofs.Hybrid.Runs
import VectorGraph.Proofs.Hybrid.Similar
import VectorGraph.Proofs.Hybrid.Steps
import VectorGraph.Proofs.Id
import VectorGraph.Proofs.Id.Encoding
import VectorGraph.Proofs.Json.Forms
import VectorGraph.Proofs.Json.Grammar
import VectorGraph.Proofs.Json.Layout
import VectorGraph.Proofs.Json.Numeral
import VectorGraph.Proofs.Json.Record
import VectorGraph.Proofs.Json.Reread
import VectorGraph.Proofs.Json.Scaling
import VectorGraph.Proofs.Json.Single
import VectorGraph.Proofs.Json.Whole
import VectorGraph.Proofs.Output
import VectorGraph.Proofs.Session
import VectorGraph.Proofs.Table
import VectorGraph.Proofs.Vector.Distance
import VectorGraph.Proofs.Vector.Invariant
import VectorGraph.Proofs.Vector.Map
import VectorGraph.Proofs.Vector.Metric
import VectorGraph.Proofs.Vector.Nearest
import VectorGraph.Proofs.Vector.Placement
import VectorGraph.Proofs.Vector.Resize
import VectorGraph.Proofs.Vector.Runs
import VectorGraph.Proofs.Vector.Selection
import VectorGraph.Proofs.Vector.Steps
import VectorGraph.Proofs.Yaml.Events
import VectorGraph.Proofs.Yaml.Flow
import VectorGraph.Proofs.Yaml.Forms
import VectorGraph.Proofs.Yaml.Lexing
import VectorGraph.Report
import VectorGraph.Session
import VectorGraph.Session.Arena
import VectorGraph.Session.Graph
import VectorGraph.Session.Hybrid
import VectorGraph.Session.Vector
import VectorGraph.Table
import VectorGraph.Text.Hexadecimal
import VectorGraph.Text.Quoted
import VectorGraph.Text.Visible
import VectorGraph.Vector.Allocator
import VectorGraph.Vector.Config
import VectorGraph.Vector.Distance
import VectorGraph.Vector.Error
import VectorGraph.Vector.Index
import VectorGraph.Vector.Selection
import VectorGraph.Version
import VectorGraph.Yaml.Cursor
import VectorGraph.Yaml.Document
import VectorGraph.Yaml.Event
import VectorGraph.Yaml.Flaw
import VectorGraph.Yaml.Reader
import VectorGraph.Yaml.Resolution
import VectorGraph.Yaml.Scalar
import VectorGraph.Yaml.Tag
import VectorGraph.Yaml.Token
