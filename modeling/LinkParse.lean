import LinkParse.Letters
import LinkParse.Text.Blank
import LinkParse.Text.Bytes
import LinkParse.Text.CodePoint
import LinkParse.Connector
import LinkParse.Pattern
import LinkParse.LabelRule
import LinkParse.RuleRef
import LinkParse.Binary64.Basic
import LinkParse.Binary64.Arithmetic
import LinkParse.Binary64.Numeral
import LinkParse.Binary64.Shortest
import LinkParse.Text.Unseen
import LinkParse.Text.Quoted
import LinkParse.Text.Shown
import LinkParse.Cost
import LinkParse.Label
import LinkParse.Link
import LinkParse.Linkage
import LinkParse.Linkage.Labeling
import LinkParse.Diagram
import LinkParse.Search
import LinkParse.Rule
import LinkParse.Domain
import LinkParse.Attempt
import LinkParse.Search.Walk
import LinkParse.Options
import LinkParse.Verdict
import LinkParse.Score
import LinkParse.Ranking
import LinkParse.Document
import LinkParse.Document.Json
import LinkParse.Document.Toml.Scalar
import LinkParse.Document.Toml.Table
import LinkParse.Document.Toml
import LinkParse.Document.Form
import LinkParse.Document.Yaml.Scalar
import LinkParse.Document.Yaml.Place
import LinkParse.Document.Yaml.Tag
import LinkParse.Document.Yaml.Token
import LinkParse.Document.Yaml.Node
import LinkParse.Document.Yaml.Plain
import LinkParse.Document.Yaml
import LinkParse.Document.Decode
import LinkParse.Options.Codec
import LinkParse.Rule.Codec
import LinkParse.Rule.Shown
import LinkParse.Fault
import LinkParse.Event
import LinkParse.Processor
import LinkParse.Configuration
import LinkParse.Sample
import LinkParse.Proofs.Lists
import LinkParse.Proofs.Search
import LinkParse.Proofs.Diagram
import LinkParse.Proofs.Domain
import LinkParse.Proofs.Check
import LinkParse.Proofs.Objection
import LinkParse.Proofs.Verdict
import LinkParse.Proofs.Embedding
import LinkParse.Proofs.Renumbering
import LinkParse.Proofs.Ranking
import LinkParse.Proofs.Moving
import LinkParse.Proofs.Reasons
import LinkParse.Proofs.Beside
import LinkParse.Proofs.Rounding
import LinkParse.Proofs.Score
import LinkParse.Proofs.Labeling
import LinkParse.Proofs.Processing
import LinkParse.Proofs.Report
import LinkParse.Proofs.Workers
import LinkParse.Proofs.Matching
import LinkParse.Proofs.Intersection
import LinkParse.Proofs.Spelling
import LinkParse.Proofs.Tables
import LinkParse.Proofs.Reached
import LinkParse.Proofs.Nesting
import LinkParse.Proofs.Numbering
import LinkParse.Proofs.Components
import LinkParse.Proofs.Cycles
import LinkParse.Proofs.Growth
import LinkParse.Proofs.Budget
import LinkParse.Proofs.Derivation
import LinkParse.Proofs.Interruption
import LinkParse.Proofs.Calls
import LinkParse.Proofs.Ranker
import LinkParse.Proofs.Interning
import LinkParse.Proofs.Reading
import LinkParse.Proofs.Reference
import LinkParse.Proofs.RoundTrip
import LinkParse.Proofs.Naming
import LinkParse.Proofs.Composition
import LinkParse.Proofs.Pairs
import LinkParse.Proofs.Subsumption
import LinkParse.Proofs.Recognition
import LinkParse.Proofs.Construction
import LinkParse.Proofs.Semilattice
import LinkParse.Proofs.Rereading
import LinkParse.Proofs.Coherence
import LinkParse.Proofs.Value
import LinkParse.Proofs.Computation
import LinkParse.Proofs.Weights
import LinkParse.Proofs.Positions
import LinkParse.Proofs.Walk
import LinkParse.Proofs.Traversal
