import CallBridge.Api.Basic
import CallBridge.Api.Catalogue
import CallBridge.Cache
import CallBridge.Collection.Buffer
import CallBridge.Collection.Distinct
import CallBridge.Collection.Ordered
import CallBridge.Config.Basic
import CallBridge.Config.Json
import CallBridge.Digest.Sha256
import CallBridge.Engine.Basic
import CallBridge.Engine.Transform
import CallBridge.Event.Basic
import CallBridge.Event.Catalogue
import CallBridge.Event.Json
import CallBridge.Failure.Basic
import CallBridge.Failure.Json
import CallBridge.Failure.Log
import CallBridge.Json.Basic
import CallBridge.Json.Decode
import CallBridge.Json.Document
import CallBridge.Json.Number
import CallBridge.Json.Printer
import CallBridge.Json.Reader
import CallBridge.Mapping.Usage
import CallBridge.Marker.Check
import CallBridge.Marker.Count
import CallBridge.Number.Binary64
import CallBridge.Number.Round
import CallBridge.Number.Shortest
import CallBridge.Pattern.Basic
import CallBridge.Pattern.Recognizer
import CallBridge.Pattern.Shape
import CallBridge.Proofs.Api.Body
import CallBridge.Proofs.Collection.Ordered
import CallBridge.Proofs.Config.Validity
import CallBridge.Proofs.Engine.Accounting
import CallBridge.Proofs.Engine.Applied
import CallBridge.Proofs.Engine.Development
import CallBridge.Proofs.Engine.Discarded
import CallBridge.Proofs.Engine.Run
import CallBridge.Proofs.Pattern.Ambiguity
import CallBridge.Proofs.Pattern.Outline
import CallBridge.Proofs.Pattern.Parts
import CallBridge.Proofs.Pattern.Recognition
import CallBridge.Proofs.Registry.Contents
import CallBridge.Proofs.Replacement.Calls
import CallBridge.Proofs.Replacement.Misread
import CallBridge.Proofs.Replacement.Outline
import CallBridge.Proofs.Replacement.Settled
import CallBridge.Proofs.Replacement.Standing
import CallBridge.Proofs.Replacement.Substitution
import CallBridge.Proofs.Replacement.Survivors
import CallBridge.Proofs.Replacement.Walk
import CallBridge.Proofs.Script.Subtree
import CallBridge.Record.Basic
import CallBridge.Record.Json
import CallBridge.Record.Recorder
import CallBridge.Record.Report
import CallBridge.Record.Session
import CallBridge.Registry.Basic
import CallBridge.Registry.Lookup
import CallBridge.Replacement.Basic
import CallBridge.Replacement.Build
import CallBridge.Replacement.Walk
import CallBridge.Script.Dependencies
import CallBridge.Script.Lexer
import CallBridge.Script.Lines
import CallBridge.Script.Operators
import CallBridge.Script.Parser.Expression
import CallBridge.Script.Parser.Function
import CallBridge.Script.Parser.Module
import CallBridge.Script.Parser.Pattern
import CallBridge.Script.Parser.State
import CallBridge.Script.Parser.Statement
import CallBridge.Script.Printer.Expression
import CallBridge.Script.Printer.Function
import CallBridge.Script.Printer.Layout
import CallBridge.Script.Printer.Literal
import CallBridge.Script.Printer.Module
import CallBridge.Script.Printer.Statement
import CallBridge.Script.Problem
import CallBridge.Script.Token
import CallBridge.Script.Tree
import CallBridge.Source.Location
import CallBridge.Source.Map
import CallBridge.Source.Reader
import CallBridge.Text.Hidden
import CallBridge.Text.Letters
import CallBridge.Text.Quoted
import CallBridge.Text.Ranges
import CallBridge.Text.Search
import CallBridge.Text.Units
import CallBridge.Text.Word
import CallBridge.Time.Instant
import CallBridge.Time.Rfc3339
import CallBridge.Url.Query
import CallBridge.Url.Split
import CallBridge.Proofs.Registry.Tables
import CallBridge.Proofs.Registry.Triggers
import CallBridge.Proofs.Collection.Span
import CallBridge.Proofs.Url.Origin
import CallBridge.Proofs.Registry.Routes
import CallBridge.Proofs.Replacement.SameOrigin
import CallBridge.Proofs.Script.Literals
import CallBridge.Proofs.Script.Running
import CallBridge.Proofs.Script.Operands
import CallBridge.Proofs.Script.Chains
import CallBridge.Proofs.Script.Objects
import CallBridge.Proofs.Script.Arrows
import CallBridge.Proofs.Replacement.Template
import CallBridge.Proofs.Api.Values
import CallBridge.Proofs.Number.Exact
import CallBridge.Proofs.Replacement.Parameters
import CallBridge.Proofs.Replacement.Shape
import CallBridge.Proofs.Json.Fields
import CallBridge.Proofs.Api.Evaluation
import CallBridge.Proofs.Api.Query
import CallBridge.Proofs.Collection.Latest
import CallBridge.Proofs.Cache.Retained
import CallBridge.Proofs.Record.History
import CallBridge.Proofs.Engine.Batch
import CallBridge.Proofs.Engine.Recordings
import CallBridge.Proofs.Engine.Memo
import CallBridge.Proofs.Event.RoundTrip
import CallBridge.Proofs.Text.Bytes
import CallBridge.Proofs.Url.Decoding
import CallBridge.Proofs.Url.Form
import CallBridge.Proofs.Json.Reading
import CallBridge.Proofs.Source.Differences
import CallBridge.Proofs.Source.Mappings
import CallBridge.Proofs.Source.Names
import CallBridge.Proofs.Script.Enclosure
import CallBridge.Proofs.Script.Enclosure.Giving
import CallBridge.Proofs.Script.Enclosure.Patterns
import CallBridge.Proofs.Script.Enclosure.Functions
import CallBridge.Proofs.Script.Enclosure.Expressions
import CallBridge.Proofs.Script.Enclosure.Statements
import CallBridge.Proofs.Script.Enclosure.Scripts
import CallBridge.Proofs.Replacement.Placements
import CallBridge.Proofs.Replacement.Wrapped
import CallBridge.Proofs.Engine.Placements
import CallBridge.Proofs.Registry.Longest
import CallBridge.Proofs.Script.Scope
import CallBridge.Proofs.Replacement.Capture
import CallBridge.Proofs.Script.Printing.Steps
import CallBridge.Proofs.Script.Printing.Expressions
import CallBridge.Proofs.Script.Printing.Functions
import CallBridge.Proofs.Script.Printing.Statements
import CallBridge.Proofs.Script.Printing.Layouts
import CallBridge.Proofs.Script.Printing.Spans
import CallBridge.Proofs.Engine.Alarms
import CallBridge.Proofs.Script.Printing.Growth
import CallBridge.Proofs.Script.Printing.Leading
import CallBridge.Proofs.Script.Printing.Visible
import CallBridge.Proofs.Script.Shape
import CallBridge.Proofs.Script.Printing.Found.Expressions
import CallBridge.Proofs.Script.Printing.Found.Functions
import CallBridge.Proofs.Script.Printing.Found.Statements
import CallBridge.Proofs.Script.Printing.Found.Settling
import CallBridge.Proofs.Script.Printing.Found.Calls
import CallBridge.Proofs.Marker.Spelled
import CallBridge.Proofs.Script.Printing.Paths
import CallBridge.Proofs.Script.Shape.Returning
import CallBridge.Proofs.Script.Shape.Patterns
import CallBridge.Proofs.Script.Shape.Functions
import CallBridge.Proofs.Script.Shape.Expressions
import CallBridge.Proofs.Script.Shape.Statements
import CallBridge.Proofs.Script.Shape.Scripts
import CallBridge.Proofs.Replacement.Shaped
import CallBridge.Proofs.Engine.Findings
import CallBridge.Proofs.Url.Scalars
import CallBridge.Proofs.Source.Locations
import CallBridge.Proofs.Api.Ids
import CallBridge.Proofs.Replacement.Options
import CallBridge.Proofs.Url.Parts
import CallBridge.Proofs.Url.Escapes
import CallBridge.Proofs.Collection.Evicted
import CallBridge.Proofs.Record.Traces
import CallBridge.Proofs.Record.Pipeline
import CallBridge.Proofs.Record.Counts
import CallBridge.Proofs.Api.Responses
import CallBridge.Proofs.Script.Dependencies
import CallBridge.Proofs.Config.Texts
import CallBridge.Proofs.Collection.Filled
import CallBridge.Proofs.Api.Parameters
import CallBridge.Proofs.Failure.Views
import CallBridge.Proofs.Marker.Sites
import CallBridge.Proofs.Marker.Reported
