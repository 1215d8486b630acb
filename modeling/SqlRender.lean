import SqlRender.Command.Arguments
import SqlRender.Command.Files
import SqlRender.Command.Render
import SqlRender.Command.Run
import SqlRender.Decimal.Notation
import SqlRender.Decimal.Shortest
import SqlRender.Defect
import SqlRender.Dialect
import SqlRender.Dialect.Shipped
import SqlRender.Dialect.Template
import SqlRender.Document.Decode
import SqlRender.Document.Encode
import SqlRender.Document.Layout
import SqlRender.Document.Shape
import SqlRender.Json.Fault
import SqlRender.Json.Number
import SqlRender.Json.Reader
import SqlRender.Json.Skip
import SqlRender.Json.Text
import SqlRender.Json.Write
import SqlRender.Log
import SqlRender.Main
import SqlRender.Pool
import SqlRender.Proofs.Acceptance
import SqlRender.Proofs.Arity
import SqlRender.Proofs.Blanks
import SqlRender.Proofs.Blocks
import SqlRender.Proofs.Brackets
import SqlRender.Proofs.Clauses
import SqlRender.Proofs.Composition
import SqlRender.Proofs.Conditions
import SqlRender.Proofs.Defects
import SqlRender.Proofs.Demand
import SqlRender.Proofs.Discarded
import SqlRender.Proofs.Document.Choices
import SqlRender.Proofs.Document.Decoding
import SqlRender.Proofs.Document.Depth
import SqlRender.Proofs.Document.Fields
import SqlRender.Proofs.Document.FirstFault
import SqlRender.Proofs.Document.Grammar
import SqlRender.Proofs.Document.Members
import SqlRender.Proofs.Document.Places
import SqlRender.Proofs.Document.Records
import SqlRender.Proofs.Document.Reencoding
import SqlRender.Proofs.Document.Roundtrip
import SqlRender.Proofs.Document.Undoing
import SqlRender.Proofs.Document.Values
import SqlRender.Proofs.Erasure
import SqlRender.Proofs.Filters
import SqlRender.Proofs.Grouping
import SqlRender.Proofs.Identifiers
import SqlRender.Proofs.Json.Grammar
import SqlRender.Proofs.Json.Ignored
import SqlRender.Proofs.Json.Items
import SqlRender.Proofs.Json.Nesting
import SqlRender.Proofs.Json.Numbers
import SqlRender.Proofs.Json.Reads
import SqlRender.Proofs.Json.Steadiness
import SqlRender.Proofs.Json.SteadyValues
import SqlRender.Proofs.Json.Texts
import SqlRender.Proofs.Json.Written
import SqlRender.Proofs.Lexemes
import SqlRender.Proofs.Listings
import SqlRender.Proofs.Neighbours
import SqlRender.Proofs.Openings
import SqlRender.Proofs.Operators
import SqlRender.Proofs.Outline
import SqlRender.Proofs.Pairing
import SqlRender.Proofs.Piece
import SqlRender.Proofs.Precedence
import SqlRender.Proofs.Predicates
import SqlRender.Proofs.Projections
import SqlRender.Proofs.Quoting
import SqlRender.Proofs.Reading
import SqlRender.Proofs.Renumbering
import SqlRender.Proofs.Rows
import SqlRender.Proofs.Slots
import SqlRender.Proofs.Spelling
import SqlRender.Proofs.Tidiness
import SqlRender.Proofs.Tokens
import SqlRender.Proofs.Unambiguity
import SqlRender.Proofs.Verbatim
import SqlRender.Proofs.Words
import SqlRender.Proofs.Writing
import SqlRender.Query.Basic
import SqlRender.Query.Build
import SqlRender.Query.Call
import SqlRender.Query.Clause
import SqlRender.Query.Column
import SqlRender.Query.Comparison
import SqlRender.Query.Equality
import SqlRender.Render.Clause
import SqlRender.Render.Listing
import SqlRender.Render.Name
import SqlRender.Render.Statement
import SqlRender.Text.Blank
import SqlRender.Text.Escaped
import SqlRender.Text.Hidden
import SqlRender.Text.Quoted
