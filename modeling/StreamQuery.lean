import StreamQuery.Codec.Decode
import StreamQuery.Codec.Encode
import StreamQuery.Codec.Template
import StreamQuery.Datatype
import StreamQuery.Datatype.Calendar
import StreamQuery.Datatype.Floating
import StreamQuery.Dialect
import StreamQuery.Dialect.Plan
import StreamQuery.Dialect.Projection
import StreamQuery.Duration
import StreamQuery.Graph
import StreamQuery.Graph.NTriples
import StreamQuery.Graph.Oracle
import StreamQuery.Graph.TriplePattern
import StreamQuery.Iri
import StreamQuery.Iri.Reference
import StreamQuery.Json
import StreamQuery.LanguageTag
import StreamQuery.OutputStream
import StreamQuery.Pattern
import StreamQuery.Pattern.Graphs
import StreamQuery.Prefixes
import StreamQuery.Proofs.Codec.Argument
import StreamQuery.Proofs.Codec.Decoding
import StreamQuery.Proofs.Codec.Encoded
import StreamQuery.Proofs.Codec.Encoding
import StreamQuery.Proofs.Codec.Enumeration
import StreamQuery.Proofs.Codec.Mentions
import StreamQuery.Proofs.Codec.Parts
import StreamQuery.Proofs.Codec.Renaming
import StreamQuery.Proofs.Codec.Sharing
import StreamQuery.Proofs.Codec.Survival
import StreamQuery.Proofs.Codec.Template
import StreamQuery.Proofs.Dialect.Agreement
import StreamQuery.Proofs.Dialect.Clause
import StreamQuery.Proofs.Dialect.DeclarationOrder
import StreamQuery.Proofs.Dialect.Degradation
import StreamQuery.Proofs.Dialect.Outcome
import StreamQuery.Proofs.Dialect.Plan
import StreamQuery.Proofs.Dialect.Profile
import StreamQuery.Proofs.Dialect.Units
import StreamQuery.Proofs.Dialect.Written
import StreamQuery.Proofs.Duration
import StreamQuery.Proofs.Duration.Grammar
import StreamQuery.Proofs.Except
import StreamQuery.Proofs.Exchange.Query
import StreamQuery.Proofs.Graph
import StreamQuery.Proofs.Graph.Path
import StreamQuery.Proofs.Iri
import StreamQuery.Proofs.Pattern.Dots
import StreamQuery.Proofs.Pattern.Graphs
import StreamQuery.Proofs.Prefixes
import StreamQuery.Proofs.Query.Abbreviation
import StreamQuery.Proofs.Query.BaseTokens
import StreamQuery.Proofs.Query.Body
import StreamQuery.Proofs.Query.Canonical
import StreamQuery.Proofs.Query.Change
import StreamQuery.Proofs.Query.Clause
import StreamQuery.Proofs.Query.Constructed
import StreamQuery.Proofs.Query.Group
import StreamQuery.Proofs.Query.Name
import StreamQuery.Proofs.Query.Page
import StreamQuery.Proofs.Query.Reading
import StreamQuery.Proofs.Query.Result
import StreamQuery.Proofs.Query.RoundTrip
import StreamQuery.Proofs.Query.Steady
import StreamQuery.Proofs.Query.WellFormed
import StreamQuery.Proofs.Query.Window
import StreamQuery.Proofs.Query.Written
import StreamQuery.Proofs.Related
import StreamQuery.Proofs.SortedMap
import StreamQuery.Proofs.Sparql.Declarations
import StreamQuery.Proofs.Sparql.Recognizer
import StreamQuery.Proofs.Template.Bare
import StreamQuery.Proofs.Template.Bindings
import StreamQuery.Proofs.Template.Clean
import StreamQuery.Proofs.Template.Declaration
import StreamQuery.Proofs.Template.Declared
import StreamQuery.Proofs.Template.Document
import StreamQuery.Proofs.Template.Handle
import StreamQuery.Proofs.Template.Instantiation
import StreamQuery.Proofs.Template.Library
import StreamQuery.Proofs.Template.Ontology
import StreamQuery.Proofs.Template.Persistence
import StreamQuery.Proofs.Template.Places
import StreamQuery.Proofs.Template.Requests
import StreamQuery.Proofs.Template.Substitution
import StreamQuery.Proofs.Template.Validation
import StreamQuery.Proofs.Term
import StreamQuery.Proofs.Token.Join
import StreamQuery.Proofs.Token.Lexeme
import StreamQuery.Proofs.Token.Lexical
import StreamQuery.Proofs.Token.Lossless
import StreamQuery.Proofs.Token.Segment
import StreamQuery.Proofs.Token.Separable
import StreamQuery.Proofs.Token.Split
import StreamQuery.Proofs.Token.Steady
import StreamQuery.Proofs.Token.Value
import StreamQuery.Proofs.Window
import StreamQuery.Proofs.Window.Combine
import StreamQuery.Proofs.Window.Join
import StreamQuery.Query
import StreamQuery.Query.Base
import StreamQuery.Query.Change
import StreamQuery.Query.Error
import StreamQuery.Query.Page
import StreamQuery.Query.Parser
import StreamQuery.Query.Printer
import StreamQuery.Settings
import StreamQuery.Settings.LogFilter
import StreamQuery.Settings.Regex
import StreamQuery.SortedMap
import StreamQuery.Sparql.Expression
import StreamQuery.Sparql.Pattern
import StreamQuery.Sparql.Query
import StreamQuery.Sparql.Question
import StreamQuery.Sparql.Recognizer
import StreamQuery.Sparql.Terms
import StreamQuery.Sparql.Triples
import StreamQuery.Template
import StreamQuery.Template.Bindings
import StreamQuery.Template.Declare
import StreamQuery.Template.Document
import StreamQuery.Template.Instantiate
import StreamQuery.Template.Library
import StreamQuery.Term
import StreamQuery.Text.CharClass
import StreamQuery.Text.CharRanges
import StreamQuery.Text.Decimal
import StreamQuery.Text.NameChar
import StreamQuery.Text.Scan
import StreamQuery.Token
import StreamQuery.Token.Lexer
import StreamQuery.Toml
import StreamQuery.Toml.Reader
import StreamQuery.Toml.Scalar
import StreamQuery.Vocabulary
import StreamQuery.Window
import StreamQuery.Window.Combine
