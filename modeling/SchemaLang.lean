import SchemaLang.File.Tree
import SchemaLang.Main
import SchemaLang.Proofs.Constants.Resolution
import SchemaLang.Proofs.Failing
import SchemaLang.Proofs.Linking.Walks
import SchemaLang.Proofs.Naming.Resolution
import SchemaLang.Proofs.Printing.RoundTrip
import SchemaLang.Proofs.Reordering.Resolution
import SchemaLang.Proofs.Spans.Attribution
import SchemaLang.Proofs.Spans.Spacing
import SchemaLang.Proofs.Typing.Resolution
import SchemaLang.Session.Request
import SchemaLang.Proofs.Lexing.Patterns
import SchemaLang.Proofs.Lexing.MaximalMunch
import SchemaLang.Proofs.Varying.Names
import SchemaLang.Proofs.Framing.Loading
import SchemaLang.Proofs.Framing.States
import SchemaLang.Proofs.Framing.Resolution
import SchemaLang.Proofs.Clashing.Resolution
import SchemaLang.Proofs.Following.Targets
import SchemaLang.Proofs.Inheriting.Resolution
import SchemaLang.Proofs.Decoding.Integers
import SchemaLang.Proofs.Decoding.Decimals
import SchemaLang.Proofs.Decoding.Literals
import SchemaLang.Proofs.Decoding.Escapes
import SchemaLang.Proofs.Decoding.Fractions
import SchemaLang.Proofs.Unresolved
import SchemaLang.Proofs.Picking
import SchemaLang.Proofs.Spanning.Parsing
import SchemaLang.Proofs.Deciding.Errors
import SchemaLang.Proofs.Searching
import SchemaLang.Proofs.Scoping.Lookups
