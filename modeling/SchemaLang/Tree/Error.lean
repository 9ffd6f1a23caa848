import SchemaLang.Numeric.Numeral
import SchemaLang.Token.Lexer

/-!
# Why a source text is not a module

A source that does not parse has either a malformed token or a violation of the grammar.  Both are
recorded as a cause and the span that it concerns; the wording is in `message`.
-/

namespace SchemaLang

/-- A violation of the grammar. -/
inductive GrammarCause where
  | missingFileId
  | unexpectedToken (found : Token) (expected : String)
  | unexpectedEnd (expected : String)
  | expectedKeyword (found : String)
  | singleQuotedText
  | invalidNumeral (error : NumeralError)
  | invalidEscape (escape : String)
  | unexpectedTypeParameters (path : String)
  | duplicateAnonymousUnion
  | unknownTarget (word : String)
  | literalTooDeep
deriving DecidableEq

/-- The wording of the cause. -/
def GrammarCause.message : GrammarCause → String
  | .missingFileId => "missing file id"
  | .unexpectedToken found expected => "unexpected " ++ found.describe ++ ", expected " ++ expected
  | .unexpectedEnd expected => "unexpected end of file, expected " ++ expected
  | .expectedKeyword found => "expected keyword, found `" ++ found ++ "`"
  | .singleQuotedText => "text literals must be written with double quotes"
  | .invalidNumeral error => "invalid numeric literal: " ++ error.message
  | .invalidEscape escape => "invalid escape sequence `" ++ escape ++ "`"
  | .unexpectedTypeParameters path => "unexpected type parameters for `" ++ path ++ "`"
  | .duplicateAnonymousUnion => "a struct can only have one anonymous union"
  | .unknownTarget word => "unknown annotation target `" ++ word ++ "`"
  | .literalTooDeep => "literal is nested too deeply"

/-- A violation of the grammar and where it stands. -/
structure GrammarError where
  span : Span
  cause : GrammarCause
deriving DecidableEq

/-- Why a source text does not parse. -/
inductive ParseError where
  | lex (e : LexError)
  | grammar (e : GrammarError)
deriving DecidableEq

namespace ParseError

/-- The wording of the error. -/
def message : ParseError → String
  | .lex e => e.cause.message
  | .grammar e => e.cause.message

/-- The bytes that the error concerns. -/
def span : ParseError → Span
  | .lex e => e.span
  | .grammar e => e.span

/-- The module that an error in the text of the module at `path` names.  A malformed token concerns
the text alone, and so does all that is wrong with a text that has no path. -/
def module? (path : Option String) : ParseError → Option String
  | .lex _ => none
  | .grammar _ => path

end ParseError

end SchemaLang
