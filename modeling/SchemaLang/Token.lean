import SchemaLang.Span

/-!
# Tokens

The words and marks that a schema is written in.  `Token.spelling` gives the characters of a token
and `Token.describe` the phrase that error messages use for it.  A `Lexeme` is a token together
with the bytes of the source that it spans.
-/

namespace SchemaLang

/-- A reserved word. -/
inductive Keyword where
  | annotationKw | constKw | enumKw | extendsKw | falseKw | groupKw | importKw | interfaceKw
  | structKw | trueKw | unionKw | usingKw | voidKw
deriving DecidableEq

namespace Keyword

/-- The letters of a keyword. -/
def text : Keyword → String
  | .annotationKw => "annotation"
  | .constKw => "const"
  | .enumKw => "enum"
  | .extendsKw => "extends"
  | .falseKw => "false"
  | .groupKw => "group"
  | .importKw => "import"
  | .interfaceKw => "interface"
  | .structKw => "struct"
  | .trueKw => "true"
  | .unionKw => "union"
  | .usingKw => "using"
  | .voidKw => "void"

/-- Every keyword, in alphabetical order. -/
def all : List Keyword :=
  [.annotationKw, .constKw, .enumKw, .extendsKw, .falseKw, .groupKw, .importKw, .interfaceKw,
   .structKw, .trueKw, .unionKw, .usingKw, .voidKw]

/-- The keyword that a word is, if it is one. -/
def ofText? (word : String) : Option Keyword := all.find? (·.text = word)

end Keyword

/-- A punctuation mark. -/
inductive Mark where
  | atSign | colon | comma | dollar | equals | dot | arrow | minus | semicolon | star
  | openBrace | closeBrace | openBracket | closeBracket | openParen | closeParen
deriving DecidableEq

/-- The characters of a mark. -/
def Mark.text : Mark → String
  | .atSign => "@"
  | .colon => ":"
  | .comma => ","
  | .dollar => "$"
  | .equals => "="
  | .dot => "."
  | .arrow => "->"
  | .minus => "-"
  | .semicolon => ";"
  | .star => "*"
  | .openBrace => "\x7b"
  | .closeBrace => "\x7d"
  | .openBracket => "["
  | .closeBracket => "]"
  | .openParen => "("
  | .closeParen => ")"

/-- A token.  Texts are kept as written between their quotes, escapes and all; a text in single
quotes is no literal of the language but is recognised so that it can be reported. -/
inductive Token where
  | keyword (k : Keyword)
  | mark (m : Mark)
  | name (s : String)
  | number (s : String)
  | text (raw : String)
  | singleQuoted (raw : String)
deriving DecidableEq

namespace Token

/-- The characters of a token. -/
def spelling : Token → String
  | .keyword k => k.text
  | .mark m => m.text
  | .name s => s
  | .number s => s
  | .text raw => "\"" ++ raw ++ "\""
  | .singleQuoted raw => "'" ++ raw ++ "'"

/-- The phrase for a token in error messages. -/
def describe : Token → String
  | .keyword k => "`" ++ k.text ++ "`"
  | .mark m => "`" ++ m.text ++ "`"
  | .name _ => "name"
  | .number _ => "number literal"
  | .text _ => "text literal"
  | .singleQuoted _ => "single quoted text"

end Token

/-- A token and the bytes of the source that it spans. -/
structure Lexeme where
  token : Token
  span : Span
deriving DecidableEq

end SchemaLang
