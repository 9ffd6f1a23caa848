import SchemaLang.Text.Escape
import SchemaLang.Tree
import SchemaLang.Tree.Error

/-!
# Reading lexemes

A `Parser` reads from a stream of lexemes and either gives a value and the rest of the stream or
stops with a grammar error.  This file holds its few primitive steps, which alone look at the
stream, and the three loops that the grammar needs.  Every round of a loop that goes on has used up
a lexeme, so the number of lexemes at the start bounds them all.
-/

namespace SchemaLang

/-- The lexemes still to be read, the length of the source, where its end is reported, and a bound
on the rounds of a loop, which is at least the number of lexemes left. -/
structure Stream where
  lexemes : List Lexeme
  stop : Nat
  bound : Nat

/-- A step that reads lexemes. -/
abbrev Parser := StateT Stream (Except GrammarError)

namespace Parser

/-! ## Primitive steps -/

/-- Stops with an error. -/
def fail {α : Type} (span : Span) (cause : GrammarCause) : Parser α := throw ⟨span, cause⟩

/-- The next token, which stays where it is. -/
def peek : Parser (Option Token) := do
  return (← get).lexemes.head?.map Lexeme.token

/-- The token after the next one. -/
def peekSecond : Parser (Option Token) := do
  return (← get).lexemes.tail.head?.map Lexeme.token

/-- The span of the next token, or the empty span at the end of the source. -/
def peekSpan : Parser Span := do
  let s ← get
  return (s.lexemes.head?.map Lexeme.span).getD (.point s.stop)

/-- Reads the next token and gives its span. -/
def bump : Parser Span := do
  let span ← peekSpan
  modify fun s => { s with lexemes := s.lexemes.tail }
  return span

/-- The bound on the rounds of a loop. -/
def bound : Parser Nat := do
  return (← get).bound

/-- Stops because the next token is not what was expected. -/
def unexpected {α : Type} (expected : String) : Parser α := do
  let span ← peekSpan
  match ← peek with
  | some (.singleQuoted _) => fail span .singleQuotedText
  | some found => fail span (.unexpectedToken found expected)
  | none => fail span (.unexpectedEnd expected)

/-! ## Single tokens -/

/-- Reads the next token if it is `t`. -/
def accept? (t : Token) : Parser (Option Span) := do
  if (← peek) = some t then some <$> bump else return none

/-- Reads `t`. -/
def expect (t : Token) : Parser Span := do
  match ← accept? t with
  | some span => return span
  | none => unexpected t.describe

/-- Reads a punctuation mark if it is the next token. -/
def mark? (m : Mark) : Parser Bool := do
  return (← accept? (.mark m)).isSome

/-- Reads a punctuation mark. -/
def mark (m : Mark) : Parser Span := expect (.mark m)

/-- Reads a keyword. -/
def keyword (k : Keyword) : Parser Span := expect (.keyword k)

/-- Reads a name. -/
def ident : Parser Ident := do
  match ← peek with
  | some (.name s) => return ⟨← bump, s⟩
  | _ => unexpected "name"

/-- Reads a number and gives its spelling. -/
def number : Parser (Span × String) := do
  match ← peek with
  | some (.number s) => return (← bump, s)
  | _ => unexpected "number literal"

/-- Reads a text literal and decodes its escapes. -/
def text : Parser (Span × String) := do
  match ← peek with
  | some (.text raw) =>
    let span ← bump
    match Escape.decode raw.toList with
    | .ok cs => return (span, String.ofList cs)
    | .error escape => fail span (.invalidEscape (String.ofList escape))
  | _ => unexpected "text literal"

/-- Reads a number that must fit an unsigned integer type. -/
def natural (type : IntType) : Parser (Span × Nat) := do
  let (span, s) ← number
  match (NumericType.int type).decode s.toList with
  | .ok (.int n) => return (span, n.toNat)
  | .ok (.float _) => fail span (.invalidNumeral (.outOfRange (.int type)))
  | .error e => fail span (.invalidNumeral e)

/-! ## Loops -/

/-- Reads at most `bound` items; `earlier` holds those already read, the last one first. -/
def manyFrom {α : Type} (item : List α → Parser (Option α)) :
    Nat → List α → Parser (List α)
  | 0, earlier => return earlier.reverse
  | bound + 1, earlier => do
    match ← item earlier with
    | some a => manyFrom item bound (a :: earlier)
    | none => return earlier.reverse

/-- Reads items until there is none.  An item may depend on the earlier ones, the last one first. -/
def manyGiven {α : Type} (item : List α → Parser (Option α)) : Parser (List α) := do
  manyFrom item ((← bound) + 1) []

/-- Reads items until there is none. -/
def many {α : Type} (item : Parser (Option α)) : Parser (List α) := manyGiven fun _ => item

/-- Reads one or more items with the mark `separator` between them. -/
def separated {α : Type} (separator : Mark) (item : Parser α) : Parser (List α) := do
  let first ← item
  let rest ← many do
    if ← mark? separator then some <$> item else return none
  return first :: rest

/-- Reads items up to the mark `close`, which stays; commas stand between the items and one may
follow the last. -/
def listUntil {α : Type} (close : Mark) (item : Parser α) : Parser (List α) := do
  go ((← bound) + 1)
where
  go : Nat → Parser (List α)
    | 0 => return []
    | bound + 1 => do
      if (← peek) = some (.mark close) then return []
      let first ← item
      if ← mark? .comma then return first :: (← go bound) else return [first]

end Parser

end SchemaLang
