import SchemaLang.Text.Blank
import SchemaLang.Text.Bytes
import SchemaLang.Token

/-!
# From source text to lexemes

At each position `scan` takes the longest token that starts there, skips a blank or a comment, or
reports that no token starts there.  A number is the longest of four forms: a word that starts with
a digit, such a word with a fraction, and either of the two with a signed exponent.  `Lexed.ofText`
walks through a source with it and stops at the first error.
-/

namespace SchemaLang

/-- Why no token starts at a position of the source. -/
inductive LexCause where
  | unexpectedCharacter (c : Char)
  | unterminatedText (quote : Char)
deriving DecidableEq

/-- The wording of the error. -/
def LexCause.message : LexCause → String
  | .unexpectedCharacter c => "unexpected character `" ++ c.toString ++ "`"
  | .unterminatedText _ => "unterminated text literal"

/-- A malformed token. -/
structure LexError where
  span : Span
  cause : LexCause
deriving DecidableEq

/-! ## Characters -/

/-- The characters that start a name. -/
def isNameStart (c : Char) : Bool := c.isAlpha || c = '_'

/-- The characters that continue a name or a number. -/
def isWordChar (c : Char) : Bool := c.isAlphanum || c = '_'

/-- The characters that a number may have before its fraction. -/
def isWholeChar (c : Char) : Bool := c.isDigit || c = '_'

/-! ## One token -/

/-- What starts at a position.  Each length counts the characters after the first. -/
inductive Scan where
  | token (t : Token) (length : Nat)
  | trivia (length : Nat)
  | invalid (cause : LexCause) (length : Nat)

namespace Scan

/-- The length of the body of a quoted text and its closing quote, and whether it is closed.  The
body is made of plain characters and of backslashes with the character after them, which must not
be a line feed; an unclosed text ends after the last of these. -/
def quoted (quote : Char) : List Char → Bool × Nat
  | [] => (false, 0)
  | '\\' :: c :: cs =>
    if c = '\n' then (false, 0)
    else let (closed, n) := quoted quote cs; (closed, n + 2)
  | ['\\'] => (false, 0)
  | c :: cs =>
    if c = quote then (true, 1)
    else let (closed, n) := quoted quote cs; (closed, n + 1)

/-- The length of a signed exponent's sign and digits, or zero without a digit. -/
def signedDigits : List Char → Nat
  | sign :: cs =>
    if sign = '+' ∨ sign = '-' then
      match (cs.takeWhile Char.isDigit).length with
      | 0 => 0
      | n + 1 => n + 2
    else 0
  | [] => 0

/-- The length of the signed exponent after a word, which must end in the exponent's letter. -/
def exponentAfter (word rest : List Char) : Nat :=
  match word.getLast? with
  | some 'e' | some 'E' => signedDigits rest
  | _ => 0

/-- The length of a number after its first digit. -/
def number (cs : List Char) : Nat :=
  let (word, rest) := cs.span isWordChar
  match rest with
  | '.' :: d :: more =>
    if word.all isWholeChar ∧ d.isDigit then
      let (fraction, rest) := (d :: more).span isWordChar
      word.length + 1 + fraction.length + exponentAfter fraction rest
    else word.length
  | rest => word.length + exponentAfter word rest

end Scan

/-- The punctuation mark that a character is, the arrow aside. -/
def Mark.ofChar? : Char → Option Mark
  | '@' => some .atSign
  | ':' => some .colon
  | ',' => some .comma
  | '$' => some .dollar
  | '=' => some .equals
  | '.' => some .dot
  | '-' => some .minus
  | ';' => some .semicolon
  | '*' => some .star
  | '{' => some .openBrace
  | '}' => some .closeBrace
  | '[' => some .openBracket
  | ']' => some .closeBracket
  | '(' => some .openParen
  | ')' => some .closeParen
  | _ => none

/-- The token of a word that starts like a name. -/
def Token.ofWord (word : List Char) : Token :=
  match Keyword.ofText? (String.ofList word) with
  | some k => .keyword k
  | none => .name (String.ofList word)

/-- A quoted text that starts with `quote`; `make` builds its token from the body. -/
def Scan.ofQuote (quote : Char) (make : String → Token) (cs : List Char) : Scan :=
  match Scan.quoted quote cs with
  | (true, n) => .token (make (String.ofList (cs.take (n - 1)))) n
  | (false, n) => .invalid (.unterminatedText quote) n

/-- The longest token, the blank or the comment that starts with the character `c` before `cs`. -/
def scan (c : Char) (cs : List Char) : Scan :=
  if isBlank c then .trivia 0
  else if c = '#' then .trivia (cs.takeWhile (· ≠ '\n')).length
  else if isNameStart c then
    let word := cs.takeWhile isWordChar
    .token (.ofWord (c :: word)) word.length
  else if c.isDigit then
    let n := Scan.number cs
    .token (.number (String.ofList (c :: cs.take n))) n
  else if c = '"' then Scan.ofQuote '"' .text cs
  else if c = '\'' then Scan.ofQuote '\'' .singleQuoted cs
  else match c, cs with
    | '-', '>' :: _ => .token (.mark .arrow) 1
    | c, _ =>
      match Mark.ofChar? c with
      | some m => .token (.mark m) 0
      | none => .invalid (.unexpectedCharacter c) 0

/-! ## The whole source -/

/-- The lexemes of a source up to its end or to its first error. -/
structure Lexed where
  lexemes : List Lexeme
  error : Option LexError

namespace Lexed

/-- What a scan at byte `pos` gives; `next` is the byte after its first character, `cs` are the
characters from there on, and `rest` is what follows when so many of them are skipped. -/
def after (pos next : Nat) (cs : List Char) (rest : Nat → Lexed) : Scan → Lexed
  | .trivia n => rest n
  | .token t n =>
    let more := rest n
    ⟨⟨t, pos, next + byteSize (cs.take n)⟩ :: more.lexemes, more.error⟩
  | .invalid cause n => ⟨[], some ⟨⟨pos, next + byteSize (cs.take n)⟩, cause⟩⟩

/-- Walks through a source from byte `pos`; the next `pending` characters belong to what was
scanned last. -/
def walk (pos pending : Nat) : List Char → Lexed
  | [] => ⟨[], none⟩
  | c :: cs =>
    let next := pos + c.utf8Size
    match pending with
    | pending + 1 => walk next pending cs
    | 0 => after pos next cs (fun n => walk next n cs) (scan c cs)

/-- The lexemes of a source text. -/
def ofText (source : String) : Lexed := walk 0 0 source.toList

end Lexed

end SchemaLang
