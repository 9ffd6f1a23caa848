import SchemaLang.Error

/-!
# Diagnostics

An error as it is shown to whoever writes a schema: a message, the places that it concerns, and notes
that explain it or tell what to do about it.
-/

namespace SchemaLang

/-- How bad a diagnostic is, the least first.  A bug is a fault of the program itself. -/
inductive Severity where
  | warning | error | bug
deriving DecidableEq

/-- The word for a severity. -/
def Severity.describe : Severity → String
  | .warning => "warning"
  | .error => "error"
  | .bug => "bug"

/-- Errors and bugs are failures. -/
def Severity.isFailure : Severity → Bool
  | .warning => false
  | .error | .bug => true

/-- A place that a diagnostic concerns; exactly one label of a diagnostic with labels is the
primary one. -/
structure Label where
  primary : Bool
  span : Span
  message : String
deriving DecidableEq

/-- A message about one source text. -/
structure Diagnostic where
  severity : Severity
  message : String
  labels : List Label
  notes : List String
deriving DecidableEq

/-- An error at one place, which the label may say more about. -/
def Diagnostic.errorAt (span : Span) (message label : String) (notes : List String) : Diagnostic :=
  ⟨.error, message, [⟨true, span, label⟩], notes⟩

/-! ## The diagnostics of errors -/

/-- The first keyword that a word goes on from, and the rest of the word. -/
def splitKeyword? (word : String) : Option (Keyword × String) :=
  Keyword.all.findSome? fun k =>
    let letters := k.text.toList
    let rest := word.toList.drop letters.length
    if word.toList.take letters.length = letters ∧ rest ≠ [] then some (k, String.ofList rest)
    else none

/-- How to mend a violation of the grammar, where that is plain. -/
def GrammarCause.notes : GrammarCause → List String
  | .singleQuotedText => ["help: replace the single quotes with `\"`"]
  | .expectedKeyword found =>
    match splitKeyword? found with
    | some (k, rest) => ["help: add a space between `" ++ k.text ++ "` and `" ++ rest ++ "`"]
    | none => []
  | _ => []

/-- The diagnostic of a source text that does not parse. -/
def ParseError.diagnostic : ParseError → Diagnostic
  | .lex e => .errorAt e.span e.cause.message "" []
  | .grammar e => .errorAt e.span e.cause.message "" e.cause.notes

/-- What an import's failure adds to the message. -/
def ImportError.note (e : ImportError) : String :=
  match e.cause with
  | .noSource => "imports cannot be loaded in this context"
  | .notFound => "no schema found for `" ++ e.path ++ "`"
  | .parse inner => "while parsing `" ++ e.path ++ "`: " ++ inner.message

/-- The diagnostic of a failed import. -/
def ImportError.diagnostic (e : ImportError) : Diagnostic :=
  .errorAt e.span ("cannot import `" ++ e.path ++ "`") "imported here" [e.note]

/-- The note that proposes a name. -/
def suggestionNotes (suggestion : Option String) : List String :=
  suggestion.toList.map fun name => "help: did you mean `" ++ name ++ "`?"

/-- The diagnostic of a failure to link. -/
def LinkError.diagnostic (e : LinkError) : Diagnostic :=
  let message := e.cause.message
  match e.cause with
  | .duplicateName _ first =>
    ⟨.error, message, [⟨true, e.span, "redefined here"⟩, ⟨false, first, "first defined here"⟩], []⟩
  | .duplicateOrdinal _ first =>
    ⟨.error, message, [⟨true, e.span, "ordinal reused here"⟩, ⟨false, first, "first used here"⟩],
      []⟩
  | .unknownField _ _ suggestion => .errorAt e.span message "" (suggestionNotes suggestion)
  | .unknownEnumerant _ _ suggestion => .errorAt e.span message "" (suggestionNotes suggestion)
  | _ => .errorAt e.span message "" []

/-- The diagnostic of an error. -/
def SchemaError.diagnostic : SchemaError → Diagnostic
  | .parse e => e.diagnostic
  | .importing e => e.diagnostic
  | .linking e => e.diagnostic

end SchemaLang
