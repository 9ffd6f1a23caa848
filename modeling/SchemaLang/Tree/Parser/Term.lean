import SchemaLang.Tree.Parser.Stream

/-!
# The grammar of names, types, literals and annotations

The parts of a declaration that contain no declaration themselves.
-/

namespace SchemaLang.Parser

/-! ## Names and numbers -/

/-- The segments that follow the first one of a dotted name. -/
def moreSegments : Parser (List Ident) := many do
  if ← mark? .dot then some <$> ident else return none

/-- A dotted name whose first segment has been read. -/
def pathFrom (first : Ident) : Parser Path := do
  let rest ← moreSegments
  return ⟨rest.foldl (fun span segment => span.cover segment.span) first.span, first :: rest⟩

/-- A dotted name. -/
def path : Parser Path := do pathFrom (← ident)

/-- `import "file"` and the segments after it, with the span of the keyword. -/
def importTarget : Parser (Span × ImportPath × List Ident) := do
  let start ← keyword .importKw
  let (span, file) ← text
  let segments ← moreSegments
  return (start, ⟨span, file⟩, segments)

/-- `@number`. -/
def ordinal : Parser Ordinal := do
  let start ← mark .atSign
  let (span, value) ← natural ⟨false, .w16⟩
  return ⟨start.cover span, value⟩

/-! ## Types -/

/-- The type that a path and its parameters make: a list of one parameter is the only one. -/
def applyParameters (path : Path) (span : Span) (parameters : List TypeRef) : Parser TypeRef :=
  match path.segments.map Ident.name, parameters with
  | ["List"], [element] => return .list span element
  | _, _ => fail span (.unexpectedTypeParameters path.text)

/-- A type, when at most `bound` lexemes are left. -/
def typeWithin : Nat → Parser TypeRef
  | 0 => unexpected "name"
  | bound + 1 => do
    if (← peek) = some (.keyword .importKw) then
      let (start, source, segments) ← importTarget
      let stop := (segments.getLast?.map Ident.span).getD source.span
      return .imported (start.cover stop) source segments
    let path ← path
    if ← mark? .openParen then
      let parameters ← separated .comma (typeWithin bound)
      let stop ← mark .closeParen
      applyParameters path (path.span.cover stop) parameters
    else return .named path

/-- A type. -/
def type : Parser TypeRef := do typeWithin (← Parser.bound)

/-! ## Literals -/

/-- The deepest nesting of list and struct literals. -/
def maxLiteralDepth : Nat := 64

/-- The literal of a numeral, which the widest type of its shape must be able to hold. -/
def numeral (span : Span) (s : String) : Parser Literal :=
  let checked : Except NumeralError Literal := do
    match ← Numeral.shape s.toList with
    | .float =>
      let _ ← (NumericType.float .float64).decodeDecimal s.toList
      return .float span s
    | .integer _ =>
      let _ ← (NumericType.int ⟨s.toList.head? = some '-', .w64⟩).decode s.toList
      return .int span s
  match checked with
  | .ok l => return l
  | .error e => fail span (.invalidNumeral e)

/-- The `name = value` pairs of a struct literal. -/
def structFields (value : Parser Literal) : Parser (List (Ident × Literal)) :=
  listUntil .closeParen do
    let name ← ident
    let _ ← mark .equals
    return (name, ← value)

/-- `[item, ...]` from its opening bracket, which stands at `start`. -/
def listLiteral (item : Parser Literal) (start : Span) : Parser Literal := do
  let _ ← bump
  let items ← listUntil .closeBracket item
  let stop ← mark .closeBracket
  return .list (start.cover stop) items

/-- `(name = value, ...)` from its opening parenthesis, which stands at `start`. -/
def structLiteral (value : Parser Literal) (start : Span) : Parser Literal := do
  let _ ← bump
  let fields ← structFields value
  let stop ← mark .closeParen
  return .struct (start.cover stop) fields

/-- A literal; `list` and `struct` read the ones that hold others, from their opening mark. -/
def literalWith (list struct : Span → Parser Literal) : Parser Literal := do
  let start ← peekSpan
  match ← peek with
  | some (.mark .minus) =>
    let _ ← bump
    let (span, s) ← number
    numeral (start.cover span) ("-" ++ s)
  | some (.number s) =>
    let _ ← bump
    numeral start s
  | some (.text _) =>
    let (span, s) ← text
    return .text span s
  | some (.keyword .trueKw) => return .bool (← bump) true
  | some (.keyword .falseKw) => return .bool (← bump) false
  | some (.keyword .voidKw) => return .void (← bump)
  | some (.name _) => return .name (← path)
  | some (.mark .openBracket) => list start
  | some (.mark .openParen) => struct start
  | _ => unexpected "literal"

/-- A literal with at most `room` levels of lists and structs. -/
def literalWithin : Nat → Parser Literal
  | 0 => literalWith (fail · .literalTooDeep) (fail · .literalTooDeep)
  | room + 1 => literalWith (listLiteral (literalWithin room)) (structLiteral (literalWithin room))

/-- A literal. -/
def literal : Parser Literal := literalWithin maxLiteralDepth

/-- `= literal`, if it is there. -/
def default? : Parser (Option Literal) := do
  if ← mark? .equals then some <$> literal else return none

/-! ## Annotations -/

/-- `$name`, `$name()`, `$name(value)` or `$name(field = value, ...)`.  Empty parentheses stand for
the void literal, and the fields of a struct literal need no parentheses of their own. -/
def application : Parser Application := do
  let start ← mark .dollar
  let name ← path
  match ← accept? (.mark .openParen) with
  | none => return ⟨start.cover name.span, name, none⟩
  | some openSpan =>
    match ← peek, ← peekSecond with
    | some (.mark .closeParen), _ =>
      let stop ← bump
      return ⟨start.cover stop, name, some (.void (openSpan.cover stop))⟩
    | some (.name _), some (.mark .equals) =>
      let fields ← structFields literal
      let stop ← mark .closeParen
      return ⟨start.cover stop, name, some (.struct (openSpan.cover stop) fields)⟩
    | _, _ =>
      let value ← literal
      let stop ← mark .closeParen
      return ⟨start.cover stop, name, some value⟩

/-- The annotations applied at one place. -/
def applications : Parser (List Application) := many do
  if (← peek) = some (.mark .dollar) then some <$> application else return none

end SchemaLang.Parser
