import SchemaLang.Tree.Parser.Term

/-!
# The grammar of declarations

A declaration may hold declarations in its body, and the members of a body may hold members of
their own.  The reader of each production takes the readers of what is nested in it as arguments;
`declWithin` and `membersWithin` tie the knot, bounded like the loops.
`Module.parse` reads a whole source text.
-/

namespace SchemaLang

namespace Parser

/-! ## Declarations without a body -/

/-- One of the `using` forms. -/
def usingDecl : Parser Decl := do
  let start ← keyword .usingKw
  if (← peek) = some (.keyword .importKw) then
    imported start none
  else
    let first ← ident
    if ← mark? .equals then
      if (← peek) = some (.keyword .importKw) then imported start (some first)
      else aliased start (some first) (← path)
    else aliased start none (← pathFrom first)
where
  aliased (start : Span) (name : Option Ident) (target : Path) : Parser Decl := do
    let stop ← mark .semicolon
    return .pathAlias ⟨start.cover stop, name, target⟩
  imported (start : Span) (name : Option Ident) : Parser Decl := do
    let (_, source, segments) ← importTarget
    let stop ← mark .semicolon
    return .importAlias ⟨start.cover stop, name, source, segments⟩

/-- `const name :type = literal;`. -/
def constDecl : Parser Decl := do
  let start ← keyword .constKw
  let name ← ident
  let _ ← mark .colon
  let type ← type
  let _ ← mark .equals
  let value ← literal
  let annotations ← applications
  let stop ← mark .semicolon
  return .const ⟨start.cover stop, name, type, value, annotations⟩

/-- The next enumerant of an enum, unless the body ends. -/
def enumerant? : Parser (Option Enumerant) := do
  if (← peek) = some (.mark .closeBrace) then return none
  let name ← ident
  let ordinal ← ordinal
  let annotations ← applications
  let stop ← mark .semicolon
  return some ⟨name.span.cover stop, name, ordinal, annotations⟩

/-- `enum name { enumerants }`. -/
def enumDecl : Parser Decl := do
  let start ← keyword .enumKw
  let name ← ident
  let annotations ← applications
  let _ ← mark .openBrace
  let enumerants ← many enumerant?
  let stop ← mark .closeBrace
  return .enum ⟨start.cover stop, name, annotations, enumerants⟩

/-- The target that a token stands for: the mark for all targets, or a target's word. -/
def targetOf? : Token → Option Target
  | .mark .star => some .any
  | .keyword .constKw => some .const
  | .keyword .enumKw => some .enum
  | .keyword .structKw => some .struct
  | .keyword .unionKw => some .union
  | .keyword .groupKw => some .group
  | .keyword .interfaceKw => some .interface
  | .keyword .annotationKw => some .annotationDecl
  | .name s => Target.ofName? s
  | _ => none

/-- One annotation target. -/
def target : Parser (Span × Target) := do
  match ← peek with
  | some found =>
    match targetOf? found, found with
    | some target, _ => return (← bump, target)
    | none, .name s => fail (← peekSpan) (.unknownTarget s)
    | none, _ => unexpected "annotation target"
  | none => unexpected "annotation target"

/-- `annotation name(targets) :type;`. -/
def annotationDecl : Parser Decl := do
  let start ← keyword .annotationKw
  let name ← ident
  let _ ← mark .openParen
  let targets ← separated .comma target
  let _ ← mark .closeParen
  let _ ← mark .colon
  let type ← type
  let annotations ← applications
  let stop ← mark .semicolon
  return .annotationDecl ⟨start.cover stop, name, targets, type, annotations⟩

/-! ## Methods and fields -/

/-- One parameter or result. -/
def param : Parser Param := do
  let name ← ident
  let _ ← mark .colon
  let type ← type
  let default ← default?
  let annotations ← applications
  return ⟨name.span.cover type.span, name, type, default, annotations⟩

/-- A parenthesised list of parameters. -/
def params : Parser (List Param) := do
  let _ ← mark .openParen
  if ← mark? .closeParen then return []
  let params ← separated .comma param
  let _ ← mark .closeParen
  return params

/-- `-> (results)`, if it is there. -/
def results? : Parser (Option (List Param)) := do
  if ← mark? .arrow then some <$> params else return none

/-- `name @ordinal (params) -> (results);`. -/
def method : Parser Method := do
  let name ← ident
  let ordinal ← ordinal
  let parameters ← params
  let results ← results?
  let annotations ← applications
  let stop ← mark .semicolon
  return ⟨name.span.cover stop, name, ordinal, parameters, results, annotations⟩

/-- `:type = default;` after a field's name and ordinal. -/
def field (name : Ident) (ordinal : Ordinal) : Parser Member := do
  let type ← type
  let default ← default?
  let annotations ← applications
  let stop ← mark .semicolon
  return .field ⟨name.span.cover stop, name, ordinal, type, default, annotations⟩

/-! ## Bodies -/

section Bodies

variable (body : Parser (List Member × Span)) (decl : Parser (Option Decl))

/-- `union { members }` after a name and perhaps an ordinal. -/
def namedUnion (name : Ident) (ordinal : Option Ordinal) : Parser Member := do
  let _ ← keyword .unionKw
  let annotations ← applications
  let (members, stop) ← body
  return .union ⟨name.span.cover stop, name, annotations⟩ ordinal members

/-- `union { members }` on its own; a body that has one already takes no other. -/
def anonymousUnion (earlier : List Member) : Parser Member := do
  let start ← keyword .unionKw
  let annotations ← applications
  let (members, stop) ← body
  if earlier.any Member.isAnonymousUnion then fail (start.cover stop) .duplicateAnonymousUnion
  return .anonymousUnion (start.cover stop) annotations members

/-- `group { members }`. -/
def group (name : Ident) : Parser Member := do
  let _ ← keyword .groupKw
  let annotations ← applications
  let (members, stop) ← body
  return .group ⟨name.span.cover stop, name, annotations⟩ members

/-- A field, a named union or a group. -/
def namedMember : Parser Member := do
  let name ← ident
  match ← peek with
  | some (.mark .atSign) =>
    let ordinal ← ordinal
    let _ ← mark .colon
    if (← peek) = some (.keyword .unionKw) then namedUnion body name ordinal
    else field name ordinal
  | some (.mark .colon) =>
    let _ ← bump
    match ← peek with
    | some (.keyword .unionKw) => namedUnion body name none
    | some (.keyword .groupKw) => group body name
    | _ => unexpected "`union` or `group`"
  | _ => unexpected "`@` or `:`"

/-- The next member of a body, unless the body ends. -/
def member? (earlier : List Member) : Parser (Option Member) := do
  match ← peek with
  | some (.mark .closeBrace) => return none
  | some (.keyword .unionKw) => some <$> anonymousUnion body earlier
  | some (.name _) => some <$> namedMember body
  | some _ =>
    match ← decl with
    | some d => return some (.decl d)
    | none => unexpected "field or declaration"
  | none => unexpected (Token.mark .closeBrace).describe

/-- The braced body of a struct, union or group, with the span of its closing brace. -/
def members : Parser (List Member × Span) := do
  let _ ← mark .openBrace
  let members ← manyGiven (member? body decl)
  return (members, ← mark .closeBrace)

/-- The next item of an interface, unless its body ends. -/
def interfaceMember? : Parser (Option InterfaceMember) := do
  match ← peek with
  | some (.mark .closeBrace) => return none
  | some (.name _) => some <$> .method <$> method
  | some _ =>
    match ← decl with
    | some d => return some (.decl d)
    | none => unexpected "method or declaration"
  | none => unexpected (Token.mark .closeBrace).describe

/-- `extends (bases)`, if it is there. -/
def bases : Parser (List TypeRef) := do
  if (← accept? (.keyword .extendsKw)).isSome then
    let _ ← mark .openParen
    let bases ← separated .comma type
    let _ ← mark .closeParen
    return bases
  else return []

/-- `interface name extends (bases) { members }`. -/
def interfaceDecl : Parser Decl := do
  let start ← keyword .interfaceKw
  let name ← ident
  let bases ← bases
  let annotations ← applications
  let _ ← mark .openBrace
  let members ← many (interfaceMember? decl)
  let stop ← mark .closeBrace
  return .interface ⟨start.cover stop, name, annotations⟩ bases members

/-- `struct name { members }`. -/
def structDecl : Parser Decl := do
  let start ← keyword .structKw
  let name ← ident
  let annotations ← applications
  let (members, stop) ← body
  return .struct ⟨start.cover stop, name, annotations⟩ members

/-- A declaration, if the next token starts one. -/
def declWith : Parser (Option Decl) := do
  match ← peek with
  | some (.keyword .usingKw) => some <$> usingDecl
  | some (.keyword .constKw) => some <$> constDecl
  | some (.keyword .structKw) => some <$> structDecl body
  | some (.keyword .enumKw) => some <$> enumDecl
  | some (.keyword .interfaceKw) => some <$> interfaceDecl decl
  | some (.keyword .annotationKw) => some <$> annotationDecl
  | _ => return none

end Bodies

/-! ## The knot -/

mutual

/-- A declaration, when at most `bound` lexemes are left. -/
def declWithin : Nat → Parser (Option Decl)
  | 0 => return none
  | bound + 1 => declWith (membersWithin bound) (declWithin bound)

/-- A braced body, when at most `bound` lexemes are left. -/
def membersWithin : Nat → Parser (List Member × Span)
  | 0 => unexpected (Token.mark .openBrace).describe
  | bound + 1 => members (membersWithin bound) (declWithin bound)

end

/-- A declaration, if the next token starts one. -/
def decl : Parser (Option Decl) := do declWithin (← Parser.bound)

/-! ## Files -/

/-- The `@number;` that every file starts with. -/
def fileId : Parser FileId := do
  match ← accept? (.mark .atSign) with
  | none => fail (← peekSpan) .missingFileId
  | some start =>
    let (_, value) ← natural ⟨false, .w64⟩
    let stop ← mark .semicolon
    return ⟨start.cover stop, value⟩

/-- The next annotation or declaration of a file, unless the file ends. -/
def fileItem? : Parser (Option (Application ⊕ Decl)) := do
  match ← peek with
  | none => return none
  | some (.mark .dollar) =>
    let applied ← application
    let _ ← mark .semicolon
    return some (.inl applied)
  | some (.name s) => fail (← peekSpan) (.expectedKeyword s)
  | some _ =>
    match ← decl with
    | some d => return some (.inr d)
    | none => unexpected "declaration"

/-- A whole file. -/
def file : Parser Module := do
  let id ← fileId
  let items ← many fileItem?
  return ⟨id, items.filterMap Sum.getLeft?, items.filterMap Sum.getRight?⟩

end Parser

/-- Reads the lexemes of a file; `stop` is the length of its source. -/
def Module.ofLexemes (lexemes : List Lexeme) (stop : Nat) : Except GrammarError Module :=
  Prod.fst <$> Parser.file.run ⟨lexemes, stop, lexemes.length⟩

/-- The module of a source text. -/
def Module.parse (source : String) : Except ParseError Module :=
  match Lexed.ofText source with
  | ⟨_, some e⟩ => .error (.lex e)
  | ⟨lexemes, none⟩ => (Module.ofLexemes lexemes source.utf8ByteSize).mapError .grammar

end SchemaLang
