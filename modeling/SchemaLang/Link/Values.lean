import SchemaLang.Link.Types
import SchemaLang.Text.Spelling

/-!
# The values of literals

A literal is evaluated for the resolved type that it is written for.  A name stands for a constant
or, for an enum, for one of its enumerants; numbers are decoded within the limits of their type; a
struct literal may set the fields of a struct, named union or group.  A literal for an unresolved
type is kept as it is.
-/

namespace SchemaLang.Loaded

variable (l : Loaded) (scope : ScopeId)

/-- Stops because a literal does not fit its type. -/
def mismatch {α : Type} (t : SchemaType) (literal : Literal) : Link α :=
  l.fail scope literal.span (.mismatchedLiteral (l.typeName t) literal.describe)

/-! ## Literals that hold no others -/

/-- The value of a numeral for a builtin type. -/
def numeralValue (b : Builtin) (literal : Literal) (span : Span) (s : String) : Link Value :=
  match b.numeric? with
  | none => l.mismatch scope (.builtin b) literal
  | some t =>
    match t.decode s.toList with
    | .ok (.int n) => .ok (.int n)
    | .ok (.float x) => .ok (.float x)
    | .error e => l.fail scope span (.invalidNumeral e)

/-- The value of a literal for a builtin type. -/
def builtinValue (b : Builtin) (literal : Literal) : Link Value :=
  match b, literal with
  | .void, .void _ => .ok .void
  | .bool, .bool _ v => .ok (.bool v)
  | .text, .text _ s => .ok (.text s)
  | .data, .text _ s => .ok (.data s.toUTF8.toList)
  | b, .int span s => l.numeralValue scope b literal span s
  | b, .float span s => l.numeralValue scope b literal span s
  | b, literal => l.mismatch scope (.builtin b) literal

/-- The constant that a dotted name stands for. -/
def constValue (p : Path) : Link Value := do
  match ← l.resolvePath scope p with
  | .decl id =>
    if l.hasKind id .const then .ok (.const id) else l.fail scope p.span (.notAConstant p.text)
  | .unresolved => .ok (.unresolvedConst p)
  | .module _ | .builtin _ => l.fail scope p.span (.notAConstant p.text)

/-- The value of a single name for an enum: an enumerant, or else a constant. -/
def enumerantValue (id : DeclId) (enumerants : List (String × Nat)) (p : Path) (i : Ident) :
    Link Value :=
  let unknown : Link Value :=
    l.fail scope i.span (.unknownEnumerant i.name (l.nameOf id)
      (Spelling.suggest i.name (enumerants.map Prod.fst)))
  match enumerants.lookup i.name with
  | some ordinal => .ok (.enumerant id ordinal)
  | none => do
    match ← l.resolvePath scope p with
    | .decl c => if l.hasKind c .const then .ok (.const c) else unknown
    | _ => unknown

/-- The value of a name. -/
def nameValue (t : SchemaType) (p : Path) : Link Value :=
  match t with
  | .decl id =>
    match l.content? id, p.segments with
    | some (.enum enumerants), [i] => l.enumerantValue scope id enumerants p i
    | _, _ => l.constValue scope p
  | _ => l.constValue scope p

/-! ## All literals -/

/-- The field of a struct literal with a name, which `id` is expected to have. -/
def fieldNamed (id : DeclId) (fields : List FieldEntry) (i : Ident) : Link FieldEntry :=
  match fields.find? (·.name = i.name) with
  | some field => .ok field
  | none => l.fail scope i.span (.unknownField i.name (l.nameOf id)
      (Spelling.suggest i.name (fields.map (·.name))))

/-- The type of a field of a struct literal. -/
def fieldType : FieldContent → Link SchemaType
  | .typed t home => l.resolveType home t
  | .nested id => .ok (.decl id)

mutual

/-- The value of a literal that is written in a scope for a type. -/
def eval (t : SchemaType) : Literal → Link Value
  | .name p =>
    match t with
    | .unresolved _ => .ok (.deferred (.name p))
    | t => l.nameValue scope t p
  | .list span items =>
    match t with
    | .unresolved _ => .ok (.deferred (.list span items))
    | .list element => .list <$> evalItems element items
    | t => l.mismatch scope t (.list span items)
  | .struct span inits =>
    match t with
    | .unresolved _ => .ok (.deferred (.struct span inits))
    | .decl id =>
      match (l.content? id).bind (·.fields?) with
      | some fields => .struct <$> evalFields id fields inits
      | none => l.mismatch scope t (.struct span inits)
    | t => l.mismatch scope t (.struct span inits)
  | literal =>
    match t with
    | .unresolved _ => .ok (.deferred literal)
    | .builtin b => l.builtinValue scope b literal
    | t => l.mismatch scope t literal

/-- The values of the items of a list literal. -/
def evalItems (element : SchemaType) : List Literal → Link (List Value)
  | [] => .ok []
  | item :: items => do
    let v ← eval element item
    return v :: (← evalItems element items)

/-- The values of the fields of a struct literal. -/
def evalFields (id : DeclId) (fields : List FieldEntry) :
    List (Ident × Literal) → Link (List (String × Value))
  | [] => .ok []
  | (i, literal) :: inits => do
    let field ← l.fieldNamed scope id fields i
    let t ← l.fieldType field.content
    let v ← eval t literal
    return (i.name, v) :: (← evalFields id fields inits)

end

end SchemaLang.Loaded
