import SchemaLang.Link.Lookup

/-!
# Types, bases and inherited methods

A type must be a builtin one, a struct, an enum or an interface; what an interface extends must be
an interface.  The effective methods of an interface are its own and then those of its bases in the
order in which they are listed, each interface counting once, where it is first met.
-/

namespace SchemaLang.Loaded

variable (l : Loaded)

/-! ## Types -/

/-- A declaration that may stand as a type. -/
def isType (id : DeclId) : Bool :=
  l.hasKind id .struct || l.hasKind id .enum || l.hasKind id .interface

/-- The type that a binding gives; `p` stands for an unresolved one. -/
def typeOfBinding (scope : ScopeId) (t : TypeRef) (p : Path) : Binding → Link SchemaType
  | .decl id =>
    if l.isType id then .ok (.decl id) else l.fail scope t.span (.expectedType t.text)
  | .module _ => l.fail scope t.span (.expectedType t.text)
  | .builtin b => .ok (.builtin b)
  | .unresolved => .ok (.unresolved p)

/-- The type of a type that is written in a scope. -/
def resolveType (scope : ScopeId) : TypeRef → Link SchemaType
  | .named p => do l.typeOfBinding scope (.named p) p (← l.resolvePath scope p)
  | .list _ element => .list <$> resolveType scope element
  | .imported span source segments => do
    let b ← l.resolveImported scope source segments
    l.typeOfBinding scope (.imported span source segments) ⟨span, []⟩ b

/-- A type as messages show it. -/
def typeName : SchemaType → String
  | .builtin b => b.name
  | .decl id => l.nameOf id
  | .list element => "List(" ++ typeName element ++ ")"
  | .unresolved p => p.text

/-! ## Bases -/

/-- The interface that a binding gives for a base. -/
def baseOfBinding (scope : ScopeId) (t : TypeRef) : Binding → Link DeclId
  | .decl id =>
    if l.hasKind id .interface then .ok id else l.fail scope t.span (.notAnInterface t.text)
  | .unresolved => l.fail scope t.span (.unresolvedBase t.text)
  | .module _ | .builtin _ => l.fail scope t.span (.notAnInterface t.text)

/-- The interface that is named as a base in a scope. -/
def resolveBase (scope : ScopeId) : TypeRef → Link DeclId
  | .named p => do l.baseOfBinding scope (.named p) (← l.resolvePath scope p)
  | .list span element => l.fail scope span (.notAnInterface (TypeRef.list span element).text)
  | .imported span source segments => do
    let b ← l.resolveImported scope source segments
    l.baseOfBinding scope (.imported span source segments) b

/-- The bases of an interface. -/
def basesOf (id : DeclId) : Link (List DeclId) :=
  match l.entries[id]? with
  | some e =>
    match e.content with
    | .interface _ bases _ => bases.mapM (l.resolveBase e.home)
    | _ => .ok []
  | none => .ok []

/-! ## Inheritance -/

/-- The methods that an interface declares. -/
def ownMethods (id : DeclId) : List MethodRef :=
  match l.content? id with
  | some (.interface _ _ methods) => methods.map fun (name, ordinal) => ⟨id, name, ordinal⟩
  | _ => []

/-- Stops because an interface is its own base, directly or through others. -/
def cyclic {α : Type} (id : DeclId) : Link α :=
  match l.entries[id]? with
  | some e => l.fail e.home e.name.span (.cyclicInheritance (l.nameOf id))
  | none => l.fail 0 default (.cyclicInheritance "")

/-- Appends an interface and its bases to the interfaces `met` so far, each one before its bases.
`below` lists the interfaces whose bases are being followed, at most `bound` more of which may be
nested. -/
def visit : (bound : Nat) → (below : List DeclId) → (met : List DeclId) → DeclId →
    Link (List DeclId)
  | 0, _, met, _ => .ok met
  | bound + 1, below, met, id =>
    if id ∈ below then l.cyclic id
    else if id ∈ met then .ok met
    else do (← l.basesOf id).foldlM (visit bound (id :: below)) (met ++ [id])

/-- An interface and all that it inherits from, each once. -/
def ancestry (id : DeclId) : Link (List DeclId) := l.visit (l.entries.size + 1) [] [] id

/-- The methods of an interface, its own first and then those that it inherits. -/
def effectiveMethods (id : DeclId) : Link (List MethodRef) := do
  return (← l.ancestry id).flatMap l.ownMethods

end SchemaLang.Loaded
