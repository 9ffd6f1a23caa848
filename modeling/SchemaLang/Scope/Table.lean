import SchemaLang.Schema.Info

/-!
# Scopes and entries

A scope is opened by each file and by each body of a struct, union, group or interface.  It binds
the names of the declarations and the aliases that stand directly in it, and knows the scopes
around it.  An entry holds what linking needs to know of a declaration.  `PlacedDecl.scopes` and
`PlacedDecl.entries` list those of a placed declaration in the order of their numbers.
-/

namespace SchemaLang

/-! ## Scopes -/

/-- What an alias stands for. -/
inductive AliasTarget where
  | path (p : Path)
  | imported (source : ImportPath) (path : List Ident)
deriving DecidableEq

/-- The names that are bound in one place.  `enclosing` lists the scopes around it, the innermost
first. -/
structure Scope where
  module : ModuleId
  enclosing : List ScopeId
  names : List (String × DeclId)
  aliases : List (String × AliasTarget)

namespace Scope

/-- The declaration that a name is bound to. -/
def name? (s : Scope) (name : String) : Option DeclId := s.names.lookup name

/-- The target of the alias that a name is bound to. -/
def alias? (s : Scope) (name : String) : Option AliasTarget := s.aliases.lookup name

end Scope

/-! ## Bindings -/

namespace PlacedDecl

/-- The declaration's id and its name. -/
def declared? : PlacedDecl → Option (DeclId × Ident)
  | .const id d => some (id, d.name)
  | .struct id _ head _ => some (id, head.name)
  | .enum id d => some (id, d.name)
  | .interface id _ head _ _ => some (id, head.name)
  | .annotationDecl id d => some (id, d.name)
  | .pathAlias _ | .importAlias _ => none

/-- The name that an alias binds, and its target. -/
def aliased? : PlacedDecl → Option (Ident × AliasTarget)
  | .pathAlias a => a.binding.map fun name => (name, .path a.target)
  | .importAlias a => a.binding.map fun name => (name, .imported a.source a.path)
  | _ => none

end PlacedDecl

namespace PlacedMember

/-- The member's id and its name, if it declares one. -/
def declared? : PlacedMember → Option (DeclId × Ident)
  | .union id _ head _ _ => some (id, head.name)
  | .group id _ head _ => some (id, head.name)
  | .decl d => d.declared?
  | .field _ | .anonymousUnion _ _ _ _ => none

/-- The name that an alias among the members binds, and its target. -/
def aliased? : PlacedMember → Option (Ident × AliasTarget)
  | .decl d => d.aliased?
  | _ => none

end PlacedMember

namespace PlacedInterfaceMember

/-- The declaration among the items of an interface. -/
def decl? : PlacedInterfaceMember → Option PlacedDecl
  | .method _ => none
  | .decl d => some d

/-- The method among the items of an interface. -/
def method? : PlacedInterfaceMember → Option Method
  | .method m => some m
  | .decl _ => none

/-- The item's id and its name, if it declares one. -/
def declared? (m : PlacedInterfaceMember) : Option (DeclId × Ident) :=
  m.decl?.bind PlacedDecl.declared?

/-- The name that an alias among the items binds, and its target. -/
def aliased? (m : PlacedInterfaceMember) : Option (Ident × AliasTarget) :=
  m.decl?.bind PlacedDecl.aliased?

end PlacedInterfaceMember

/-- The scope of a module that binds the names `declared` and `aliased`. -/
def Scope.binding (module : ModuleId) (enclosing : List ScopeId)
    (declared : List (DeclId × Ident)) (aliased : List (Ident × AliasTarget)) : Scope where
  module := module
  enclosing := enclosing
  names := declared.map fun (id, name) => (name.name, id)
  aliases := aliased.map fun (name, target) => (name.name, target)

/-! ## The scopes of a declaration -/

section Scopes

variable (module : ModuleId)

mutual

/-- The scopes that a declaration opens, given those around it. -/
def PlacedDecl.scopes (enclosing : List ScopeId) : PlacedDecl → List Scope
  | .struct _ body _ ms =>
    .binding module enclosing (ms.filterMap (·.declared?)) (ms.filterMap (·.aliased?)) ::
      memberScopes (body :: enclosing) ms
  | .interface _ body _ _ ms =>
    .binding module enclosing (ms.filterMap (·.declared?)) (ms.filterMap (·.aliased?)) ::
      interfaceMemberScopes (body :: enclosing) ms
  | _ => []

/-- The scopes that a member opens. -/
def PlacedMember.scopes (enclosing : List ScopeId) : PlacedMember → List Scope
  | .field _ => []
  | .union _ body _ _ ms =>
    .binding module enclosing (ms.filterMap (·.declared?)) (ms.filterMap (·.aliased?)) ::
      memberScopes (body :: enclosing) ms
  | .anonymousUnion body _ _ ms =>
    .binding module enclosing (ms.filterMap (·.declared?)) (ms.filterMap (·.aliased?)) ::
      memberScopes (body :: enclosing) ms
  | .group _ body _ ms =>
    .binding module enclosing (ms.filterMap (·.declared?)) (ms.filterMap (·.aliased?)) ::
      memberScopes (body :: enclosing) ms
  | .decl d => d.scopes enclosing

/-- The scopes that the members of a body open. -/
def memberScopes (enclosing : List ScopeId) : List PlacedMember → List Scope
  | [] => []
  | m :: ms => m.scopes enclosing ++ memberScopes enclosing ms

/-- The scopes that an item of an interface opens. -/
def PlacedInterfaceMember.scopes (enclosing : List ScopeId) : PlacedInterfaceMember → List Scope
  | .method _ => []
  | .decl d => d.scopes enclosing

/-- The scopes that the items of an interface open. -/
def interfaceMemberScopes (enclosing : List ScopeId) : List PlacedInterfaceMember → List Scope
  | [] => []
  | m :: ms => m.scopes enclosing ++ interfaceMemberScopes enclosing ms

end

/-- The scopes of a file: its own, numbered `scope`, and those of its declarations. -/
def fileScopes (scope : ScopeId) (ds : List PlacedDecl) : List Scope :=
  .binding module [] (ds.filterMap (·.declared?)) (ds.filterMap (·.aliased?)) ::
    ds.flatMap fun d => d.scopes module [scope]

end Scopes

/-! ## Entries -/

/-- What a field of a struct literal sets: a field with a type written in some scope, or a named
union or group. -/
inductive FieldContent where
  | typed (type : TypeRef) (scope : ScopeId)
  | nested (id : DeclId)

/-- A field as a struct literal sees it. -/
structure FieldEntry where
  name : String
  content : FieldContent

/-- What linking needs to know of a declaration, by its kind. -/
inductive EntryContent where
  | const
  | struct (body : ScopeId) (fields : List FieldEntry)
  | enum (enumerants : List (String × Nat))
  | interface (body : ScopeId) (bases : List TypeRef) (methods : List (String × Nat))
  | annotationDecl (targets : List Target) (type : TypeRef)
  | union (body : ScopeId) (fields : List FieldEntry)
  | group (body : ScopeId) (fields : List FieldEntry)

namespace EntryContent

/-- The kind of declaration. -/
def kind : EntryContent → DeclKind
  | .const => .const
  | .struct _ _ => .struct
  | .enum _ => .enum
  | .interface _ _ _ => .interface
  | .annotationDecl _ _ => .annotationDecl
  | .union _ _ => .union
  | .group _ _ => .group

/-- The scope of the body. -/
def body? : EntryContent → Option ScopeId
  | .struct body _ => some body
  | .interface body _ _ => some body
  | .union body _ => some body
  | .group body _ => some body
  | _ => none

/-- The fields that a struct literal may set. -/
def fields? : EntryContent → Option (List FieldEntry)
  | .struct _ fields => some fields
  | .union _ fields => some fields
  | .group _ fields => some fields
  | _ => none

end EntryContent

/-- A declaration as linking sees it.  `home` is the scope in which its name is bound. -/
structure Entry where
  module : ModuleId
  parent : Option DeclId
  home : ScopeId
  name : Ident
  content : EntryContent

/-- The entry without what only linking needs. -/
def Entry.info (e : Entry) : DeclInfo := ⟨e.module, e.name.name, e.parent, e.content.kind⟩

mutual

/-- The fields that a member in the scope `home` adds to a struct literal.  The fields of an
anonymous union count as those of the body around it. -/
def PlacedMember.fieldEntries (home : ScopeId) : PlacedMember → List FieldEntry
  | .field f => [⟨f.name.name, .typed f.type home⟩]
  | .union id _ head _ _ => [⟨head.name.name, .nested id⟩]
  | .anonymousUnion body _ _ ms => memberFieldEntries body ms
  | .group id _ head _ => [⟨head.name.name, .nested id⟩]
  | .decl _ => []

/-- The fields that a struct literal for a body may set. -/
def memberFieldEntries (home : ScopeId) : List PlacedMember → List FieldEntry
  | [] => []
  | m :: ms => m.fieldEntries home ++ memberFieldEntries home ms

end

section Entries

variable (module : ModuleId)

mutual

/-- The entries of a declaration that stands in the scope `home` inside `parent`. -/
def PlacedDecl.entries (parent : Option DeclId) (home : ScopeId) : PlacedDecl → List Entry
  | .const _ d => [⟨module, parent, home, d.name, .const⟩]
  | .struct id body head ms =>
    ⟨module, parent, home, head.name, .struct body (memberFieldEntries body ms)⟩ ::
      memberEntries (some id) body ms
  | .enum _ d =>
    [⟨module, parent, home, d.name,
      .enum (d.enumerants.map fun e => (e.name.name, e.ordinal.value))⟩]
  | .interface id body head bases ms =>
    ⟨module, parent, home, head.name, .interface body bases
      ((ms.filterMap (·.method?)).map fun m => (m.name.name, m.ordinal.value))⟩ ::
      interfaceMemberEntries (some id) body ms
  | .annotationDecl _ d =>
    [⟨module, parent, home, d.name, .annotationDecl (d.targets.map Prod.snd) d.type⟩]
  | .pathAlias _ | .importAlias _ => []

/-- The entries of a member. -/
def PlacedMember.entries (parent : Option DeclId) (home : ScopeId) : PlacedMember → List Entry
  | .field _ => []
  | .union id body head _ ms =>
    ⟨module, parent, home, head.name, .union body (memberFieldEntries body ms)⟩ ::
      memberEntries (some id) body ms
  | .anonymousUnion body _ _ ms => memberEntries parent body ms
  | .group id body head ms =>
    ⟨module, parent, home, head.name, .group body (memberFieldEntries body ms)⟩ ::
      memberEntries (some id) body ms
  | .decl d => d.entries parent home

/-- The entries of the members of a body. -/
def memberEntries (parent : Option DeclId) (home : ScopeId) : List PlacedMember → List Entry
  | [] => []
  | m :: ms => m.entries parent home ++ memberEntries parent home ms

/-- The entries of an item of an interface. -/
def PlacedInterfaceMember.entries (parent : Option DeclId) (home : ScopeId) :
    PlacedInterfaceMember → List Entry
  | .method _ => []
  | .decl d => d.entries parent home

/-- The entries of the items of an interface. -/
def interfaceMemberEntries (parent : Option DeclId) (home : ScopeId) :
    List PlacedInterfaceMember → List Entry
  | [] => []
  | m :: ms => m.entries parent home ++ interfaceMemberEntries parent home ms

end

/-- The entries of a file whose scope is `scope`. -/
def fileEntries (scope : ScopeId) (ds : List PlacedDecl) : List Entry :=
  ds.flatMap fun d => d.entries module none scope

end Entries

end SchemaLang
