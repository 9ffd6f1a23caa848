import SchemaLang.Tree

/-!
# Placed modules

Placing a module gives every declaration an id and every body a scope.  Both are numbered in the
order in which they begin in the source, so that a declaration comes before those nested in it.
Named unions and groups count as declarations; the `using` forms and anonymous unions do not, but
an anonymous union has a scope.  `Decl.place` and its companions take the next free numbers and
give those that follow.
-/

namespace SchemaLang

/-- The number of a module of a run, in the order of loading. -/
abbrev ModuleId := Nat

/-- The number of a declaration among those of all modules. -/
abbrev DeclId := Nat

/-- The number of a scope among those of all modules. -/
abbrev ScopeId := Nat

mutual

/-- A declaration with its id and, if it has a body, the body's scope. -/
inductive PlacedDecl where
  | const (id : DeclId) (d : Const)
  | struct (id : DeclId) (body : ScopeId) (head : Head) (members : List PlacedMember)
  | enum (id : DeclId) (d : Enum)
  | interface (id : DeclId) (body : ScopeId) (head : Head) (bases : List TypeRef)
      (members : List PlacedInterfaceMember)
  | annotationDecl (id : DeclId) (d : AnnotationDecl)
  | pathAlias (a : Alias)
  | importAlias (a : ImportAlias)

/-- A member with its id and scope, as far as it has them. -/
inductive PlacedMember where
  | field (f : Field)
  | union (id : DeclId) (body : ScopeId) (head : Head) (ordinal : Option Ordinal)
      (members : List PlacedMember)
  | anonymousUnion (body : ScopeId) (span : Span) (annotations : List Application)
      (members : List PlacedMember)
  | group (id : DeclId) (body : ScopeId) (head : Head) (members : List PlacedMember)
  | decl (d : PlacedDecl)

/-- An item in the body of a placed interface. -/
inductive PlacedInterfaceMember where
  | method (m : Method)
  | decl (d : PlacedDecl)

end

/-- The next free numbers. -/
structure Supply where
  decl : DeclId
  scope : ScopeId
deriving DecidableEq

namespace Supply

/-- The numbers that are free after a declaration without a body. -/
def afterDecl (s : Supply) : Supply := { s with decl := s.decl + 1 }

/-- The numbers that are free after a scope. -/
def afterScope (s : Supply) : Supply := { s with scope := s.scope + 1 }

end Supply

mutual

/-- Places a declaration. -/
def placeDecl (next : Supply) : Decl → PlacedDecl × Supply
  | .const d => (.const next.decl d, next.afterDecl)
  | .struct head ms =>
    let (ms, rest) := placeMembers next.afterDecl.afterScope ms
    (.struct next.decl next.scope head ms, rest)
  | .enum d => (.enum next.decl d, next.afterDecl)
  | .interface head bases ms =>
    let (ms, rest) := placeInterfaceMembers next.afterDecl.afterScope ms
    (.interface next.decl next.scope head bases ms, rest)
  | .annotationDecl d => (.annotationDecl next.decl d, next.afterDecl)
  | .pathAlias a => (.pathAlias a, next)
  | .importAlias a => (.importAlias a, next)

/-- Places a member. -/
def placeMember (next : Supply) : Member → PlacedMember × Supply
  | .field f => (.field f, next)
  | .union head ordinal ms =>
    let (ms, rest) := placeMembers next.afterDecl.afterScope ms
    (.union next.decl next.scope head ordinal ms, rest)
  | .anonymousUnion span annotations ms =>
    let (ms, rest) := placeMembers next.afterScope ms
    (.anonymousUnion next.scope span annotations ms, rest)
  | .group head ms =>
    let (ms, rest) := placeMembers next.afterDecl.afterScope ms
    (.group next.decl next.scope head ms, rest)
  | .decl d =>
    let (d, rest) := placeDecl next d
    (.decl d, rest)

/-- Places the members of a body. -/
def placeMembers (next : Supply) : List Member → List PlacedMember × Supply
  | [] => ([], next)
  | m :: ms =>
    let (m, next) := placeMember next m
    let (ms, rest) := placeMembers next ms
    (m :: ms, rest)

/-- Places an item of an interface. -/
def placeInterfaceMember (next : Supply) : InterfaceMember → PlacedInterfaceMember × Supply
  | .method m => (.method m, next)
  | .decl d =>
    let (d, rest) := placeDecl next d
    (.decl d, rest)

/-- Places the items of an interface. -/
def placeInterfaceMembers (next : Supply) :
    List InterfaceMember → List PlacedInterfaceMember × Supply
  | [] => ([], next)
  | m :: ms =>
    let (m, next) := placeInterfaceMember next m
    let (ms, rest) := placeInterfaceMembers next ms
    (m :: ms, rest)

end

/-- Places the declarations of a file. -/
def placeDecls (next : Supply) : List Decl → List PlacedDecl × Supply
  | [] => ([], next)
  | d :: ds =>
    let (d, next) := placeDecl next d
    let (ds, rest) := placeDecls next ds
    (d :: ds, rest)

end SchemaLang
