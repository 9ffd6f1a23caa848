import SchemaLang.Scope.Table

/-!
# Clashes

No name may be bound twice in one scope, and no ordinal used twice in one numbering space.  A
struct is such a space together with its unions and groups, and so are an enum and the methods of an
interface.  `PlacedDecl.uses` lists every use of a name or ordinal in the order in which the uses are
checked, which is that of the source, except that the enumerants of an enum come before its name;
the first use with an earlier one of the same key is the clash that is reported.
-/

namespace SchemaLang

/-- A use of a name in a scope, or of an ordinal in the numbering space of a declaration. -/
inductive Use where
  | name (scope : ScopeId) (i : Ident)
  | ordinal (space : DeclId) (o : Ordinal)
deriving DecidableEq

namespace Use

/-- The bytes of the name or ordinal. -/
def span : Use → Span
  | .name _ i => i.span
  | .ordinal _ o => o.span

/-- Two uses of the same name in one scope, or of the same ordinal in one space. -/
def sameKey : Use → Use → Bool
  | .name s a, .name t b => s = t && a.name = b.name
  | .ordinal s a, .ordinal t b => s = t && a.value = b.value
  | _, _ => false

end Use

/-! ## Uses -/

section Uses

mutual

/-- The uses in a declaration that stands in the scope `home`. -/
def PlacedDecl.uses (home : ScopeId) : PlacedDecl → List Use
  | .const _ d => [.name home d.name]
  | .struct id body head ms => .name home head.name :: memberUses id body ms
  | .enum id d => d.enumerants.map (.ordinal id ·.ordinal) ++ [.name home d.name]
  | .interface id body head _ ms => .name home head.name :: interfaceMemberUses id body ms
  | .annotationDecl _ d => [.name home d.name]
  | .pathAlias a => a.binding.toList.map (.name home)
  | .importAlias a => a.binding.toList.map (.name home)

/-- The uses in a member of the numbering space `space`. -/
def PlacedMember.uses (space : DeclId) (home : ScopeId) : PlacedMember → List Use
  | .field f => [.ordinal space f.ordinal]
  | .union _ body head ordinal ms =>
    ordinal.toList.map (.ordinal space) ++ .name home head.name :: memberUses space body ms
  | .anonymousUnion body _ _ ms => memberUses space body ms
  | .group _ body head ms => .name home head.name :: memberUses space body ms
  | .decl d => d.uses home

/-- The uses in the members of a body. -/
def memberUses (space : DeclId) (home : ScopeId) : List PlacedMember → List Use
  | [] => []
  | m :: ms => m.uses space home ++ memberUses space home ms

/-- The uses in an item of an interface. -/
def PlacedInterfaceMember.uses (space : DeclId) (home : ScopeId) :
    PlacedInterfaceMember → List Use
  | .method m => [.ordinal space m.ordinal]
  | .decl d => d.uses home

/-- The uses in the items of an interface. -/
def interfaceMemberUses (space : DeclId) (home : ScopeId) :
    List PlacedInterfaceMember → List Use
  | [] => []
  | m :: ms => m.uses space home ++ interfaceMemberUses space home ms

end

/-- The uses in a file whose scope is `scope`. -/
def fileUses (scope : ScopeId) (ds : List PlacedDecl) : List Use :=
  ds.flatMap fun d => d.uses scope

end Uses

/-! ## The first clash -/

/-- Two uses that clash. -/
structure Clash where
  first : Use
  again : Use
deriving DecidableEq

/-- The first use that clashes with one before it; `earlier` holds those before, the last one
first. -/
def firstClashAfter (earlier : List Use) : List Use → Option Clash
  | [] => none
  | u :: us =>
    match earlier.find? (·.sameKey u) with
    | some first => some ⟨first, u⟩
    | none => firstClashAfter (u :: earlier) us

/-- The first use that clashes with an earlier one. -/
def firstClash? (us : List Use) : Option Clash := firstClashAfter [] us

end SchemaLang
