import Mathlib.Logic.Relation
import SchemaLang.Proofs.Grammar.Decls

/-!
# The nodes of a module

Everything in a module that has a span is a `SyntaxNode`.  `children` lists the nodes that a node
consists of, in the order in which they are written, and `Phrase` gives the lexemes that make up a
node by the rules of the grammar.
-/

namespace SchemaLang

open Grammar

/-- The bytes of a member. -/
def Member.span : Member → Span
  | .field f => f.span
  | .union head _ _ => head.span
  | .anonymousUnion span _ _ => span
  | .group head _ => head.span
  | .decl d => d.span

/-- The bytes of an item of an interface. -/
def InterfaceMember.span : InterfaceMember → Span
  | .method m => m.span
  | .decl d => d.span

/-- A part of a module that has a span. -/
inductive SyntaxNode where
  | fileId (id : FileId)
  | ident (i : Ident)
  | path (p : Path)
  | importPath (i : ImportPath)
  | ordinal (o : Ordinal)
  | type (t : TypeRef)
  | literal (l : Literal)
  | application (a : Application)
  | target (t : Span × Target)
  | enumerant (e : Enumerant)
  | param (p : Param)
  | decl (d : Decl)
  | member (m : Member)
  | interfaceMember (m : InterfaceMember)

namespace SyntaxNode

/-- The bytes of a node. -/
def span : SyntaxNode → Span
  | .fileId id => id.span
  | .ident i => i.span
  | .path p => p.span
  | .importPath i => i.span
  | .ordinal o => o.span
  | .type t => t.span
  | .literal l => l.span
  | .application a => a.span
  | .target t => t.1
  | .enumerant e => e.span
  | .param p => p.span
  | .decl d => d.span
  | .member m => m.span
  | .interfaceMember m => m.span

/-! ## Children -/

def ofFieldInit (f : Ident × Literal) : List SyntaxNode := [.ident f.1, .literal f.2]

/-- What is written for a parameter.  Its default and its annotations stand behind its span. -/
def ofParam (p : Param) : List SyntaxNode :=
  .param p :: (p.default.toList.map .literal ++ p.annotations.map .application)

def ofTypeRef : TypeRef → List SyntaxNode
  | .named p => [.path p]
  | .list _ element => [.type element]
  | .imported _ source segments => .importPath source :: segments.map .ident

def ofLiteral : Literal → List SyntaxNode
  | .name p => [.path p]
  | .list _ items => items.map .literal
  | .struct _ fields => fields.flatMap ofFieldInit
  | _ => []

def ofDecl : Decl → List SyntaxNode
  | .const d => .ident d.name :: .type d.type :: .literal d.value :: d.annotations.map .application
  | .struct head ms => .ident head.name :: (head.annotations.map .application ++ ms.map .member)
  | .enum d =>
    .ident d.name :: (d.annotations.map .application ++ d.enumerants.map .enumerant)
  | .interface head bases ms => .ident head.name :: (bases.map .type ++
      (head.annotations.map .application ++ ms.map .interfaceMember))
  | .annotationDecl d =>
    .ident d.name :: (d.targets.map .target ++ .type d.type :: d.annotations.map .application)
  | .pathAlias a => a.name.toList.map .ident ++ [.path a.target]
  | .importAlias a => a.name.toList.map .ident ++ .importPath a.source :: a.path.map .ident

def ofMember : Member → List SyntaxNode
  | .field f => .ident f.name :: .ordinal f.ordinal :: .type f.type ::
      (f.default.toList.map .literal ++ f.annotations.map .application)
  | .union head o ms => .ident head.name :: (o.toList.map .ordinal ++
      (head.annotations.map .application ++ ms.map .member))
  | .anonymousUnion _ annotations ms => annotations.map .application ++ ms.map .member
  | .group head ms => .ident head.name :: (head.annotations.map .application ++ ms.map .member)
  | .decl d => [.decl d]

def ofInterfaceMember : InterfaceMember → List SyntaxNode
  | .method m => .ident m.name :: .ordinal m.ordinal :: (m.params.flatMap ofParam ++
      (m.results.toList.flatMap (List.flatMap ofParam) ++ m.annotations.map .application))
  | .decl d => [.decl d]

/-- The nodes that a node consists of, in source order. -/
def children : SyntaxNode → List SyntaxNode
  | .fileId _ | .ident _ | .importPath _ | .ordinal _ | .target _ => []
  | .path p => p.segments.map .ident
  | .type t => ofTypeRef t
  | .literal l => ofLiteral l
  | .application a => .path a.name :: a.value.toList.map .literal
  | .enumerant e => .ident e.name :: .ordinal e.ordinal :: e.annotations.map .application
  | .param p => [.ident p.name, .type p.type]
  | .decl d => ofDecl d
  | .member m => ofMember m
  | .interfaceMember m => ofInterfaceMember m

/-! ## Phrases -/

/-- The lexemes make up the node.  The void literal may also be the empty parentheses after the
name of an annotation, and a parameter goes from its name to its type. -/
def Phrase (ls : List Lexeme) : SyntaxNode → Prop
  | .fileId id => ∃ start s number stop n,
      ls = [.mark .atSign start, .number s number, .mark .semicolon stop] ∧
      (NumericType.int ⟨false, .w64⟩).decode s.toList = .ok (.int n) ∧ id.value = n.toNat
  | .ident i => ls = [i.lexeme]
  | .path p => IsPath ls p
  | .importPath i => ∃ raw,
      ls = [.text raw i.span] ∧ Escape.decode raw.toList = .ok i.path.toList
  | .ordinal o => IsOrdinal ls o
  | .type t => IsType ls t
  | .literal l => IsLiteral ls l ∨ ∃ opening closing,
      ls = [.mark .openParen opening, .mark .closeParen closing] ∧
      l = .void (opening.cover closing)
  | .application a => IsApplication ls a
  | .target t => IsTarget ls t
  | .enumerant e => IsEnumerant ls e
  | .param p => ∃ colon tys,
      ls = p.name.lexeme :: .mark .colon colon :: tys ∧ IsType tys p.type
  | .decl d => IsDecl ls d
  | .member m => IsMember ls m
  | .interfaceMember m => IsInterfaceMember ls m

end SyntaxNode

/-- The nodes of a module that are no parts of others: its id, its annotations and its
declarations. -/
def Module.roots (m : Module) : List SyntaxNode :=
  .fileId m.id :: (m.annotations.map .application ++ m.decls.map .decl)

/-- The node occurs in the module: it can be reached from one of the roots. -/
def Module.Contains (m : Module) (n : SyntaxNode) : Prop :=
  ∃ root ∈ m.roots, Relation.ReflTransGen (fun n c => c ∈ n.children) root n

end SchemaLang
