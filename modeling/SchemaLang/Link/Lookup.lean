import SchemaLang.Import.Load
import SchemaLang.Schema

/-!
# What a name is bound to

The first segment of a dotted name is looked up in the scope where the name is written and then
outwards; in each scope an alias comes before a declaration, and the builtin types come after all
scopes.  Every further segment is looked up in the body or file that the segments before it lead to.
A name that is not found stays unresolved, but one that is looked up in an imported module must be
there.

An alias is hidden while its own target is looked up, so that `using Foo;` means the `Foo` further
out and a cycle of aliases ends.  Nested in one another, no two lookups follow the same alias, so
the number of aliases bounds how deep they nest.
-/

namespace SchemaLang

/-- What a name is bound to. -/
inductive Binding where
  | decl (id : DeclId)
  | module (id : ModuleId)
  | builtin (b : Builtin)
  | unresolved
deriving DecidableEq

/-- A step of linking. -/
abbrev Link := Except SchemaError

namespace Loaded

variable (l : Loaded)

/-- The path of the module that a scope belongs to. -/
def pathOf (scope : ScopeId) : String :=
  ((l.scopes[scope]?.bind fun s => l.modules[s.module]?).map (·.path)).getD ""

/-- The content of a declaration. -/
def content? (id : DeclId) : Option EntryContent := l.entries[id]?.map (·.content)

/-- A declaration is of a kind. -/
def hasKind (id : DeclId) (kind : DeclKind) : Bool := (l.content? id).map (·.kind) = some kind

/-- The dotted name of a declaration. -/
def nameOf (id : DeclId) : String := qualifiedName (l.entries.map Entry.info) id

/-- Stops with an error at a place in the module of a scope. -/
def fail {α : Type} (scope : ScopeId) (span : Span) (cause : LinkCause) : Link α :=
  .error (.linking ⟨l.pathOf scope, span, cause⟩)

/-- The declaration that a name is bound to in a scope. -/
def declared (scope : ScopeId) (name : String) : Option Binding :=
  (l.scopes[scope]?.bind (·.name? name)).map .decl

/-! ## Dotted names, given the lookup in one scope -/

section Given

variable (lookup : ScopeId → String → Link (Option Binding))

/-- Looks a name up in scopes from the innermost on. -/
def lookupOutwards (name : String) : List ScopeId → Link (Option Binding)
  | [] => .ok none
  | s :: scopes => do
    match ← lookup s name with
    | some b => .ok (some b)
    | none => lookupOutwards name scopes

/-- Looks a name up in a scope and in those around it. -/
def lookupLexical (scope : ScopeId) (name : String) : Link (Option Binding) :=
  lookupOutwards lookup name
    (scope :: ((l.scopes[scope]?.map (·.enclosing)).getD []))

/-- Looks a name up in the body of a declaration or in a file. -/
def lookupInside (scope : Option ScopeId) (name : String) : Link (Option Binding) :=
  match scope with
  | some s => lookup s name
  | none => .ok none

/-- Stops because a segment, written in the scope `site`, is not in an imported module. -/
def notFoundIn (site : ScopeId) (i : Ident) (module : Option ModuleId) : Link Binding :=
  let source := (module.bind fun id => l.modules[id]?.map (·.path)).getD ""
  l.fail site i.span (.importedNameNotFound i.name source)

/-- Follows segments, written in the scope `site`, into what a binding leads to.  When `strict` is
set, and from a module on, every segment must be found. -/
def followWith (site : ScopeId) : Bool → Binding → List Ident → Link Binding
  | _, b, [] => .ok b
  | _, .builtin _, _ :: _ => .ok .unresolved
  | _, .unresolved, _ :: _ => .ok .unresolved
  | strict, .decl id, i :: is => do
    match ← lookupInside lookup ((l.content? id).bind (·.body?)) i.name with
    | some b => followWith site strict b is
    | none =>
      if strict then l.notFoundIn site i (l.entries[id]?.map (·.module)) else .ok .unresolved
  | _, .module id, i :: is => do
    match ← lookupInside lookup (l.modules[id]?.map (·.scope)) i.name with
    | some b => followWith site true b is
    | none => l.notFoundIn site i (some id)

/-- The binding of a dotted name written in a scope. -/
def pathWith (scope : ScopeId) (p : Path) : Link Binding :=
  match p.segments with
  | [] => .ok .unresolved
  | first :: rest => do
    match ← l.lookupLexical lookup scope first.name with
    | some b => l.followWith lookup scope false b rest
    | none =>
      match Builtin.ofName? first.name, rest with
      | some b, [] => .ok (.builtin b)
      | _, _ => .ok .unresolved

/-- The module of an import that is written in the scope `site`. -/
def importedModule (site : ScopeId) (source : ImportPath) : Link ModuleId :=
  match l.moduleOf? source.path with
  | some id => .ok id
  | none => .error (.importing ⟨l.pathOf site, source.span, source.path, .notFound⟩)

/-- The binding of segments in an imported module. -/
def importedWith (site : ScopeId) (source : ImportPath) (segments : List Ident) : Link Binding := do
  l.followWith lookup site true (.module (← l.importedModule site source)) segments

/-- The binding of an alias's target. -/
def targetWith (scope : ScopeId) : AliasTarget → Link Binding
  | .path p => l.pathWith lookup scope p
  | .imported source segments => l.importedWith lookup scope source segments

end Given

/-! ## Lookup in one scope -/

/-- The number of aliases in all scopes. -/
def aliasCount : Nat := l.scopes.foldl (fun n s => n + s.aliases.length) 0

/-- Looks a name up in one scope when the aliases in `hidden` are being followed and at most
`bound` more may be. -/
def lookupBounded : (bound : Nat) → List (ScopeId × String) → ScopeId → String →
    Link (Option Binding)
  | 0, _, scope, name => .ok (l.declared scope name)
  | bound + 1, hidden, scope, name =>
    match l.scopes[scope]?.bind (·.alias? name) with
    | some target =>
      if (scope, name) ∈ hidden then .ok (l.declared scope name)
      else some <$> l.targetWith (lookupBounded bound ((scope, name) :: hidden)) scope target
    | none => .ok (l.declared scope name)

/-- Looks a name up in one scope while the aliases in `hidden` are hidden. -/
def lookupHiding (hidden : List (ScopeId × String)) : ScopeId → String → Link (Option Binding) :=
  l.lookupBounded l.aliasCount hidden

/-! ## Dotted names -/

/-- The binding of a dotted name written in a scope. -/
def resolvePath (scope : ScopeId) (p : Path) : Link Binding :=
  l.pathWith (l.lookupHiding []) scope p

/-- The binding of segments in an imported module. -/
def resolveImported (site : ScopeId) (source : ImportPath) (segments : List Ident) : Link Binding :=
  l.importedWith (l.lookupHiding []) site source segments

/-- The binding of the target of the alias `name` in a scope. -/
def resolveTarget (scope : ScopeId) (name : String) (target : AliasTarget) : Link Binding :=
  l.targetWith (l.lookupHiding [(scope, name)]) scope target

end Loaded

/-- The reference to a binding; `p` is the name as written. -/
def Binding.reference (p : Path) : Binding → Reference
  | .decl id => .decl id
  | .module id => .module id
  | .builtin b => .builtin b
  | .unresolved => .unresolved p

end SchemaLang
