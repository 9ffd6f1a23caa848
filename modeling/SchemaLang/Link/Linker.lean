import SchemaLang.Link.Values

/-!
# Linking modules

Once every module is loaded, each is linked in the order of loading.  Linking stops at the first
error, so the order within a module counts: a type comes before its literal and both before
annotations, a head before its body, enumerants before the annotations of their enum, and the results
of a method before its parameters.  `resolve` loads and links a module and tells which import paths
were asked for, whether it succeeds or not.
-/

namespace SchemaLang

namespace Loaded

variable (l : Loaded)

/-! ## Annotations -/

/-- An annotation with these targets may be applied to a node of the kind `target`. -/
def applies (targets : List Target) (target : Target) : Bool :=
  targets.any fun t => t = target || t = .any

/-- The value of an annotation whose type is written in the scope `home`. -/
def argumentValue (scope home : ScopeId) (type : TypeRef) : Option Literal → Link (Option Value)
  | none => .ok none
  | some literal => do
    let t ← l.resolveType home type
    some <$> l.eval scope t literal

/-- Links an annotation that is applied to a node of the kind `target` in a scope. -/
def linkApplication (scope : ScopeId) (target : Target) (a : Application) :
    Link LinkedApplication := do
  match ← l.resolvePath scope a.name with
  | .decl id =>
    match l.entries[id]? with
    | some ⟨_, _, home, _, .annotationDecl targets type⟩ =>
      if applies targets target then
        let value ← l.argumentValue scope home type a.value
        return ⟨a.name, .decl id, value⟩
      else l.fail scope a.span (.targetMismatch a.name.text target)
    | _ => l.fail scope a.name.span (.notAnAnnotationDecl a.name.text)
  | .unresolved => return ⟨a.name, .unresolved a.name, a.value.map .deferred⟩
  | .module _ | .builtin _ => l.fail scope a.name.span (.notAnAnnotationDecl a.name.text)

/-- Links the annotations that are applied to a node. -/
def linkApplications (scope : ScopeId) (target : Target) (as : List Application) :
    Link (List LinkedApplication) :=
  as.mapM (l.linkApplication scope target)

/-! ## Parts of declarations -/

/-- The value of a default, if there is one. -/
def defaultValue (scope : ScopeId) (t : SchemaType) : Option Literal → Link (Option Value)
  | none => .ok none
  | some literal => some <$> l.eval scope t literal

/-- Links a field. -/
def linkField (scope : ScopeId) (f : Field) : Link LinkedField := do
  let type ← l.resolveType scope f.type
  let default ← l.defaultValue scope type f.default
  let annotations ← l.linkApplications scope .field f.annotations
  return ⟨f.name.name, f.ordinal.value, type, default, annotations⟩

/-- Links a parameter or a result. -/
def linkParam (scope : ScopeId) (p : Param) : Link LinkedParam := do
  let type ← l.resolveType scope p.type
  let default ← l.defaultValue scope type p.default
  let annotations ← l.linkApplications scope .param p.annotations
  return ⟨p.name.name, type, default, annotations⟩

/-- Links the results of a method, if it has an arrow. -/
def linkResults (scope : ScopeId) : Option (List Param) → Link (Option (List LinkedParam))
  | none => .ok none
  | some ps => some <$> ps.mapM (l.linkParam scope)

/-- Links a method. -/
def linkMethod (scope : ScopeId) (m : Method) : Link LinkedMethod := do
  let results ← l.linkResults scope m.results
  let params ← m.params.mapM (l.linkParam scope)
  let annotations ← l.linkApplications scope .method m.annotations
  return ⟨m.name.name, m.ordinal.value, params, results, annotations⟩

/-- Links an enumerant. -/
def linkEnumerant (scope : ScopeId) (e : Enumerant) : Link LinkedEnumerant := do
  let annotations ← l.linkApplications scope .enumerant e.annotations
  return ⟨e.name.name, e.ordinal.value, annotations⟩

/-- Links a constant. -/
def linkConst (scope : ScopeId) (id : DeclId) (d : Const) : Link LinkedConst := do
  let type ← l.resolveType scope d.type
  let value ← l.eval scope type d.value
  let annotations ← l.linkApplications scope .const d.annotations
  return ⟨id, d.name.name, type, value, annotations⟩

/-- Links an enum. -/
def linkEnum (scope : ScopeId) (id : DeclId) (d : Enum) : Link LinkedEnum := do
  let enumerants ← d.enumerants.mapM (l.linkEnumerant scope)
  let annotations ← l.linkApplications scope .enum d.annotations
  return ⟨id, d.name.name, annotations, enumerants⟩

/-- Links the declaration of an annotation. -/
def linkAnnotationDecl (scope : ScopeId) (id : DeclId) (d : AnnotationDecl) :
    Link LinkedAnnotationDecl := do
  let type ← l.resolveType scope d.type
  let annotations ← l.linkApplications scope .annotationDecl d.annotations
  return ⟨id, d.name.name, d.targets.map Prod.snd, type, annotations⟩

/-- Links an alias.  One that binds no name goes by its target. -/
def linkAlias (scope : ScopeId) (a : Alias) : Link LinkedDecl := do
  let name := (a.binding.map Ident.name).getD a.target.text
  let b ← l.resolveTarget scope name (.path a.target)
  return .pathAlias name (b.reference a.target)

/-- Links an import. -/
def linkImportAlias (scope : ScopeId) (a : ImportAlias) : Link LinkedDecl := do
  let module ← l.importedModule scope a.source
  let b ← match a.binding with
    | some i => l.resolveTarget scope i.name (.imported a.source a.path)
    | none => l.resolveImported scope a.source a.path
  return .importAlias (a.binding.map Ident.name) module (b.reference ⟨a.span, a.path⟩)

/-- Links what a declaration or member with a body has besides it. -/
def linkHead (scope : ScopeId) (target : Target) (id : DeclId) (head : Head) :
    Link LinkedHead := do
  let annotations ← l.linkApplications scope target head.annotations
  return ⟨id, head.name.name, annotations⟩

/-! ## Declarations and members -/

mutual

/-- Links a declaration that stands in a scope. -/
def linkDecl (scope : ScopeId) : PlacedDecl → Link LinkedDecl
  | .const id d => .const <$> l.linkConst scope id d
  | .struct id body head ms => do
    let head ← l.linkHead scope .struct id head
    return .struct head (← linkMembers body ms)
  | .enum id d => .enum <$> l.linkEnum scope id d
  | .interface id body head _ ms => do
    let bases ← l.basesOf id
    let head ← l.linkHead scope .interface id head
    let (methods, nested) ← linkInterfaceMembers body ms
    return .interface head bases methods nested (← l.effectiveMethods id)
  | .annotationDecl id d => .annotationDecl <$> l.linkAnnotationDecl scope id d
  | .pathAlias a => l.linkAlias scope a
  | .importAlias a => l.linkImportAlias scope a

/-- Links a member that stands in a scope. -/
def linkMember (scope : ScopeId) : PlacedMember → Link LinkedMember
  | .field f => .field <$> l.linkField scope f
  | .union id body head ordinal ms => do
    let head ← l.linkHead scope .union id head
    return .union head (ordinal.map Ordinal.value) (← linkMembers body ms)
  | .anonymousUnion body _ annotations ms => do
    let annotations ← l.linkApplications scope .union annotations
    return .anonymousUnion annotations (← linkMembers body ms)
  | .group id body head ms => do
    let head ← l.linkHead scope .group id head
    return .group head (← linkMembers body ms)
  | .decl d => .decl <$> linkDecl scope d

/-- Links the members of a body. -/
def linkMembers (scope : ScopeId) : List PlacedMember → Link (List LinkedMember)
  | [] => .ok []
  | m :: ms => do
    let m ← linkMember scope m
    return m :: (← linkMembers scope ms)

/-- Links an item of an interface. -/
def linkInterfaceMember (scope : ScopeId) :
    PlacedInterfaceMember → Link (LinkedMethod ⊕ LinkedDecl)
  | .method m => .inl <$> l.linkMethod scope m
  | .decl d => .inr <$> linkDecl scope d

/-- Links the items of an interface: its methods, and what is nested in it. -/
def linkInterfaceMembers (scope : ScopeId) :
    List PlacedInterfaceMember → Link (List LinkedMethod × List LinkedDecl)
  | [] => .ok ([], [])
  | m :: ms => do
    let item ← linkInterfaceMember scope m
    let (methods, nested) ← linkInterfaceMembers scope ms
    match item with
    | .inl method => return (method :: methods, nested)
    | .inr d => return (methods, d :: nested)

end

/-! ## Modules -/

/-- Links a module. -/
def linkModule (m : LoadedModule) : Link LinkedModule := do
  let annotations ← l.linkApplications m.scope .file m.annotations
  let decls ← m.decls.mapM (l.linkDecl m.scope)
  return ⟨m.path, m.fileId, annotations, decls⟩

/-- Links all modules. -/
def link : Link Schema := do
  let modules ← l.modules.toList.mapM l.linkModule
  return ⟨modules, l.entries.map Entry.info⟩

end Loaded

/-- What resolving a module comes to: the import paths that were asked for, in order, and the
linked schema or an error. -/
structure Resolution where
  requested : Array String
  result : Except SchemaError Schema

/-- Loads and links a module and all that it imports. -/
def resolve (source : Option ImportSource) (m : Module) : Resolution :=
  let (outcome, state) := ((Load.root source m).run).run ⟨.empty, #[]⟩
  ⟨state.requested, outcome.bind fun _ => state.loaded.link⟩

end SchemaLang
