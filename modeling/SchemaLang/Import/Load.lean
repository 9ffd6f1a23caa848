import SchemaLang.Error
import SchemaLang.Import.Mentioned
import SchemaLang.Scope.Clash
import SchemaLang.Tree.Parser.Decl

/-!
# Loading modules

Before anything is linked, every module that the root reaches through imports is loaded: its text is
asked for once, parsed, placed, checked for clashes, and entered into the tables of scopes and
declarations.  A module is entered before its own imports are followed, depth first and in the order
of the source, so that a cycle of imports ends at a module that is already there.
-/

namespace SchemaLang

/-- Supplies the texts of imported modules by their paths.  No chain of imports, each of a path that
was not asked for before, gets more than `depth` answers. -/
structure ImportSource where
  read : String → Option String
  depth : Nat

/-- The source that answers the paths of a list. -/
def ImportSource.ofList (files : List (String × String)) : ImportSource :=
  ⟨fun path => files.lookup path, files.length⟩

/-- A module that has been loaded; `scope` is its file scope. -/
structure LoadedModule where
  path : String
  fileId : Nat
  scope : ScopeId
  annotations : List Application
  decls : List PlacedDecl

/-- The modules that have been loaded, and their scopes and declarations, each by its number. -/
structure Loaded where
  modules : Array LoadedModule
  scopes : Array Scope
  entries : Array Entry

namespace Loaded

/-- Nothing is loaded. -/
def empty : Loaded := ⟨#[], #[], #[]⟩

/-- The module of an import path. -/
def moduleOf? (l : Loaded) (path : String) : Option ModuleId :=
  l.modules.findIdx? (·.path = path)

/-- The error for a clash in the module at `path`. -/
def clashError (path : String) (c : Clash) : SchemaError :=
  .linking {
    module := path
    span := c.again.span
    cause := match c.again with
      | .name _ i => .duplicateName i.name c.first.span
      | .ordinal _ o => .duplicateOrdinal o.value c.first.span }

/-- Enters a module under its path, unless it has a clash. -/
def enter (l : Loaded) (path : String) (m : Module) : Except SchemaError Loaded :=
  let id := l.modules.size
  let scope := l.scopes.size
  let (ds, _) := placeDecls ⟨l.entries.size, scope + 1⟩ m.decls
  match firstClash? (fileUses scope ds) with
  | some c => .error (clashError path c)
  | none => .ok {
      modules := l.modules.push ⟨path, m.id.value, scope, m.annotations, ds⟩
      scopes := l.scopes ++ fileScopes id scope ds
      entries := l.entries ++ fileEntries id scope ds }

end Loaded

/-- What is loaded so far, and the paths that were asked for, in order. -/
structure LoadState where
  loaded : Loaded
  requested : Array String

/-- A step of loading.  What was asked for is known even if it fails. -/
abbrev Load := ExceptT SchemaError (StateM LoadState)

namespace Load

/-- Enters a module. -/
def enter (path : String) (m : Module) : Load Unit := do
  match (← get).loaded.enter path m with
  | .ok loaded => modify fun s => { s with loaded := loaded }
  | .error e => throw e

/-- Loads an import of the module at `importer`, unless its path is already there.  `read` answers
paths and `follow` loads the imports of what was read. -/
def importWith (read : Option (String → Option String)) (follow : String → ImportPath → Load Unit)
    (importer : String) (i : ImportPath) : Load Unit := do
  if ((← get).loaded.moduleOf? i.path).isSome then return
  let failed (cause : ImportCause) : SchemaError := .importing ⟨importer, i.span, i.path, cause⟩
  match read with
  | none => throw (failed .noSource)
  | some read =>
    modify fun s => { s with requested := s.requested.push i.path }
    match read i.path with
    | none => throw (failed .notFound)
    | some text =>
      match Module.parse text with
      | .error e => throw (failed (.parse e))
      | .ok m =>
        enter i.path m
        m.imports.forM (follow i.path)

/-- Loads an import and all that it imports, when at most `depth` paths of a chain are answered. -/
def importWithin (read : Option (String → Option String)) :
    (depth : Nat) → String → ImportPath → Load Unit
  | 0 => importWith (read.map fun _ _ => none) fun _ _ => pure ()
  | depth + 1 => importWith read (importWithin read depth)

/-- The path of the module that loading starts from. -/
def rootPath : String := "::global"

/-- Loads a module and all that it imports. -/
def root (source : Option ImportSource) (m : Module) : Load Unit := do
  enter rootPath m
  m.imports.forM (importWithin (source.map (·.read)) ((source.map (·.depth)).getD 0) rootPath)

end Load

end SchemaLang
