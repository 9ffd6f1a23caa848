import SchemaLang.Tree

/-!
# The imports of a module

`Module.imports` lists every import path that occurs in a module, in the order of the source: those
of the `using` forms and those of the types of constants, fields, parameters, results, bases and
annotation declarations, however deep they stand.
-/

namespace SchemaLang

/-- The import paths in a type. -/
def TypeRef.imports : TypeRef → List ImportPath
  | .named _ => []
  | .list _ element => element.imports
  | .imported _ source _ => [source]

/-- The import paths in a method. -/
def Method.imports (m : Method) : List ImportPath :=
  (m.params ++ m.results.getD []).flatMap (·.type.imports)

mutual

/-- The import paths in a declaration. -/
def Decl.imports : Decl → List ImportPath
  | .const d => d.type.imports
  | .struct _ ms => memberImports ms
  | .enum _ => []
  | .interface _ bases ms => bases.flatMap TypeRef.imports ++ interfaceMemberImports ms
  | .annotationDecl d => d.type.imports
  | .pathAlias _ => []
  | .importAlias a => [a.source]

/-- The import paths in a member. -/
def Member.imports : Member → List ImportPath
  | .field f => f.type.imports
  | .union _ _ ms => memberImports ms
  | .anonymousUnion _ _ ms => memberImports ms
  | .group _ ms => memberImports ms
  | .decl d => d.imports

/-- The import paths in the members of a body. -/
def memberImports : List Member → List ImportPath
  | [] => []
  | m :: ms => m.imports ++ memberImports ms

/-- The import paths in an item of an interface. -/
def InterfaceMember.imports : InterfaceMember → List ImportPath
  | .method m => m.imports
  | .decl d => d.imports

/-- The import paths in the items of an interface. -/
def interfaceMemberImports : List InterfaceMember → List ImportPath
  | [] => []
  | m :: ms => m.imports ++ interfaceMemberImports ms

end

/-- The import paths in a module. -/
def Module.imports (m : Module) : List ImportPath := m.decls.flatMap Decl.imports

end SchemaLang
