import SchemaLang.Scope.Placed

/-!
# Declarations by id

What is known of a declaration from its id alone, and its dotted name, which starts at the top level
of its module and goes through the named declarations around it.
-/

namespace SchemaLang

/-- The kinds of declaration that have an id. -/
inductive DeclKind where
  | const | struct | enum | interface | annotationDecl | union | group
deriving DecidableEq

/-- The word for a kind of declaration. -/
def DeclKind.describe : DeclKind → String
  | .const => "constant"
  | .struct => "struct"
  | .enum => "enum"
  | .interface => "interface"
  | .annotationDecl => "annotation"
  | .union => "union"
  | .group => "group"

/-- A declaration's module, its name, the named declaration it is nested in, and its kind. -/
structure DeclInfo where
  module : ModuleId
  name : String
  parent : Option DeclId
  kind : DeclKind
deriving DecidableEq

/-- The names of a declaration and of at most `bound` declarations around it, the outermost
first. -/
def lineage (decls : Array DeclInfo) : (bound : Nat) → DeclId → List String
  | 0, _ => []
  | bound + 1, id =>
    match decls[id]? with
    | some info => ((info.parent.map (lineage decls bound)).getD []) ++ [info.name]
    | none => []

/-- The dotted name of a declaration.  A declaration is numbered after those around it, so there
are no more of them than its id. -/
def qualifiedName (decls : Array DeclInfo) (id : DeclId) : String :=
  String.intercalate "." (lineage decls (id + 1) id)

end SchemaLang
