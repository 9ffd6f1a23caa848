import SchemaLang.Span
import SchemaLang.Text.Quoted

/-!
# Parsed modules

The tree of a schema file as it was written.  Nothing in it is bound to anything else: the names of
types, constants and annotations are kept exactly as they stand in the source, numbers keep their
spelling, and every node knows the bytes that it spans.
-/

namespace SchemaLang

/-! ## Names -/

/-- A name as written. -/
structure Ident where
  span : Span
  name : String
deriving DecidableEq, Inhabited

/-- A dotted name. -/
structure Path where
  span : Span
  segments : List Ident
deriving DecidableEq, Inhabited

/-- The segments of a path, joined by dots. -/
def Path.text (p : Path) : String := String.intercalate "." (p.segments.map Ident.name)

/-- The quoted path of an import. -/
structure ImportPath where
  span : Span
  path : String
deriving DecidableEq, Inhabited

/-- The number of a field, an enumerant or a method. -/
structure Ordinal where
  span : Span
  value : Nat
deriving DecidableEq, Inhabited

/-- The number that identifies a schema file. -/
structure FileId where
  span : Span
  value : Nat
deriving DecidableEq, Inhabited

/-! ## Types and literals -/

/-- A type as written. -/
inductive TypeRef where
  | named (path : Path)
  | list (span : Span) (element : TypeRef)
  | imported (span : Span) (source : ImportPath) (segments : List Ident)
deriving DecidableEq

namespace TypeRef

/-- The bytes of a type. -/
def span : TypeRef → Span
  | .named path => path.span
  | .list span _ => span
  | .imported span _ _ => span

/-- A type as messages show it. -/
def text : TypeRef → String
  | .named path => path.text
  | .list _ element => "List(" ++ element.text ++ ")"
  | .imported _ source segments =>
    "import " ++ Quoted.quote source.path ++ String.join (segments.map ("." ++ ·.name))

end TypeRef

/-- A literal as written.  Numbers keep their spelling, since they can be decoded only once the
type that they are written for is known. -/
inductive Literal where
  | void (span : Span)
  | bool (span : Span) (b : Bool)
  | int (span : Span) (text : String)
  | float (span : Span) (text : String)
  | text (span : Span) (s : String)
  | name (path : Path)
  | list (span : Span) (items : List Literal)
  | struct (span : Span) (fields : List (Ident × Literal))

namespace Literal

/-- The bytes of a literal. -/
def span : Literal → Span
  | .void span => span
  | .bool span _ => span
  | .int span _ => span
  | .float span _ => span
  | .text span _ => span
  | .name path => path.span
  | .list span _ => span
  | .struct span _ => span

/-- The phrase for a literal in error messages. -/
def describe : Literal → String
  | .void _ => "void literal"
  | .bool _ _ => "boolean literal"
  | .int _ _ => "integer literal"
  | .float _ _ => "float literal"
  | .text _ _ => "text literal"
  | .name _ => "name"
  | .list _ _ => "list literal"
  | .struct _ _ => "struct literal"

end Literal

/-- An annotation applied to a node: `$name` or `$name(value)`. -/
structure Application where
  span : Span
  name : Path
  value : Option Literal

/-! ## Annotation targets -/

/-- The kinds of node that an annotation may be applied to; `any` stands for all of them. -/
inductive Target where
  | file | const | enum | enumerant | struct | field | union | group | interface | method | param
  | annotationDecl | any
deriving DecidableEq

namespace Target

/-- The word for a target in a schema. -/
def name : Target → String
  | .file => "file"
  | .const => "const"
  | .enum => "enum"
  | .enumerant => "enumerant"
  | .struct => "struct"
  | .field => "field"
  | .union => "union"
  | .group => "group"
  | .interface => "interface"
  | .method => "method"
  | .param => "param"
  | .annotationDecl => "annotation"
  | .any => "*"

/-- The targets that have a word of their own. -/
def named : List Target :=
  [.file, .const, .enum, .enumerant, .struct, .field, .union, .group, .interface, .method, .param,
   .annotationDecl]

/-- The target of a word. -/
def ofName? (word : String) : Option Target := named.find? (·.name = word)

end Target

/-! ## Declarations -/

/-- A constant. -/
structure Const where
  span : Span
  name : Ident
  type : TypeRef
  value : Literal
  annotations : List Application

/-- A field of a struct, union or group. -/
structure Field where
  span : Span
  name : Ident
  ordinal : Ordinal
  type : TypeRef
  default : Option Literal
  annotations : List Application

/-- One of the names that an enum lists. -/
structure Enumerant where
  span : Span
  name : Ident
  ordinal : Ordinal
  annotations : List Application

/-- An enum. -/
structure Enum where
  span : Span
  name : Ident
  annotations : List Application
  enumerants : List Enumerant

/-- A parameter of a method or one of its results.  Its span ends with its type. -/
structure Param where
  span : Span
  name : Ident
  type : TypeRef
  default : Option Literal
  annotations : List Application

/-- A method of an interface; `results` is absent when there is no arrow. -/
structure Method where
  span : Span
  name : Ident
  ordinal : Ordinal
  params : List Param
  results : Option (List Param)
  annotations : List Application

/-- The declaration of an annotation. -/
structure AnnotationDecl where
  span : Span
  name : Ident
  targets : List (Span × Target)
  type : TypeRef
  annotations : List Application

/-- `using Foo.Bar;` or `using T = Foo.Bar;`. -/
structure Alias where
  span : Span
  name : Option Ident
  target : Path

/-- The name that an alias binds: the one given, or else the last segment of its target. -/
def Alias.binding (a : Alias) : Option Ident := a.name.or a.target.segments.getLast?

/-- `using import "file";`, `using import "file".Foo;` or `using T = import "file".Foo;`. -/
structure ImportAlias where
  span : Span
  name : Option Ident
  source : ImportPath
  path : List Ident

/-- The name that an import binds, if it binds one. -/
def ImportAlias.binding (a : ImportAlias) : Option Ident := a.name.or a.path.getLast?

/-- What a struct, a named union, a group or an interface has besides its body. -/
structure Head where
  span : Span
  name : Ident
  annotations : List Application

mutual

/-- A declaration. -/
inductive Decl where
  | const (d : Const)
  | struct (head : Head) (members : List Member)
  | enum (d : Enum)
  | interface (head : Head) (bases : List TypeRef) (members : List InterfaceMember)
  | annotationDecl (d : AnnotationDecl)
  | pathAlias (a : Alias)
  | importAlias (a : ImportAlias)

/-- An item in the body of a struct, union or group.  Only a union with a name may have an ordinal
of its own. -/
inductive Member where
  | field (f : Field)
  | union (head : Head) (ordinal : Option Ordinal) (members : List Member)
  | anonymousUnion (span : Span) (annotations : List Application) (members : List Member)
  | group (head : Head) (members : List Member)
  | decl (d : Decl)

/-- An item in the body of an interface. -/
inductive InterfaceMember where
  | method (m : Method)
  | decl (d : Decl)

end

namespace Decl

/-- The bytes of a declaration. -/
def span : Decl → Span
  | .const d => d.span
  | .struct head _ => head.span
  | .enum d => d.span
  | .interface head _ _ => head.span
  | .annotationDecl d => d.span
  | .pathAlias a => a.span
  | .importAlias a => a.span

/-- The name that a declaration binds where it stands, if it binds one. -/
def binding : Decl → Option Ident
  | .const d => some d.name
  | .struct head _ => some head.name
  | .enum d => some d.name
  | .interface head _ _ => some head.name
  | .annotationDecl d => some d.name
  | .pathAlias a => a.binding
  | .importAlias a => a.binding

/-- The declaration is one of the `using` forms. -/
def isUsing : Decl → Bool
  | .pathAlias _ | .importAlias _ => true
  | _ => false

end Decl

/-- The member is a union without a name. -/
def Member.isAnonymousUnion : Member → Bool
  | .anonymousUnion _ _ _ => true
  | _ => false

/-- One schema file. -/
structure Module where
  id : FileId
  annotations : List Application
  decls : List Decl

/-- The `using` declarations at file scope. -/
def Module.usings (m : Module) : List Decl := m.decls.filter Decl.isUsing

end SchemaLang
