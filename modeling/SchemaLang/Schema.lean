import SchemaLang.Builtin
import SchemaLang.Numeric.Kind
import SchemaLang.Schema.Info

/-!
# Linked schemas

What linking makes of a module and of all that it imports.  Types and references point at
declarations by their ids, so that the graph of declarations may contain cycles, also across
modules.  A name that is bound nowhere stays in place as an unresolved path.
-/

namespace SchemaLang

/-! ## Types, references and values -/

/-- A type: a builtin one, a struct, enum or interface, a list, or a name that is not bound. -/
inductive SchemaType where
  | builtin (b : Builtin)
  | decl (id : DeclId)
  | list (element : SchemaType)
  | unresolved (path : Path)
deriving DecidableEq

/-- What a name was bound to. -/
inductive Reference where
  | decl (id : DeclId)
  | module (id : ModuleId)
  | builtin (b : Builtin)
  | unresolved (path : Path)
deriving DecidableEq

/-- The value of a literal for a type.  A literal for an unresolved type is deferred, that is kept
as it was written. -/
inductive Value where
  | void
  | bool (b : Bool)
  | int (n : Int)
  | float (x : Binary64)
  | text (s : String)
  | data (bytes : List UInt8)
  | enumerant (enum : DeclId) (ordinal : Nat)
  | list (items : List Value)
  | struct (fields : List (String × Value))
  | const (id : DeclId)
  | unresolvedConst (path : Path)
  | deferred (literal : Literal)

/-- An annotation applied to a node; the value of an unresolved one is deferred. -/
structure LinkedApplication where
  name : Path
  target : Reference
  value : Option Value

/-! ## Declarations -/

/-- A field of a struct, union or group. -/
structure LinkedField where
  name : String
  ordinal : Nat
  type : SchemaType
  default : Option Value
  annotations : List LinkedApplication

/-- One of the names that an enum lists. -/
structure LinkedEnumerant where
  name : String
  ordinal : Nat
  annotations : List LinkedApplication

/-- A parameter of a method or one of its results. -/
structure LinkedParam where
  name : String
  type : SchemaType
  default : Option Value
  annotations : List LinkedApplication

/-- A method of an interface. -/
structure LinkedMethod where
  name : String
  ordinal : Nat
  params : List LinkedParam
  results : Option (List LinkedParam)
  annotations : List LinkedApplication

/-- A method that an interface declares or inherits, and the interface that declares it. -/
structure MethodRef where
  interface : DeclId
  name : String
  ordinal : Nat
deriving DecidableEq

/-- A constant. -/
structure LinkedConst where
  id : DeclId
  name : String
  type : SchemaType
  value : Value
  annotations : List LinkedApplication

/-- An enum. -/
structure LinkedEnum where
  id : DeclId
  name : String
  annotations : List LinkedApplication
  enumerants : List LinkedEnumerant

/-- The declaration of an annotation. -/
structure LinkedAnnotationDecl where
  id : DeclId
  name : String
  targets : List Target
  type : SchemaType
  annotations : List LinkedApplication

/-- What a struct, a named union, a group or an interface has besides its body. -/
structure LinkedHead where
  id : DeclId
  name : String
  annotations : List LinkedApplication

mutual

/-- A declaration.  An interface lists its methods and what is nested in it apart, and, as
`effective`, its own methods followed by those that it inherits. -/
inductive LinkedDecl where
  | const (d : LinkedConst)
  | struct (head : LinkedHead) (members : List LinkedMember)
  | enum (d : LinkedEnum)
  | interface (head : LinkedHead) (bases : List DeclId) (methods : List LinkedMethod)
      (nested : List LinkedDecl) (effective : List MethodRef)
  | annotationDecl (d : LinkedAnnotationDecl)
  | pathAlias (name : String) (target : Reference)
  | importAlias (name : Option String) (module : ModuleId) (target : Reference)

/-- An item in the body of a struct, union or group. -/
inductive LinkedMember where
  | field (f : LinkedField)
  | union (head : LinkedHead) (ordinal : Option Nat) (members : List LinkedMember)
  | anonymousUnion (annotations : List LinkedApplication) (members : List LinkedMember)
  | group (head : LinkedHead) (members : List LinkedMember)
  | decl (d : LinkedDecl)

end

/-- A linked module and the path that it was imported under. -/
structure LinkedModule where
  path : String
  fileId : Nat
  annotations : List LinkedApplication
  decls : List LinkedDecl

/-- A module with all that it imports, the root first, and its declarations by id. -/
structure Schema where
  modules : List LinkedModule
  decls : Array DeclInfo

namespace Schema

/-- The module that linking started from. -/
def root : ModuleId := 0

end Schema

end SchemaLang
