import SchemaLang.Schema

/-!
# Ids in a linked schema

`Places` says which ids may stand where an id can stand, and `LinkedDecl.Respects` that all the ids
in a declaration do.  `Schema.nodes` lists the named declarations of a schema in the order in which
they begin, each with its module and the named declaration around it, and `Schema.places` allows
exactly the ids of such nodes, each kind in its place.
-/

namespace SchemaLang

/-- The ids that may stand at each kind of place. -/
structure Places where
  type : DeclId → Prop
  base : DeclId → Prop
  method : MethodRef → Prop
  const : DeclId → Prop
  enumerant : DeclId → Nat → Prop
  annotation : DeclId → Target → Prop
  decl : DeclId → Prop
  module : ModuleId → Prop

/-! ## Trees that respect the places -/

section Respects

variable (p : Places)

/-- The declaration in a type is one that may stand as a type. -/
def SchemaType.Respects : SchemaType → Prop
  | .decl id => p.type id
  | .list element => element.Respects
  | .builtin _ | .unresolved _ => True

/-- A reference is to something that exists. -/
def Reference.Respects : Reference → Prop
  | .decl id => p.decl id
  | .module id => p.module id
  | .builtin _ | .unresolved _ => True

mutual

/-- The constants and enumerants in a value are such. -/
def Value.Respects : Value → Prop
  | .enumerant enum ordinal => p.enumerant enum ordinal
  | .list items => itemsRespect items
  | .struct fields => fieldsRespect fields
  | .const id => p.const id
  | .void | .bool _ | .int _ | .float _ | .text _ | .data _ => True
  | .unresolvedConst _ | .deferred _ => True

/-- The constants and enumerants in the items of a list are such. -/
def itemsRespect : List Value → Prop
  | [] => True
  | v :: vs => v.Respects ∧ itemsRespect vs

/-- The constants and enumerants in the fields of a struct are such. -/
def fieldsRespect : List (String × Value) → Prop
  | [] => True
  | (_, v) :: fields => v.Respects ∧ fieldsRespect fields

end

/-- An annotation that is applied to a node of the kind `target` is either unresolved or one that
may be applied there. -/
structure LinkedApplication.Respects (target : Target) (a : LinkedApplication) : Prop where
  target : match a.target with
    | .decl id => p.annotation id target
    | .unresolved _ => True
    | .module _ | .builtin _ => False
  value : ∀ v ∈ a.value, v.Respects p

structure LinkedField.Respects (f : LinkedField) : Prop where
  type : f.type.Respects p
  default : ∀ v ∈ f.default, v.Respects p
  annotations : ∀ a ∈ f.annotations, a.Respects p .field

structure LinkedParam.Respects (x : LinkedParam) : Prop where
  type : x.type.Respects p
  default : ∀ v ∈ x.default, v.Respects p
  annotations : ∀ a ∈ x.annotations, a.Respects p .param

structure LinkedMethod.Respects (m : LinkedMethod) : Prop where
  params : ∀ x ∈ m.params, x.Respects p
  results : ∀ xs ∈ m.results, ∀ x ∈ xs, x.Respects p
  annotations : ∀ a ∈ m.annotations, a.Respects p .method

structure LinkedConst.Respects (d : LinkedConst) : Prop where
  type : d.type.Respects p
  value : d.value.Respects p
  annotations : ∀ a ∈ d.annotations, a.Respects p .const

structure LinkedEnum.Respects (d : LinkedEnum) : Prop where
  annotations : ∀ a ∈ d.annotations, a.Respects p .enum
  enumerants : ∀ e ∈ d.enumerants, ∀ a ∈ e.annotations, a.Respects p .enumerant

structure LinkedAnnotationDecl.Respects (d : LinkedAnnotationDecl) : Prop where
  type : d.type.Respects p
  annotations : ∀ a ∈ d.annotations, a.Respects p .annotationDecl

/-- The annotations of what has a body. -/
def LinkedHead.Respects (target : Target) (head : LinkedHead) : Prop :=
  ∀ a ∈ head.annotations, a.Respects p target

mutual

/-- Every id in a declaration may stand where it does. -/
def LinkedDecl.Respects : LinkedDecl → Prop
  | .const d => d.Respects p
  | .struct head ms => head.Respects p .struct ∧ membersRespect ms
  | .enum d => d.Respects p
  | .interface head bases methods nested effective =>
    head.Respects p .interface ∧ (∀ id ∈ bases, p.base id) ∧ (∀ m ∈ methods, m.Respects p) ∧
      declsRespect nested ∧ ∀ r ∈ effective, p.method r
  | .annotationDecl d => d.Respects p
  | .pathAlias _ target => target.Respects p
  | .importAlias _ module target => p.module module ∧ target.Respects p

/-- Every id in the declarations may stand where it does. -/
def declsRespect : List LinkedDecl → Prop
  | [] => True
  | d :: ds => d.Respects ∧ declsRespect ds

/-- Every id in a member may stand where it does. -/
def LinkedMember.Respects : LinkedMember → Prop
  | .field f => f.Respects p
  | .union head _ ms => head.Respects p .union ∧ membersRespect ms
  | .anonymousUnion annotations ms =>
    (∀ a ∈ annotations, a.Respects p .union) ∧ membersRespect ms
  | .group head ms => head.Respects p .group ∧ membersRespect ms
  | .decl d => d.Respects

/-- Every id in the members may stand where it does. -/
def membersRespect : List LinkedMember → Prop
  | [] => True
  | m :: ms => m.Respects ∧ membersRespect ms

end

/-- Every id in a module may stand where it does. -/
structure LinkedModule.Respects (m : LinkedModule) : Prop where
  annotations : ∀ a ∈ m.annotations, a.Respects p .file
  decls : ∀ d ∈ m.decls, d.Respects p

end Respects

/-! ## Nodes -/

/-- A named declaration without what is nested in it. -/
inductive LinkedNode where
  | const (d : LinkedConst)
  | struct (head : LinkedHead)
  | enum (d : LinkedEnum)
  | interface (head : LinkedHead) (methods : List LinkedMethod)
  | annotationDecl (d : LinkedAnnotationDecl)
  | union (head : LinkedHead)
  | group (head : LinkedHead)

namespace LinkedNode

/-- The id of the declaration. -/
def id : LinkedNode → DeclId
  | .const d => d.id
  | .struct head => head.id
  | .enum d => d.id
  | .interface head _ => head.id
  | .annotationDecl d => d.id
  | .union head => head.id
  | .group head => head.id

/-- The name of the declaration. -/
def name : LinkedNode → String
  | .const d => d.name
  | .struct head => head.name
  | .enum d => d.name
  | .interface head _ => head.name
  | .annotationDecl d => d.name
  | .union head => head.name
  | .group head => head.name

/-- The kind of the declaration. -/
def kind : LinkedNode → DeclKind
  | .const _ => .const
  | .struct _ => .struct
  | .enum _ => .enum
  | .interface _ _ => .interface
  | .annotationDecl _ => .annotationDecl
  | .union _ => .union
  | .group _ => .group

end LinkedNode

/-- A named declaration, the module that it stands in, and the nearest named declaration around
it. -/
structure Node where
  module : ModuleId
  parent : Option DeclId
  content : LinkedNode

/-- What a schema keeps of the node by its id. -/
def Node.info (n : Node) : DeclInfo := ⟨n.module, n.content.name, n.parent, n.content.kind⟩

section Nodes

variable (module : ModuleId)

mutual

/-- The named declarations in a declaration, itself before those nested in it. -/
def LinkedDecl.nodes (parent : Option DeclId) : LinkedDecl → List Node
  | .const d => [⟨module, parent, .const d⟩]
  | .struct head ms => ⟨module, parent, .struct head⟩ :: memberNodes (some head.id) ms
  | .enum d => [⟨module, parent, .enum d⟩]
  | .interface head _ methods nested _ =>
    ⟨module, parent, .interface head methods⟩ :: declNodes (some head.id) nested
  | .annotationDecl d => [⟨module, parent, .annotationDecl d⟩]
  | .pathAlias _ _ => []
  | .importAlias _ _ _ => []

/-- The named declarations in the declarations. -/
def declNodes (parent : Option DeclId) : List LinkedDecl → List Node
  | [] => []
  | d :: ds => d.nodes parent ++ declNodes parent ds

/-- The named declarations in a member.  A union without a name is none itself. -/
def LinkedMember.nodes (parent : Option DeclId) : LinkedMember → List Node
  | .field _ => []
  | .union head _ ms => ⟨module, parent, .union head⟩ :: memberNodes (some head.id) ms
  | .anonymousUnion _ ms => memberNodes parent ms
  | .group head ms => ⟨module, parent, .group head⟩ :: memberNodes (some head.id) ms
  | .decl d => d.nodes parent

/-- The named declarations in the members. -/
def memberNodes (parent : Option DeclId) : List LinkedMember → List Node
  | [] => []
  | m :: ms => m.nodes parent ++ memberNodes parent ms

end

end Nodes

namespace Schema

/-- The named declarations of all modules. -/
def nodes (s : Schema) : List Node :=
  s.modules.zipIdx.flatMap fun x => x.1.decls.flatMap (LinkedDecl.nodes x.2 none)

/-- Each id stands for a node of the right kind, which also has what is named of it. -/
def places (s : Schema) : Places where
  type id := ∃ n ∈ s.nodes, n.content.id = id ∧ n.content.kind ∈ [.struct, .enum, .interface]
  base id := ∃ n ∈ s.nodes, n.content.id = id ∧ n.content.kind = .interface
  method r := ∃ n ∈ s.nodes, ∃ head methods, n.content = .interface head methods ∧
    head.id = r.interface ∧ ∃ m ∈ methods, m.name = r.name ∧ m.ordinal = r.ordinal
  const id := ∃ n ∈ s.nodes, n.content.id = id ∧ n.content.kind = .const
  enumerant id ordinal := ∃ n ∈ s.nodes, ∃ d, n.content = .enum d ∧ d.id = id ∧
    ∃ e ∈ d.enumerants, e.ordinal = ordinal
  annotation id target := ∃ n ∈ s.nodes, ∃ d, n.content = .annotationDecl d ∧ d.id = id ∧
    (target ∈ d.targets ∨ .any ∈ d.targets)
  decl id := id < s.decls.size
  module id := id < s.modules.length

end Schema

end SchemaLang
