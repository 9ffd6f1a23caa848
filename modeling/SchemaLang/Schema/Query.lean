import SchemaLang.Schema
import SchemaLang.Text.Split

/-!
# Looking into a schema

Modules are found by their path and declarations by their dotted name.  `Schema.unresolved` lists
every name that linking has left unbound, module by module; names inside deferred literals have not
been looked up, so they are not among them.
-/

namespace SchemaLang

/-! ## Finding declarations -/

namespace Schema

variable (s : Schema)

/-- The module that was imported under a path. -/
def moduleOf? (path : String) : Option ModuleId := s.modules.findIdx? (·.path = path)

/-- The first declaration of a name directly inside `parent`. -/
def declNamed? (module : ModuleId) (parent : Option DeclId) (name : String) : Option DeclId :=
  s.decls.findIdx? fun info => info.module = module && info.parent = parent && info.name = name

/-- The declaration that names lead to, from `parent` inwards. -/
def descend (module : ModuleId) : (parent : Option DeclId) → List String → Option DeclId
  | parent, [] => parent
  | parent, name :: names => do
    let id ← s.declNamed? module parent name
    descend module (some id) names

/-- The declaration of a module with a dotted name. -/
def lookupIn (module : ModuleId) (name : String) : Option DeclId :=
  s.descend module none ((partsBetween '.' name.toList).map String.ofList)

/-- The declaration of the root module with a dotted name. -/
def lookup (name : String) : Option DeclId := s.lookupIn root name

/-- The dotted name of a declaration. -/
def nameOf (id : DeclId) : String := qualifiedName s.decls id

end Schema

/-! ## Fields -/

mutual

/-- The fields of a member, in unions and groups too. -/
def LinkedMember.fields : LinkedMember → List LinkedField
  | .field f => [f]
  | .union _ _ ms => linkedFields ms
  | .anonymousUnion _ ms => linkedFields ms
  | .group _ ms => linkedFields ms
  | .decl _ => []

/-- The fields of a body, in unions and groups too, in the order of the source. -/
def linkedFields : List LinkedMember → List LinkedField
  | [] => []
  | m :: ms => m.fields ++ linkedFields ms

end

mutual

/-- The members of the struct with an id, if it is this declaration or nested in it. -/
def LinkedDecl.structBody? (id : DeclId) : LinkedDecl → Option (List LinkedMember)
  | .struct head ms => if head.id = id then some ms else structBodyIn? id ms
  | .interface _ _ _ nested _ => structBodyAmong? id nested
  | _ => none

/-- The members of the struct with an id, if it is nested in this member. -/
def LinkedMember.structBody? (id : DeclId) : LinkedMember → Option (List LinkedMember)
  | .field _ => none
  | .union _ _ ms => structBodyIn? id ms
  | .anonymousUnion _ ms => structBodyIn? id ms
  | .group _ ms => structBodyIn? id ms
  | .decl d => d.structBody? id

/-- The members of the struct with an id, if it stands in a body. -/
def structBodyIn? (id : DeclId) : List LinkedMember → Option (List LinkedMember)
  | [] => none
  | m :: ms => (m.structBody? id).or (structBodyIn? id ms)

/-- The members of the struct with an id, if it is among declarations. -/
def structBodyAmong? (id : DeclId) : List LinkedDecl → Option (List LinkedMember)
  | [] => none
  | d :: ds => (d.structBody? id).or (structBodyAmong? id ds)

end

/-- The fields of the struct with an id. -/
def Schema.fields? (s : Schema) (id : DeclId) : Option (List LinkedField) :=
  (s.modules.findSome? fun m => structBodyAmong? id m.decls).map linkedFields

/-! ## Unresolved names -/

/-- The unresolved name in a type. -/
def SchemaType.unresolvedPaths : SchemaType → List Path
  | .builtin _ => []
  | .decl _ => []
  | .list element => element.unresolvedPaths
  | .unresolved p => [p]

/-- The unresolved name of a reference. -/
def Reference.unresolvedPaths : Reference → List Path
  | .unresolved p => [p]
  | _ => []

mutual

/-- The unresolved names in a value. -/
def Value.unresolvedPaths : Value → List Path
  | .unresolvedConst p => [p]
  | .list vs => unresolvedInItems vs
  | .struct fields => unresolvedInFields fields
  | _ => []

/-- The unresolved names in the items of a list. -/
def unresolvedInItems : List Value → List Path
  | [] => []
  | v :: vs => v.unresolvedPaths ++ unresolvedInItems vs

/-- The unresolved names in the fields of a struct. -/
def unresolvedInFields : List (String × Value) → List Path
  | [] => []
  | (_, v) :: fields => v.unresolvedPaths ++ unresolvedInFields fields

end

/-- The unresolved names in a value, if there is one. -/
def unresolvedInValue? (v : Option Value) : List Path := (v.map Value.unresolvedPaths).getD []

/-- The unresolved names in annotations: of each, its own name and then those in its value. -/
def unresolvedInApplications (as : List LinkedApplication) : List Path :=
  as.flatMap fun a => a.target.unresolvedPaths ++ unresolvedInValue? a.value

/-- The unresolved names in a parameter. -/
def LinkedParam.unresolvedPaths (p : LinkedParam) : List Path :=
  p.type.unresolvedPaths ++ unresolvedInValue? p.default ++ unresolvedInApplications p.annotations

/-- The unresolved names in a method: in its annotations, its parameters and its results. -/
def LinkedMethod.unresolvedPaths (m : LinkedMethod) : List Path :=
  unresolvedInApplications m.annotations ++
    (m.params ++ m.results.getD []).flatMap LinkedParam.unresolvedPaths

mutual

/-- The unresolved names in a declaration. -/
def LinkedDecl.unresolvedPaths : LinkedDecl → List Path
  | .const d =>
    d.type.unresolvedPaths ++ d.value.unresolvedPaths ++ unresolvedInApplications d.annotations
  | .struct head ms => unresolvedInApplications head.annotations ++ unresolvedInMembers ms
  | .enum d =>
    unresolvedInApplications d.annotations ++
      d.enumerants.flatMap fun e => unresolvedInApplications e.annotations
  | .interface head _ methods nested _ =>
    unresolvedInApplications head.annotations ++
      methods.flatMap LinkedMethod.unresolvedPaths ++ unresolvedInDecls nested
  | .annotationDecl d => d.type.unresolvedPaths ++ unresolvedInApplications d.annotations
  | .pathAlias _ target => target.unresolvedPaths
  | .importAlias _ _ target => target.unresolvedPaths

/-- The unresolved names in a member. -/
def LinkedMember.unresolvedPaths : LinkedMember → List Path
  | .field f =>
    f.type.unresolvedPaths ++ unresolvedInValue? f.default ++
      unresolvedInApplications f.annotations
  | .union head _ ms => unresolvedInApplications head.annotations ++ unresolvedInMembers ms
  | .anonymousUnion annotations ms =>
    unresolvedInApplications annotations ++ unresolvedInMembers ms
  | .group head ms => unresolvedInApplications head.annotations ++ unresolvedInMembers ms
  | .decl d => d.unresolvedPaths

/-- The unresolved names in the members of a body. -/
def unresolvedInMembers : List LinkedMember → List Path
  | [] => []
  | m :: ms => m.unresolvedPaths ++ unresolvedInMembers ms

/-- The unresolved names in declarations. -/
def unresolvedInDecls : List LinkedDecl → List Path
  | [] => []
  | d :: ds => d.unresolvedPaths ++ unresolvedInDecls ds

end

/-- The unresolved names in a module. -/
def LinkedModule.unresolvedPaths (m : LinkedModule) : List Path :=
  unresolvedInApplications m.annotations ++ unresolvedInDecls m.decls

/-- Every name that was left unresolved, with the module that it stands in. -/
def Schema.unresolved (s : Schema) : List (ModuleId × Path) :=
  s.modules.zipIdx.flatMap fun (m, id) => m.unresolvedPaths.map fun p => (id, p)

end SchemaLang
