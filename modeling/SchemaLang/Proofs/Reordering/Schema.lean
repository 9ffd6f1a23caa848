import Mathlib.Data.Set.Function
import SchemaLang.Proofs.Reordering.Rearranged
import SchemaLang.Schema

/-!
# Schemas up to numbers and order

A `Renaming` gives each module, declaration and scope another number.  `Schema.Reordered` says that
two schemas are the same up to a renaming and the order of declarations in the root module, at file
scope and at any depth inside it; in all other modules the order is the same as well.
-/

namespace SchemaLang

/-- Other numbers for modules, declarations and scopes. -/
structure Renaming where
  module : ModuleId → ModuleId
  decl : DeclId → DeclId
  scope : ScopeId → ScopeId

variable (ρ : Renaming)

/-! ## Types, references and values -/

/-- The type with other ids. -/
def SchemaType.rename : SchemaType → SchemaType
  | .builtin b => .builtin b
  | .decl id => .decl (ρ.decl id)
  | .list element => .list element.rename
  | .unresolved path => .unresolved path

/-- The reference with other ids. -/
def Reference.rename : Reference → Reference
  | .decl id => .decl (ρ.decl id)
  | .module id => .module (ρ.module id)
  | .builtin b => .builtin b
  | .unresolved path => .unresolved path

mutual

/-- The value with other ids. -/
def Value.rename : Value → Value
  | .enumerant enum ordinal => .enumerant (ρ.decl enum) ordinal
  | .list items => .list (renameItems items)
  | .struct fields => .struct (renameFields fields)
  | .const id => .const (ρ.decl id)
  | .void => .void
  | .bool b => .bool b
  | .int n => .int n
  | .float x => .float x
  | .text s => .text s
  | .data bytes => .data bytes
  | .unresolvedConst path => .unresolvedConst path
  | .deferred literal => .deferred literal

/-- The items of a list with other ids. -/
def renameItems : List Value → List Value
  | [] => []
  | v :: vs => v.rename :: renameItems vs

/-- The fields of a struct with other ids in their values. -/
def renameFields : List (String × Value) → List (String × Value)
  | [] => []
  | (name, v) :: fields => (name, v.rename) :: renameFields fields

end

/-- The annotation with other ids. -/
def LinkedApplication.rename (a : LinkedApplication) : LinkedApplication :=
  ⟨a.name, a.target.rename ρ, a.value.map (Value.rename ρ)⟩

/-! ## Parts of declarations -/

/-- The field with other ids. -/
def LinkedField.rename (f : LinkedField) : LinkedField :=
  ⟨f.name, f.ordinal, f.type.rename ρ, f.default.map (Value.rename ρ),
    f.annotations.map (LinkedApplication.rename ρ)⟩

/-- The enumerant with other ids. -/
def LinkedEnumerant.rename (e : LinkedEnumerant) : LinkedEnumerant :=
  ⟨e.name, e.ordinal, e.annotations.map (LinkedApplication.rename ρ)⟩

/-- The parameter with other ids. -/
def LinkedParam.rename (x : LinkedParam) : LinkedParam :=
  ⟨x.name, x.type.rename ρ, x.default.map (Value.rename ρ),
    x.annotations.map (LinkedApplication.rename ρ)⟩

/-- The method with other ids. -/
def LinkedMethod.rename (m : LinkedMethod) : LinkedMethod :=
  ⟨m.name, m.ordinal, m.params.map (LinkedParam.rename ρ),
    m.results.map (List.map (LinkedParam.rename ρ)),
    m.annotations.map (LinkedApplication.rename ρ)⟩

/-- The method with another interface. -/
def MethodRef.rename (r : MethodRef) : MethodRef := ⟨ρ.decl r.interface, r.name, r.ordinal⟩

/-- The constant with other ids. -/
def LinkedConst.rename (d : LinkedConst) : LinkedConst :=
  ⟨ρ.decl d.id, d.name, d.type.rename ρ, d.value.rename ρ,
    d.annotations.map (LinkedApplication.rename ρ)⟩

/-- The enum with other ids. -/
def LinkedEnum.rename (d : LinkedEnum) : LinkedEnum :=
  ⟨ρ.decl d.id, d.name, d.annotations.map (LinkedApplication.rename ρ),
    d.enumerants.map (LinkedEnumerant.rename ρ)⟩

/-- The declaration of an annotation with other ids. -/
def LinkedAnnotationDecl.rename (d : LinkedAnnotationDecl) : LinkedAnnotationDecl :=
  ⟨ρ.decl d.id, d.name, d.targets, d.type.rename ρ,
    d.annotations.map (LinkedApplication.rename ρ)⟩

/-- The head with other ids. -/
def LinkedHead.rename (head : LinkedHead) : LinkedHead :=
  ⟨ρ.decl head.id, head.name, head.annotations.map (LinkedApplication.rename ρ)⟩

/-- What is known of a declaration from its id, with other ids. -/
def DeclInfo.rename (info : DeclInfo) : DeclInfo :=
  ⟨ρ.module info.module, info.name, info.parent.map ρ.decl, info.kind⟩

/-! ## Declarations and members -/

/-- The member is a declaration, and not one of the parts of which the body is made. -/
def LinkedMember.isDecl : LinkedMember → Bool
  | .decl _ => true
  | .field _ | .union _ _ _ | .anonymousUnion _ _ | .group _ _ => false

mutual

/-- A declaration and the same with other ids, and with the declarations inside it in another order
if `moved` is set. -/
inductive LinkedDecl.Reordered (moved : Bool) : LinkedDecl → LinkedDecl → Prop
  | const {d : LinkedConst} : LinkedDecl.Reordered moved (.const d) (.const (d.rename ρ))
  | struct {head : LinkedHead} {ms ms₁ ms' : List LinkedMember}
      (members : List.Forall₂ (LinkedMember.Reordered moved) ms ms₁)
      (order : Rearranged (fun m => moved && m.isDecl) ms₁ ms') :
      LinkedDecl.Reordered moved (.struct head ms) (.struct (head.rename ρ) ms')
  | enum {d : LinkedEnum} : LinkedDecl.Reordered moved (.enum d) (.enum (d.rename ρ))
  | interface {head : LinkedHead} {bases : List DeclId} {methods : List LinkedMethod}
      {nested nested₁ nested' : List LinkedDecl} {effective : List MethodRef}
      (members : List.Forall₂ (LinkedDecl.Reordered moved) nested nested₁)
      (order : Rearranged (fun _ => moved) nested₁ nested') :
      LinkedDecl.Reordered moved (.interface head bases methods nested effective)
        (.interface (head.rename ρ) (bases.map ρ.decl) (methods.map (LinkedMethod.rename ρ))
          nested' (effective.map (MethodRef.rename ρ)))
  | annotationDecl {d : LinkedAnnotationDecl} :
      LinkedDecl.Reordered moved (.annotationDecl d) (.annotationDecl (d.rename ρ))
  | pathAlias {name : String} {target : Reference} :
      LinkedDecl.Reordered moved (.pathAlias name target) (.pathAlias name (target.rename ρ))
  | importAlias {name : Option String} {module : ModuleId} {target : Reference} :
      LinkedDecl.Reordered moved (.importAlias name module target)
        (.importAlias name (ρ.module module) (target.rename ρ))

/-- A member and the same with other ids, and with the declarations inside it in another order if
`moved` is set. -/
inductive LinkedMember.Reordered (moved : Bool) : LinkedMember → LinkedMember → Prop
  | field {f : LinkedField} : LinkedMember.Reordered moved (.field f) (.field (f.rename ρ))
  | union {head : LinkedHead} {ordinal : Option Nat} {ms ms₁ ms' : List LinkedMember}
      (members : List.Forall₂ (LinkedMember.Reordered moved) ms ms₁)
      (order : Rearranged (fun m => moved && m.isDecl) ms₁ ms') :
      LinkedMember.Reordered moved (.union head ordinal ms) (.union (head.rename ρ) ordinal ms')
  | anonymousUnion {annotations : List LinkedApplication} {ms ms₁ ms' : List LinkedMember}
      (members : List.Forall₂ (LinkedMember.Reordered moved) ms ms₁)
      (order : Rearranged (fun m => moved && m.isDecl) ms₁ ms') :
      LinkedMember.Reordered moved (.anonymousUnion annotations ms)
        (.anonymousUnion (annotations.map (LinkedApplication.rename ρ)) ms')
  | group {head : LinkedHead} {ms ms₁ ms' : List LinkedMember}
      (members : List.Forall₂ (LinkedMember.Reordered moved) ms ms₁)
      (order : Rearranged (fun m => moved && m.isDecl) ms₁ ms') :
      LinkedMember.Reordered moved (.group head ms) (.group (head.rename ρ) ms')
  | decl {d d' : LinkedDecl} (nested : LinkedDecl.Reordered moved d d') :
      LinkedMember.Reordered moved (.decl d) (.decl d')

end

/-! ## Modules and schemas -/

/-- A module and the same with other ids, and with its declarations, at file scope and inside them,
in another order if `moved` is set. -/
structure LinkedModule.Reordered (moved : Bool) (m m' : LinkedModule) : Prop where
  path : m'.path = m.path
  fileId : m'.fileId = m.fileId
  annotations : m'.annotations = m.annotations.map (LinkedApplication.rename ρ)
  decls : ∃ ds, List.Forall₂ (LinkedDecl.Reordered ρ moved) m.decls ds ∧
    Rearranged (fun _ => moved) ds m'.decls

/-- The renaming maps the modules and the declarations of one schema to those of the other, and the
root to the root; each module is the same up to the renaming, and the root also up to the order of
its declarations. -/
structure Schema.Reordered (s s' : Schema) : Prop where
  modulesBijective : Set.BijOn ρ.module (Set.Iio s.modules.length) (Set.Iio s'.modules.length)
  declsBijective : Set.BijOn ρ.decl (Set.Iio s.decls.size) (Set.Iio s'.decls.size)
  root : ρ.module Schema.root = Schema.root
  modules : ∀ id : ModuleId, Option.Rel (LinkedModule.Reordered ρ (id = Schema.root))
    s.modules[id]? s'.modules[ρ.module id]?
  decls : ∀ id : DeclId, s'.decls[ρ.decl id]? = s.decls[id]?.map (DeclInfo.rename ρ)

end SchemaLang
