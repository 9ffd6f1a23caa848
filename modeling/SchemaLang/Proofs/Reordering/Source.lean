import SchemaLang.Proofs.Loading.Mentioned
import SchemaLang.Proofs.Reordering.Rearranged

/-!
# Modules in another order

`Module.Reordered true m m'` says that `m'` has the declarations of `m` in another order, both at
file scope and, at any depth, inside the bodies of structs, unions, groups and interfaces, where the
other members keep their order.  The imports of the two are the same, in another order as well:
`imports_perm`.
-/

namespace SchemaLang

/-- The member is a declaration, and not one of the parts of which the body is made. -/
def Member.isDecl : Member → Bool
  | .decl _ => true
  | .field _ | .union _ _ _ | .anonymousUnion _ _ _ | .group _ _ => false

/-- The item is a declaration, and not a method. -/
def InterfaceMember.isDecl : InterfaceMember → Bool
  | .decl _ => true
  | .method _ => false

mutual

/-- A declaration and the same with the declarations inside it in another order.  They stay where
they are unless `moved` is set. -/
inductive Decl.Reordered (moved : Bool) : Decl → Decl → Prop
  | const {d : Const} : Decl.Reordered moved (.const d) (.const d)
  | struct {head : Head} {ms ms₁ ms' : List Member}
      (members : List.Forall₂ (Member.Reordered moved) ms ms₁)
      (order : Rearranged (fun m => moved && m.isDecl) ms₁ ms') :
      Decl.Reordered moved (.struct head ms) (.struct head ms')
  | enum {d : Enum} : Decl.Reordered moved (.enum d) (.enum d)
  | interface {head : Head} {bases : List TypeRef} {ms ms₁ ms' : List InterfaceMember}
      (members : List.Forall₂ (InterfaceMember.Reordered moved) ms ms₁)
      (order : Rearranged (fun m => moved && m.isDecl) ms₁ ms') :
      Decl.Reordered moved (.interface head bases ms) (.interface head bases ms')
  | annotationDecl {d : AnnotationDecl} :
      Decl.Reordered moved (.annotationDecl d) (.annotationDecl d)
  | pathAlias {a : Alias} : Decl.Reordered moved (.pathAlias a) (.pathAlias a)
  | importAlias {a : ImportAlias} : Decl.Reordered moved (.importAlias a) (.importAlias a)

/-- A member and the same with the declarations inside it in another order. -/
inductive Member.Reordered (moved : Bool) : Member → Member → Prop
  | field {f : Field} : Member.Reordered moved (.field f) (.field f)
  | union {head : Head} {ordinal : Option Ordinal} {ms ms₁ ms' : List Member}
      (members : List.Forall₂ (Member.Reordered moved) ms ms₁)
      (order : Rearranged (fun m => moved && m.isDecl) ms₁ ms') :
      Member.Reordered moved (.union head ordinal ms) (.union head ordinal ms')
  | anonymousUnion {span : Span} {annotations : List Application} {ms ms₁ ms' : List Member}
      (members : List.Forall₂ (Member.Reordered moved) ms ms₁)
      (order : Rearranged (fun m => moved && m.isDecl) ms₁ ms') :
      Member.Reordered moved (.anonymousUnion span annotations ms)
        (.anonymousUnion span annotations ms')
  | group {head : Head} {ms ms₁ ms' : List Member}
      (members : List.Forall₂ (Member.Reordered moved) ms ms₁)
      (order : Rearranged (fun m => moved && m.isDecl) ms₁ ms') :
      Member.Reordered moved (.group head ms) (.group head ms')
  | decl {d d' : Decl} (nested : Decl.Reordered moved d d') :
      Member.Reordered moved (.decl d) (.decl d')

/-- An item of an interface and the same with the declarations inside it in another order. -/
inductive InterfaceMember.Reordered (moved : Bool) : InterfaceMember → InterfaceMember → Prop
  | method {m : Method} : InterfaceMember.Reordered moved (.method m) (.method m)
  | decl {d d' : Decl} (nested : Decl.Reordered moved d d') :
      InterfaceMember.Reordered moved (.decl d) (.decl d')

end

/-- A module and the same with its declarations, at file scope and inside them, in another order. -/
structure Module.Reordered (moved : Bool) (m m' : Module) : Prop where
  id : m'.id = m.id
  annotations : m'.annotations = m.annotations
  decls : ∃ ds, List.Forall₂ (Decl.Reordered moved) m.decls ds ∧
    Rearranged (fun _ => moved) ds m'.decls

/-! ## Nothing moves -/

theorem rearranged_refl {α : Type} {movable : α → Bool} (as : List α) :
    Rearranged movable as as := ⟨.refl _, rfl⟩

section Refl

variable (moved : Bool)

mutual

theorem reordered_decl : ∀ d : Decl, d.Reordered moved d
  | .const _ => .const
  | .struct _ ms => .struct (reordered_members ms) (rearranged_refl _)
  | .enum _ => .enum
  | .interface _ _ ms => .interface (reordered_interfaceMembers ms) (rearranged_refl _)
  | .annotationDecl _ => .annotationDecl
  | .pathAlias _ => .pathAlias
  | .importAlias _ => .importAlias

theorem reordered_member : ∀ m : Member, m.Reordered moved m
  | .field _ => .field
  | .union _ _ ms => .union (reordered_members ms) (rearranged_refl _)
  | .anonymousUnion _ _ ms => .anonymousUnion (reordered_members ms) (rearranged_refl _)
  | .group _ ms => .group (reordered_members ms) (rearranged_refl _)
  | .decl d => .decl (reordered_decl d)

theorem reordered_members : ∀ ms : List Member, List.Forall₂ (Member.Reordered moved) ms ms
  | [] => .nil
  | m :: ms => .cons (reordered_member m) (reordered_members ms)

theorem reordered_interfaceMember : ∀ m : InterfaceMember, m.Reordered moved m
  | .method _ => .method
  | .decl d => .decl (reordered_decl d)

theorem reordered_interfaceMembers :
    ∀ ms : List InterfaceMember, List.Forall₂ (InterfaceMember.Reordered moved) ms ms
  | [] => .nil
  | m :: ms => .cons (reordered_interfaceMember m) (reordered_interfaceMembers ms)

end

theorem reordered_module (m : Module) : m.Reordered moved m :=
  ⟨rfl, rfl, m.decls, List.forall₂_same.2 fun d _ => reordered_decl moved d, rearranged_refl _⟩

end Refl

/-! ## Imports -/

section Imports

variable {moved : Bool}

theorem Rearranged.memberImports {ms ms' : List Member} {movable : Member → Bool}
    (h : Rearranged movable ms ms') : (memberImports ms).Perm (memberImports ms') := by
  rw [memberImports_eq_flatMap, memberImports_eq_flatMap]
  exact h.perm.flatMap_right _

theorem Rearranged.interfaceMemberImports {ms ms' : List InterfaceMember}
    {movable : InterfaceMember → Bool} (h : Rearranged movable ms ms') :
    (interfaceMemberImports ms).Perm (interfaceMemberImports ms') := by
  rw [interfaceMemberImports_eq_flatMap, interfaceMemberImports_eq_flatMap]
  exact h.perm.flatMap_right _

mutual

theorem imports_perm_decl : ∀ (d : Decl) {d' : Decl}, d.Reordered moved d' →
    d.imports.Perm d'.imports
  | .const _, _, .const => .refl _
  | .struct _ ms, _, .struct members order =>
    (imports_perm_members ms members).trans order.memberImports
  | .enum _, _, .enum => .refl _
  | .interface _ _ ms, _, .interface members order =>
    ((imports_perm_interfaceMembers ms members).trans order.interfaceMemberImports).append_left _
  | .annotationDecl _, _, .annotationDecl => .refl _
  | .pathAlias _, _, .pathAlias => .refl _
  | .importAlias _, _, .importAlias => .refl _

theorem imports_perm_member : ∀ (m : Member) {m' : Member}, m.Reordered moved m' →
    m.imports.Perm m'.imports
  | .field _, _, .field => .refl _
  | .union _ _ ms, _, .union members order =>
    (imports_perm_members ms members).trans order.memberImports
  | .anonymousUnion _ _ ms, _, .anonymousUnion members order =>
    (imports_perm_members ms members).trans order.memberImports
  | .group _ ms, _, .group members order =>
    (imports_perm_members ms members).trans order.memberImports
  | .decl d, _, .decl nested => imports_perm_decl d nested

theorem imports_perm_members : ∀ (ms : List Member) {ms' : List Member},
    List.Forall₂ (Member.Reordered moved) ms ms' → (memberImports ms).Perm (memberImports ms')
  | [], _, .nil => .refl _
  | m :: ms, _, .cons hm hms => (imports_perm_member m hm).append (imports_perm_members ms hms)

theorem imports_perm_interfaceMember : ∀ (m : InterfaceMember) {m' : InterfaceMember},
    m.Reordered moved m' → m.imports.Perm m'.imports
  | .method _, _, .method => .refl _
  | .decl d, _, .decl nested => imports_perm_decl d nested

theorem imports_perm_interfaceMembers : ∀ (ms : List InterfaceMember) {ms' : List InterfaceMember},
    List.Forall₂ (InterfaceMember.Reordered moved) ms ms' →
      (interfaceMemberImports ms).Perm (interfaceMemberImports ms')
  | [], _, .nil => .refl _
  | m :: ms, _, .cons hm hms =>
    (imports_perm_interfaceMember m hm).append (imports_perm_interfaceMembers ms hms)

end

/-- A module in another order has the same imports. -/
theorem imports_perm {m m' : Module} (h : m.Reordered moved m') : m.imports.Perm m'.imports := by
  obtain ⟨ds, hds, horder⟩ := h.decls
  refine List.Perm.trans ?_ (horder.perm.flatMap_right _)
  clear horder
  rw [Module.imports]
  generalize m.decls = ds₀ at hds ⊢
  induction hds with
  | nil => exact .refl _
  | cons hd _ ih => exact (imports_perm_decl _ hd).append ih

end Imports

end SchemaLang
