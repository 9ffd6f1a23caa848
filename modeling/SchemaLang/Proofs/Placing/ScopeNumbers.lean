import SchemaLang.Proofs.Placing.Numbering
import SchemaLang.Scope.Table

/-!
# The scope numbers of a placed module

The numbers that placing gives to scopes are consecutive, in the order in which the bodies begin:
`consecutive_scopes_placeDecl`.  The scopes of a declaration are as many as its scope numbers.
-/

namespace SchemaLang

mutual

/-- The numbers of the scopes in a declaration, its own before those nested in it. -/
def PlacedDecl.scopeIds : PlacedDecl → List ScopeId
  | .const _ _ => []
  | .struct _ body _ ms => body :: memberScopeIds ms
  | .enum _ _ => []
  | .interface _ body _ _ ms => body :: interfaceMemberScopeIds ms
  | .annotationDecl _ _ => []
  | .pathAlias _ => []
  | .importAlias _ => []

/-- The numbers of the scopes in a member. -/
def PlacedMember.scopeIds : PlacedMember → List ScopeId
  | .field _ => []
  | .union _ body _ _ ms => body :: memberScopeIds ms
  | .anonymousUnion body _ _ ms => body :: memberScopeIds ms
  | .group _ body _ ms => body :: memberScopeIds ms
  | .decl d => d.scopeIds

/-- The numbers of the scopes in the members of a body. -/
def memberScopeIds : List PlacedMember → List ScopeId
  | [] => []
  | m :: ms => m.scopeIds ++ memberScopeIds ms

/-- The numbers of the scopes in an item of an interface. -/
def PlacedInterfaceMember.scopeIds : PlacedInterfaceMember → List ScopeId
  | .method _ => []
  | .decl d => d.scopeIds

/-- The numbers of the scopes in the items of an interface. -/
def interfaceMemberScopeIds : List PlacedInterfaceMember → List ScopeId
  | [] => []
  | m :: ms => m.scopeIds ++ interfaceMemberScopeIds ms

end

theorem memberScopeIds_eq_flatMap (ms : List PlacedMember) :
    memberScopeIds ms = ms.flatMap PlacedMember.scopeIds := by
  induction ms with
  | nil => rfl
  | cons m ms ih => rw [memberScopeIds, ih, List.flatMap_cons]

theorem interfaceMemberScopeIds_eq_flatMap (ms : List PlacedInterfaceMember) :
    interfaceMemberScopeIds ms = ms.flatMap PlacedInterfaceMember.scopeIds := by
  induction ms with
  | nil => rfl
  | cons m ms ih => rw [interfaceMemberScopeIds, ih, List.flatMap_cons]

/-! ## Placing -/

mutual

theorem consecutive_scopes_placeDecl : ∀ (d : Decl) (next : Supply),
    Consecutive next.scope (placeDecl next d).1.scopeIds (placeDecl next d).2.scope
  | .const _, next | .enum _, next | .annotationDecl _, next => consecutive_nil next.scope
  | .pathAlias _, next | .importAlias _, next => consecutive_nil next.scope
  | .struct head ms, next => by
    rw [placeDecl]
    exact (consecutive_scopes_placeMembers ms _).cons
  | .interface head bases ms, next => by
    rw [placeDecl]
    exact (consecutive_scopes_placeInterfaceMembers ms _).cons

theorem consecutive_scopes_placeMember : ∀ (m : Member) (next : Supply),
    Consecutive next.scope (placeMember next m).1.scopeIds (placeMember next m).2.scope
  | .field _, next => consecutive_nil next.scope
  | .union head ordinal ms, next => by
    rw [placeMember]
    exact (consecutive_scopes_placeMembers ms _).cons
  | .anonymousUnion span annotations ms, next => by
    rw [placeMember]
    exact (consecutive_scopes_placeMembers ms _).cons
  | .group head ms, next => by
    rw [placeMember]
    exact (consecutive_scopes_placeMembers ms _).cons
  | .decl d, next => by
    rw [placeMember]
    exact consecutive_scopes_placeDecl d next

theorem consecutive_scopes_placeMembers : ∀ (ms : List Member) (next : Supply),
    Consecutive next.scope (memberScopeIds (placeMembers next ms).1) (placeMembers next ms).2.scope
  | [], next => consecutive_nil next.scope
  | m :: ms, next => by
    rw [placeMembers]
    exact (consecutive_scopes_placeMember m next).append (consecutive_scopes_placeMembers ms _)

theorem consecutive_scopes_placeInterfaceMember : ∀ (m : InterfaceMember) (next : Supply),
    Consecutive next.scope (placeInterfaceMember next m).1.scopeIds
      (placeInterfaceMember next m).2.scope
  | .method _, next => consecutive_nil next.scope
  | .decl d, next => by
    rw [placeInterfaceMember]
    exact consecutive_scopes_placeDecl d next

theorem consecutive_scopes_placeInterfaceMembers : ∀ (ms : List InterfaceMember) (next : Supply),
    Consecutive next.scope (interfaceMemberScopeIds (placeInterfaceMembers next ms).1)
      (placeInterfaceMembers next ms).2.scope
  | [], next => consecutive_nil next.scope
  | m :: ms, next => by
    rw [placeInterfaceMembers]
    exact (consecutive_scopes_placeInterfaceMember m next).append
      (consecutive_scopes_placeInterfaceMembers ms _)

end

theorem consecutive_scopes_placeDecls (ds : List Decl) : ∀ next : Supply,
    Consecutive next.scope ((placeDecls next ds).1.flatMap PlacedDecl.scopeIds)
      (placeDecls next ds).2.scope := by
  induction ds with
  | nil => exact fun next => consecutive_nil next.scope
  | cons d ds ih =>
    intro next
    rw [placeDecls, List.flatMap_cons]
    exact (consecutive_scopes_placeDecl d next).append (ih _)

/-! ## Scopes -/

section Scopes

variable (module : ModuleId)

mutual

theorem length_scopes_placedDecl : ∀ (d : PlacedDecl) (enclosing : List ScopeId),
    (d.scopes module enclosing).length = d.scopeIds.length
  | .const _ _, _ | .enum _ _, _ | .annotationDecl _ _, _ => rfl
  | .pathAlias _, _ | .importAlias _, _ => rfl
  | .struct _ body _ ms, enclosing => congrArg (· + 1) (length_memberScopes ms (body :: enclosing))
  | .interface _ body _ _ ms, enclosing =>
    congrArg (· + 1) (length_interfaceMemberScopes ms (body :: enclosing))

theorem length_scopes_placedMember : ∀ (m : PlacedMember) (enclosing : List ScopeId),
    (m.scopes module enclosing).length = m.scopeIds.length
  | .field _, _ => rfl
  | .union _ body _ _ ms, enclosing | .anonymousUnion body _ _ ms, enclosing
  | .group _ body _ ms, enclosing =>
    congrArg (· + 1) (length_memberScopes ms (body :: enclosing))
  | .decl d, enclosing => length_scopes_placedDecl d enclosing

theorem length_memberScopes : ∀ (ms : List PlacedMember) (enclosing : List ScopeId),
    (memberScopes module enclosing ms).length = (memberScopeIds ms).length
  | [], _ => rfl
  | m :: ms, enclosing => by
    rw [memberScopes, memberScopeIds, List.length_append, List.length_append,
      length_scopes_placedMember m, length_memberScopes ms]

theorem length_scopes_placedInterfaceMember : ∀ (m : PlacedInterfaceMember)
    (enclosing : List ScopeId), (m.scopes module enclosing).length = m.scopeIds.length
  | .method _, _ => rfl
  | .decl d, enclosing => length_scopes_placedDecl d enclosing

theorem length_interfaceMemberScopes : ∀ (ms : List PlacedInterfaceMember)
    (enclosing : List ScopeId),
    (interfaceMemberScopes module enclosing ms).length = (interfaceMemberScopeIds ms).length
  | [], _ => rfl
  | m :: ms, enclosing => by
    rw [interfaceMemberScopes, interfaceMemberScopeIds, List.length_append, List.length_append,
      length_scopes_placedInterfaceMember m, length_interfaceMemberScopes ms]

end

end Scopes

end SchemaLang
