import SchemaLang.Scope.Placed

/-!
# The numbers of a placed module

Placing changes nothing in a module but adds numbers: `tree_placeDecl`.  The ids that it gives are
consecutive, in the order in which the declarations begin: `consecutive_placeDecl`.
-/

namespace SchemaLang

/-! ## Trees without numbers -/

mutual

/-- A placed declaration without its numbers. -/
def PlacedDecl.tree : PlacedDecl → Decl
  | .const _ d => .const d
  | .struct _ _ head ms => .struct head (memberTrees ms)
  | .enum _ d => .enum d
  | .interface _ _ head bases ms => .interface head bases (interfaceMemberTrees ms)
  | .annotationDecl _ d => .annotationDecl d
  | .pathAlias a => .pathAlias a
  | .importAlias a => .importAlias a

/-- A placed member without its numbers. -/
def PlacedMember.tree : PlacedMember → Member
  | .field f => .field f
  | .union _ _ head ordinal ms => .union head ordinal (memberTrees ms)
  | .anonymousUnion _ span annotations ms => .anonymousUnion span annotations (memberTrees ms)
  | .group _ _ head ms => .group head (memberTrees ms)
  | .decl d => .decl d.tree

/-- The members of a body without their numbers. -/
def memberTrees : List PlacedMember → List Member
  | [] => []
  | m :: ms => m.tree :: memberTrees ms

/-- A placed item of an interface without its numbers. -/
def PlacedInterfaceMember.tree : PlacedInterfaceMember → InterfaceMember
  | .method m => .method m
  | .decl d => .decl d.tree

/-- The items of an interface without their numbers. -/
def interfaceMemberTrees : List PlacedInterfaceMember → List InterfaceMember
  | [] => []
  | m :: ms => m.tree :: interfaceMemberTrees ms

end

mutual

theorem tree_placeDecl : ∀ (d : Decl) (next : Supply), (placeDecl next d).1.tree = d
  | .const _, _ | .enum _, _ | .annotationDecl _, _ | .pathAlias _, _ | .importAlias _, _ => rfl
  | .struct head ms, next => by
    rw [placeDecl]
    exact congrArg (Decl.struct head) (trees_placeMembers ms _)
  | .interface head bases ms, next => by
    rw [placeDecl]
    exact congrArg (Decl.interface head bases) (trees_placeInterfaceMembers ms _)

theorem tree_placeMember : ∀ (m : Member) (next : Supply), (placeMember next m).1.tree = m
  | .field _, _ => rfl
  | .union head ordinal ms, next => by
    rw [placeMember]
    exact congrArg (Member.union head ordinal) (trees_placeMembers ms _)
  | .anonymousUnion span annotations ms, next => by
    rw [placeMember]
    exact congrArg (Member.anonymousUnion span annotations) (trees_placeMembers ms _)
  | .group head ms, next => by
    rw [placeMember]
    exact congrArg (Member.group head) (trees_placeMembers ms _)
  | .decl d, next => by
    rw [placeMember]
    exact congrArg Member.decl (tree_placeDecl d next)

theorem trees_placeMembers : ∀ (ms : List Member) (next : Supply),
    memberTrees (placeMembers next ms).1 = ms
  | [], _ => rfl
  | m :: ms, next => by
    rw [placeMembers]
    exact List.cons_eq_cons.2 ⟨tree_placeMember m next, trees_placeMembers ms _⟩

theorem tree_placeInterfaceMember : ∀ (m : InterfaceMember) (next : Supply),
    (placeInterfaceMember next m).1.tree = m
  | .method _, _ => rfl
  | .decl d, next => by
    rw [placeInterfaceMember]
    exact congrArg InterfaceMember.decl (tree_placeDecl d next)

theorem trees_placeInterfaceMembers : ∀ (ms : List InterfaceMember) (next : Supply),
    interfaceMemberTrees (placeInterfaceMembers next ms).1 = ms
  | [], _ => rfl
  | m :: ms, next => by
    rw [placeInterfaceMembers]
    exact List.cons_eq_cons.2
      ⟨tree_placeInterfaceMember m next, trees_placeInterfaceMembers ms _⟩

end

theorem trees_placeDecls (ds : List Decl) :
    ∀ next, (placeDecls next ds).1.map PlacedDecl.tree = ds := by
  induction ds with
  | nil => exact fun _ => rfl
  | cons d ds ih =>
    intro next
    rw [placeDecls, List.map_cons]
    exact List.cons_eq_cons.2 ⟨tree_placeDecl d next, ih _⟩

/-! ## Ids -/

mutual

/-- The ids in a declaration, its own before those nested in it. -/
def PlacedDecl.ids : PlacedDecl → List DeclId
  | .const id _ => [id]
  | .struct id _ _ ms => id :: memberIds ms
  | .enum id _ => [id]
  | .interface id _ _ _ ms => id :: interfaceMemberIds ms
  | .annotationDecl id _ => [id]
  | .pathAlias _ => []
  | .importAlias _ => []

/-- The ids in a member. -/
def PlacedMember.ids : PlacedMember → List DeclId
  | .field _ => []
  | .union id _ _ _ ms => id :: memberIds ms
  | .anonymousUnion _ _ _ ms => memberIds ms
  | .group id _ _ ms => id :: memberIds ms
  | .decl d => d.ids

/-- The ids in the members of a body. -/
def memberIds : List PlacedMember → List DeclId
  | [] => []
  | m :: ms => m.ids ++ memberIds ms

/-- The ids in an item of an interface. -/
def PlacedInterfaceMember.ids : PlacedInterfaceMember → List DeclId
  | .method _ => []
  | .decl d => d.ids

/-- The ids in the items of an interface. -/
def interfaceMemberIds : List PlacedInterfaceMember → List DeclId
  | [] => []
  | m :: ms => m.ids ++ interfaceMemberIds ms

end

theorem memberIds_eq_flatMap (ms : List PlacedMember) :
    memberIds ms = ms.flatMap PlacedMember.ids := by
  induction ms with
  | nil => rfl
  | cons m ms ih => rw [memberIds, ih, List.flatMap_cons]

theorem interfaceMemberIds_eq_flatMap (ms : List PlacedInterfaceMember) :
    interfaceMemberIds ms = ms.flatMap PlacedInterfaceMember.ids := by
  induction ms with
  | nil => rfl
  | cons m ms ih => rw [interfaceMemberIds, ih, List.flatMap_cons]

/-- The numbers from `n` on, up to but without `n'`. -/
def Consecutive (n : Nat) (ids : List Nat) (n' : Nat) : Prop :=
  ids = List.range' n ids.length ∧ n' = n + ids.length

theorem consecutive_nil (n : Nat) : Consecutive n [] n := ⟨rfl, rfl⟩

theorem consecutive_singleton (n : Nat) : Consecutive n [n] (n + 1) := ⟨rfl, rfl⟩

theorem Consecutive.append {n n₁ n' : Nat} {ids ids' : List Nat} (h : Consecutive n ids n₁)
    (h' : Consecutive n₁ ids' n') : Consecutive n (ids ++ ids') n' := by
  obtain ⟨hids, rfl⟩ := h
  obtain ⟨hids', rfl⟩ := h'
  constructor
  · rw [List.length_append, ← List.range'_append_1, ← hids, ← hids']
  · rw [List.length_append, Nat.add_assoc]

theorem Consecutive.cons {n n' : Nat} {ids : List Nat} (h : Consecutive (n + 1) ids n') :
    Consecutive n (n :: ids) n' := (consecutive_singleton n).append h

mutual

theorem consecutive_placeDecl : ∀ (d : Decl) (next : Supply),
    Consecutive next.decl (placeDecl next d).1.ids (placeDecl next d).2.decl
  | .const _, next | .enum _, next | .annotationDecl _, next => consecutive_singleton next.decl
  | .pathAlias _, next | .importAlias _, next => consecutive_nil next.decl
  | .struct head ms, next => by
    rw [placeDecl]
    exact (consecutive_placeMembers ms _).cons
  | .interface head bases ms, next => by
    rw [placeDecl]
    exact (consecutive_placeInterfaceMembers ms _).cons

theorem consecutive_placeMember : ∀ (m : Member) (next : Supply),
    Consecutive next.decl (placeMember next m).1.ids (placeMember next m).2.decl
  | .field _, next => consecutive_nil next.decl
  | .union head ordinal ms, next => by
    rw [placeMember]
    exact (consecutive_placeMembers ms _).cons
  | .anonymousUnion span annotations ms, next => by
    rw [placeMember]
    exact consecutive_placeMembers ms _
  | .group head ms, next => by
    rw [placeMember]
    exact (consecutive_placeMembers ms _).cons
  | .decl d, next => by
    rw [placeMember]
    exact consecutive_placeDecl d next

theorem consecutive_placeMembers : ∀ (ms : List Member) (next : Supply),
    Consecutive next.decl (memberIds (placeMembers next ms).1) (placeMembers next ms).2.decl
  | [], next => consecutive_nil next.decl
  | m :: ms, next => by
    rw [placeMembers]
    exact (consecutive_placeMember m next).append (consecutive_placeMembers ms _)

theorem consecutive_placeInterfaceMember : ∀ (m : InterfaceMember) (next : Supply),
    Consecutive next.decl (placeInterfaceMember next m).1.ids (placeInterfaceMember next m).2.decl
  | .method _, next => consecutive_nil next.decl
  | .decl d, next => by
    rw [placeInterfaceMember]
    exact consecutive_placeDecl d next

theorem consecutive_placeInterfaceMembers : ∀ (ms : List InterfaceMember) (next : Supply),
    Consecutive next.decl (interfaceMemberIds (placeInterfaceMembers next ms).1)
      (placeInterfaceMembers next ms).2.decl
  | [], next => consecutive_nil next.decl
  | m :: ms, next => by
    rw [placeInterfaceMembers]
    exact (consecutive_placeInterfaceMember m next).append (consecutive_placeInterfaceMembers ms _)

end

theorem consecutive_placeDecls (ds : List Decl) : ∀ next : Supply,
    Consecutive next.decl ((placeDecls next ds).1.flatMap PlacedDecl.ids)
      (placeDecls next ds).2.decl := by
  induction ds with
  | nil => exact fun next => consecutive_nil next.decl
  | cons d ds ih =>
    intro next
    rw [placeDecls, List.flatMap_cons]
    exact (consecutive_placeDecl d next).append (ih _)

end SchemaLang
