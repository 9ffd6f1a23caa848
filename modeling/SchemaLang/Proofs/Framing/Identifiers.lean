import SchemaLang.Import.Load
import SchemaLang.Proofs.Placing.Tables

/-!
# The identifiers of a tree

`identifiers` lists every identifier that occurs in a tree: the names that are declared in it, those
that stand in paths, types and literals, and those that aliases bind.  What the tables keep of a
module mentions no others: `identifiers_fileScopes` and `identifiers_fileEntries`.
-/

namespace SchemaLang

/-! ## Names, types and literals -/

def Path.identifiers (p : Path) : List String := p.segments.map Ident.name

def TypeRef.identifiers : TypeRef → List String
  | .named p => p.identifiers
  | .list _ element => element.identifiers
  | .imported _ _ segments => segments.map Ident.name

mutual

def Literal.identifiers : Literal → List String
  | .void _ | .bool _ _ | .int _ _ | .float _ _ | .text _ _ => []
  | .name p => p.identifiers
  | .list _ items => itemIdentifiers items
  | .struct _ fields => fieldIdentifiers fields

/-- The identifiers in the items of a list. -/
def itemIdentifiers : List Literal → List String
  | [] => []
  | l :: ls => l.identifiers ++ itemIdentifiers ls

/-- The identifiers in the fields of a struct. -/
def fieldIdentifiers : List (Ident × Literal) → List String
  | [] => []
  | (i, l) :: fields => i.name :: (l.identifiers ++ fieldIdentifiers fields)

end

def Application.identifiers (a : Application) : List String :=
  a.name.identifiers ++ a.value.toList.flatMap Literal.identifiers

/-! ## Declarations -/

def Const.identifiers (d : Const) : List String :=
  d.name.name :: (d.type.identifiers ++ d.value.identifiers ++
    d.annotations.flatMap Application.identifiers)

def Field.identifiers (f : Field) : List String :=
  f.name.name :: (f.type.identifiers ++ f.default.toList.flatMap Literal.identifiers ++
    f.annotations.flatMap Application.identifiers)

def Enumerant.identifiers (e : Enumerant) : List String :=
  e.name.name :: e.annotations.flatMap Application.identifiers

def Enum.identifiers (d : Enum) : List String :=
  d.name.name :: (d.annotations.flatMap Application.identifiers ++
    d.enumerants.flatMap Enumerant.identifiers)

def Param.identifiers (p : Param) : List String :=
  p.name.name :: (p.type.identifiers ++ p.default.toList.flatMap Literal.identifiers ++
    p.annotations.flatMap Application.identifiers)

def Method.identifiers (m : Method) : List String :=
  m.name.name :: (m.params.flatMap Param.identifiers ++
    m.results.toList.flatMap (List.flatMap Param.identifiers) ++
    m.annotations.flatMap Application.identifiers)

def AnnotationDecl.identifiers (d : AnnotationDecl) : List String :=
  d.name.name :: (d.type.identifiers ++ d.annotations.flatMap Application.identifiers)

def Alias.identifiers (a : Alias) : List String :=
  a.name.toList.map Ident.name ++ a.target.identifiers

def ImportAlias.identifiers (a : ImportAlias) : List String :=
  a.name.toList.map Ident.name ++ a.path.map Ident.name

def Head.identifiers (head : Head) : List String :=
  head.name.name :: head.annotations.flatMap Application.identifiers

mutual

def Decl.identifiers : Decl → List String
  | .const d => d.identifiers
  | .struct head ms => head.identifiers ++ memberIdentifiers ms
  | .enum d => d.identifiers
  | .interface head bases ms =>
    head.identifiers ++ bases.flatMap TypeRef.identifiers ++ interfaceMemberIdentifiers ms
  | .annotationDecl d => d.identifiers
  | .pathAlias a => a.identifiers
  | .importAlias a => a.identifiers

def Member.identifiers : Member → List String
  | .field f => f.identifiers
  | .union head _ ms => head.identifiers ++ memberIdentifiers ms
  | .anonymousUnion _ annotations ms =>
    annotations.flatMap Application.identifiers ++ memberIdentifiers ms
  | .group head ms => head.identifiers ++ memberIdentifiers ms
  | .decl d => d.identifiers

/-- The identifiers in the members of a body. -/
def memberIdentifiers : List Member → List String
  | [] => []
  | m :: ms => m.identifiers ++ memberIdentifiers ms

def InterfaceMember.identifiers : InterfaceMember → List String
  | .method m => m.identifiers
  | .decl d => d.identifiers

/-- The identifiers in the items of an interface. -/
def interfaceMemberIdentifiers : List InterfaceMember → List String
  | [] => []
  | m :: ms => m.identifiers ++ interfaceMemberIdentifiers ms

end

def Module.identifiers (m : Module) : List String :=
  m.annotations.flatMap Application.identifiers ++ m.decls.flatMap Decl.identifiers

def LoadedModule.identifiers (x : LoadedModule) : List String :=
  x.annotations.flatMap Application.identifiers ++ x.decls.flatMap fun d => d.tree.identifiers

/-! ## Aliases -/

/-- The identifiers in what an alias stands for. -/
def AliasTarget.identifiers : AliasTarget → List String
  | .path p => p.identifiers
  | .imported _ segments => segments.map Ident.name

theorem PlacedDecl.aliased?_identifiers {d : PlacedDecl} {x : Ident × AliasTarget}
    (h : d.aliased? = some x) : x.2.identifiers ⊆ d.tree.identifiers := by
  cases d with
  | pathAlias a | importAlias a =>
    obtain ⟨i, -, rfl⟩ := Option.map_eq_some_iff.1 h
    exact List.subset_append_right _ _
  | _ => cases h

theorem PlacedMember.aliased?_identifiers {m : PlacedMember} {x : Ident × AliasTarget}
    (h : m.aliased? = some x) : x.2.identifiers ⊆ m.tree.identifiers := by
  cases m with
  | decl d => exact PlacedDecl.aliased?_identifiers h
  | _ => cases h

theorem PlacedInterfaceMember.aliased?_identifiers {m : PlacedInterfaceMember}
    {x : Ident × AliasTarget} (h : m.aliased? = some x) :
    x.2.identifiers ⊆ m.tree.identifiers := by
  cases m with
  | method => cases h
  | decl d => exact PlacedDecl.aliased?_identifiers h

/-! ## Scopes -/

/-- The aliases of the scope stand for what these identifiers name. -/
def Scope.Mentions (identifiers : List String) (s : Scope) : Prop :=
  ∀ x ∈ s.aliases, x.2.identifiers ⊆ identifiers

theorem Scope.Mentions.mono {identifiers identifiers' : List String} {s : Scope}
    (h : s.Mentions identifiers) (hsub : identifiers ⊆ identifiers') : s.Mentions identifiers' :=
  fun x hx => List.Subset.trans (h x hx) hsub

/-- The scope of items mentions what the items do. -/
theorem mentions_binding {π : Type} {declared? : π → Option (DeclId × Ident)}
    {aliased? : π → Option (Ident × AliasTarget)} {identifiers : π → List String} {ms : List π}
    (h : ∀ m x, aliased? m = some x → x.2.identifiers ⊆ identifiers m) (module : ModuleId)
    (enclosing : List ScopeId) :
    (Scope.binding module enclosing (ms.filterMap declared?) (ms.filterMap aliased?)).Mentions
      (ms.flatMap identifiers) := by
  intro x hx
  obtain ⟨y, hy, rfl⟩ := List.mem_map.1 hx
  obtain ⟨m, hm, hy⟩ := List.mem_filterMap.1 hy
  exact fun n hn => List.mem_flatMap.2 ⟨m, hm, h m y hy hn⟩

theorem memberIdentifiers_trees (ms : List PlacedMember) :
    memberIdentifiers (memberTrees ms) = ms.flatMap fun m => m.tree.identifiers := by
  induction ms with
  | nil => rfl
  | cons m ms ih => rw [memberTrees, memberIdentifiers, ih, List.flatMap_cons]

theorem interfaceMemberIdentifiers_trees (ms : List PlacedInterfaceMember) :
    interfaceMemberIdentifiers (interfaceMemberTrees ms) =
      ms.flatMap fun m => m.tree.identifiers := by
  induction ms with
  | nil => rfl
  | cons m ms ih => rw [interfaceMemberTrees, interfaceMemberIdentifiers, ih, List.flatMap_cons]

section Scopes

variable (module : ModuleId)

/-- The scope of a body of a struct, union or group. -/
theorem mentions_body (enclosing : List ScopeId) (ms : List PlacedMember) :
    (Scope.binding module enclosing (ms.filterMap (·.declared?))
      (ms.filterMap (·.aliased?))).Mentions (memberIdentifiers (memberTrees ms)) := by
  rw [memberIdentifiers_trees]
  exact mentions_binding (fun m _ => m.aliased?_identifiers) module enclosing

/-- The scope of an interface. -/
theorem mentions_interfaceBody (enclosing : List ScopeId) (ms : List PlacedInterfaceMember) :
    (Scope.binding module enclosing (ms.filterMap (·.declared?))
      (ms.filterMap (·.aliased?))).Mentions
        (interfaceMemberIdentifiers (interfaceMemberTrees ms)) := by
  rw [interfaceMemberIdentifiers_trees]
  exact mentions_binding (fun m _ => m.aliased?_identifiers) module enclosing

mutual

theorem identifiers_scopes_decl : ∀ (d : PlacedDecl) (enclosing : List ScopeId),
    ∀ s ∈ d.scopes module enclosing, s.Mentions d.tree.identifiers
  | .const _ _, _ | .enum _ _, _ | .annotationDecl _ _, _ | .pathAlias _, _ | .importAlias _, _ =>
    fun _ hs => absurd hs List.not_mem_nil
  | .struct _ body _ ms, enclosing =>
    fun s hs => (List.forall_mem_cons.2 ⟨mentions_body module enclosing ms,
      identifiers_memberScopes ms (body :: enclosing)⟩ s hs).mono (List.subset_append_right _ _)
  | .interface _ body _ _ ms, enclosing =>
    fun s hs => (List.forall_mem_cons.2 ⟨mentions_interfaceBody module enclosing ms,
      identifiers_interfaceMemberScopes ms (body :: enclosing)⟩ s hs).mono
        (List.subset_append_right _ _)

theorem identifiers_scopes_member : ∀ (m : PlacedMember) (enclosing : List ScopeId),
    ∀ s ∈ m.scopes module enclosing, s.Mentions m.tree.identifiers
  | .field _, _ => fun _ hs => absurd hs List.not_mem_nil
  | .union _ body _ _ ms, enclosing | .anonymousUnion body _ _ ms, enclosing
  | .group _ body _ ms, enclosing =>
    fun s hs => (List.forall_mem_cons.2 ⟨mentions_body module enclosing ms,
      identifiers_memberScopes ms (body :: enclosing)⟩ s hs).mono (List.subset_append_right _ _)
  | .decl d, enclosing => identifiers_scopes_decl d enclosing

theorem identifiers_memberScopes : ∀ (ms : List PlacedMember) (enclosing : List ScopeId),
    ∀ s ∈ memberScopes module enclosing ms, s.Mentions (memberIdentifiers (memberTrees ms))
  | [], _ => fun _ hs => absurd hs List.not_mem_nil
  | m :: ms, enclosing => List.forall_mem_append.2
    ⟨fun s hs => (identifiers_scopes_member m enclosing s hs).mono (List.subset_append_left _ _),
      fun s hs => (identifiers_memberScopes ms enclosing s hs).mono (List.subset_append_right _ _)⟩

theorem identifiers_scopes_interfaceMember : ∀ (m : PlacedInterfaceMember)
    (enclosing : List ScopeId), ∀ s ∈ m.scopes module enclosing, s.Mentions m.tree.identifiers
  | .method _, _ => fun _ hs => absurd hs List.not_mem_nil
  | .decl d, enclosing => identifiers_scopes_decl d enclosing

theorem identifiers_interfaceMemberScopes : ∀ (ms : List PlacedInterfaceMember)
    (enclosing : List ScopeId), ∀ s ∈ interfaceMemberScopes module enclosing ms,
      s.Mentions (interfaceMemberIdentifiers (interfaceMemberTrees ms))
  | [], _ => fun _ hs => absurd hs List.not_mem_nil
  | m :: ms, enclosing => List.forall_mem_append.2
    ⟨fun s hs => (identifiers_scopes_interfaceMember m enclosing s hs).mono
        (List.subset_append_left _ _),
      fun s hs => (identifiers_interfaceMemberScopes ms enclosing s hs).mono
        (List.subset_append_right _ _)⟩

end

/-- The scopes of a file mention what its declarations do. -/
theorem identifiers_fileScopes (scope : ScopeId) (ds : List PlacedDecl) :
    ∀ s ∈ fileScopes module scope ds, s.Mentions (ds.flatMap fun d => d.tree.identifiers) := by
  refine List.forall_mem_cons.2 ⟨?_, fun s hs => ?_⟩
  · exact mentions_binding (fun d _ => d.aliased?_identifiers) module []
  · obtain ⟨d, hd, hs⟩ := List.mem_flatMap.1 hs
    exact (identifiers_scopes_decl module d _ s hs).mono
      fun n hn => List.mem_flatMap.2 ⟨d, hd, hn⟩

end Scopes

/-! ## Entries -/

/-- The identifiers in what a field of a struct literal sets. -/
def FieldContent.identifiers : FieldContent → List String
  | .typed t _ => t.identifiers
  | .nested _ => []

/-- The identifiers in the types that an entry holds. -/
def EntryContent.identifiers : EntryContent → List String
  | .struct _ fields => fields.flatMap fun f => f.content.identifiers
  | .interface _ bases _ => bases.flatMap TypeRef.identifiers
  | .annotationDecl _ t => t.identifiers
  | .union _ fields => fields.flatMap fun f => f.content.identifiers
  | .group _ fields => fields.flatMap fun f => f.content.identifiers
  | .const => []
  | .enum _ => []

mutual

theorem identifiers_fieldEntries : ∀ (m : PlacedMember) (home : ScopeId),
    (m.fieldEntries home).flatMap (fun f => f.content.identifiers) ⊆ m.tree.identifiers
  | .field f, _ => fun n hn => by
    have htype : n ∈ f.type.identifiers := by
      simpa [PlacedMember.fieldEntries, FieldContent.identifiers] using hn
    simp [PlacedMember.tree, Member.identifiers, Field.identifiers, htype]
  | .union _ _ _ _ _, _ | .group _ _ _ _, _ | .decl _, _ => fun _ h => absurd h List.not_mem_nil
  | .anonymousUnion body _ _ ms, _ =>
    List.Subset.trans (identifiers_memberFieldEntries ms body) (List.subset_append_right _ _)

theorem identifiers_memberFieldEntries : ∀ (ms : List PlacedMember) (home : ScopeId),
    (memberFieldEntries home ms).flatMap (fun f => f.content.identifiers) ⊆
      memberIdentifiers (memberTrees ms)
  | [], _ => fun _ h => absurd h List.not_mem_nil
  | m :: ms, home => by
    rw [memberFieldEntries, List.flatMap_append]
    exact List.append_subset.2
      ⟨List.Subset.trans (identifiers_fieldEntries m home) (List.subset_append_left _ _),
        List.Subset.trans (identifiers_memberFieldEntries ms home) (List.subset_append_right _ _)⟩

end

section Entries

variable (module : ModuleId)

mutual

theorem identifiers_entries_decl : ∀ (d : PlacedDecl) (parent : Option DeclId) (home : ScopeId),
    ∀ e ∈ d.entries module parent home, e.content.identifiers ⊆ d.tree.identifiers
  | .const _ _, _, _ | .enum _ _, _, _ =>
    List.forall_mem_singleton.2 fun _ h => absurd h List.not_mem_nil
  | .annotationDecl _ d, _, _ => List.forall_mem_singleton.2
    (List.subset_cons_of_subset _ (List.subset_append_left _ _))
  | .pathAlias _, _, _ | .importAlias _, _, _ => fun _ h => absurd h List.not_mem_nil
  | .struct id body head ms, _, _ =>
    have hbody := List.subset_append_right head.identifiers
      (memberIdentifiers (memberTrees ms))
    List.forall_mem_cons.2
      ⟨List.Subset.trans (identifiers_memberFieldEntries ms body) hbody, fun e he =>
        List.Subset.trans (identifiers_memberEntries ms (some id) body e he) hbody⟩
  | .interface id body head bases ms, _, _ => by
    refine List.forall_mem_cons.2 ⟨?_, fun e he => ?_⟩
    · exact List.Subset.trans (List.subset_append_right head.identifiers _)
        (List.subset_append_left _ _)
    · exact List.Subset.trans (identifiers_interfaceMemberEntries ms (some id) body e he)
        (List.subset_append_right _ _)

theorem identifiers_entries_member : ∀ (m : PlacedMember) (parent : Option DeclId)
    (home : ScopeId), ∀ e ∈ m.entries module parent home,
      e.content.identifiers ⊆ m.tree.identifiers
  | .field _, _, _ => fun _ h => absurd h List.not_mem_nil
  | .union id body head _ ms, _, _ | .group id body head ms, _, _ =>
    have hbody := List.subset_append_right head.identifiers
      (memberIdentifiers (memberTrees ms))
    List.forall_mem_cons.2
      ⟨List.Subset.trans (identifiers_memberFieldEntries ms body) hbody, fun e he =>
        List.Subset.trans (identifiers_memberEntries ms (some id) body e he) hbody⟩
  | .anonymousUnion body _ _ ms, parent, _ =>
    fun e he => List.Subset.trans (identifiers_memberEntries ms parent body e he)
      (List.subset_append_right _ _)
  | .decl d, parent, home => identifiers_entries_decl d parent home

theorem identifiers_memberEntries : ∀ (ms : List PlacedMember) (parent : Option DeclId)
    (home : ScopeId), ∀ e ∈ memberEntries module parent home ms,
      e.content.identifiers ⊆ memberIdentifiers (memberTrees ms)
  | [], _, _ => fun _ h => absurd h List.not_mem_nil
  | m :: ms, parent, home => List.forall_mem_append.2
    ⟨fun e he => List.Subset.trans (identifiers_entries_member m parent home e he)
        (List.subset_append_left _ _),
      fun e he => List.Subset.trans (identifiers_memberEntries ms parent home e he)
        (List.subset_append_right _ _)⟩

theorem identifiers_entries_interfaceMember : ∀ (m : PlacedInterfaceMember)
    (parent : Option DeclId) (home : ScopeId), ∀ e ∈ m.entries module parent home,
      e.content.identifiers ⊆ m.tree.identifiers
  | .method _, _, _ => fun _ h => absurd h List.not_mem_nil
  | .decl d, parent, home => identifiers_entries_decl d parent home

theorem identifiers_interfaceMemberEntries : ∀ (ms : List PlacedInterfaceMember)
    (parent : Option DeclId) (home : ScopeId), ∀ e ∈ interfaceMemberEntries module parent home ms,
      e.content.identifiers ⊆ interfaceMemberIdentifiers (interfaceMemberTrees ms)
  | [], _, _ => fun _ h => absurd h List.not_mem_nil
  | m :: ms, parent, home => List.forall_mem_append.2
    ⟨fun e he => List.Subset.trans (identifiers_entries_interfaceMember m parent home e he)
        (List.subset_append_left _ _),
      fun e he => List.Subset.trans (identifiers_interfaceMemberEntries ms parent home e he)
        (List.subset_append_right _ _)⟩

end

/-- The entries of a file mention what its declarations do. -/
theorem identifiers_fileEntries (scope : ScopeId) (ds : List PlacedDecl) :
    ∀ e ∈ fileEntries module scope ds,
      e.content.identifiers ⊆ ds.flatMap fun d => d.tree.identifiers := by
  intro e he n hn
  obtain ⟨d, hd, he⟩ := List.mem_flatMap.1 he
  exact List.mem_flatMap.2 ⟨d, hd, identifiers_entries_decl module d none scope e he hn⟩

end Entries

end SchemaLang
