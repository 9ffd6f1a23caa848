import SchemaLang.Proofs.Loading.Mentioned
import SchemaLang.Proofs.Placing.Numbering
import SchemaLang.Scope.Table

/-!
# The tables of a placed module

The scopes of a placed declaration bind names to its own ids and hold no import but its own, and
its entries, as many as its ids, hold no type with another import: `within_fileScopes` and
`imports_fileEntries`.
-/

namespace SchemaLang

/-! ## Imports in the tables -/

/-- The scope binds names to these ids only, and the aliases in it stand for these imports only. -/
structure Scope.Within (ids : List DeclId) (is : List ImportPath) (s : Scope) : Prop where
  names : ∀ x ∈ s.names, x.2 ∈ ids
  aliases : ∀ x ∈ s.aliases, ∀ source path, x.2 = .imported source path → source ∈ is

theorem Scope.Within.mono {ids ids' : List DeclId} {is is' : List ImportPath} {s : Scope}
    (h : s.Within ids is) (hids : ids ⊆ ids') (his : is ⊆ is') : s.Within ids' is' :=
  ⟨fun x hx => hids (h.names x hx), fun x hx source path e => his (h.aliases x hx source path e)⟩

theorem Scope.within_binding {module : ModuleId} {enclosing : List ScopeId}
    {declared : List (DeclId × Ident)} {aliased : List (Ident × AliasTarget)} {ids : List DeclId}
    {is : List ImportPath} (hdeclared : ∀ x ∈ declared, x.1 ∈ ids)
    (haliased : ∀ x ∈ aliased, ∀ source path, x.2 = .imported source path → source ∈ is) :
    (Scope.binding module enclosing declared aliased).Within ids is := by
  constructor
  · rintro x hx
    obtain ⟨y, hy, rfl⟩ := List.mem_map.1 hx
    exact hdeclared y hy
  · rintro x hx
    obtain ⟨y, hy, rfl⟩ := List.mem_map.1 hx
    exact haliased y hy

/-- The imports in what a field of a struct literal sets. -/
def FieldContent.imports : FieldContent → List ImportPath
  | .typed t _ => t.imports
  | .nested _ => []

/-- The imports in the types that an entry holds. -/
def EntryContent.imports : EntryContent → List ImportPath
  | .struct _ fields => fields.flatMap fun f => f.content.imports
  | .interface _ bases _ => bases.flatMap TypeRef.imports
  | .annotationDecl _ t => t.imports
  | .union _ fields => fields.flatMap fun f => f.content.imports
  | .group _ fields => fields.flatMap fun f => f.content.imports
  | .const => []
  | .enum _ => []

/-! ## Parts of a list -/

theorem filterMap_cons_toList {α β : Type} (g : α → Option β) (a : α) (as : List α) :
    (a :: as).filterMap g = (g a).toList ++ as.filterMap g := by
  cases h : g a <;> simp [h]

theorem memberTrees_eq_map (ms : List PlacedMember) :
    memberTrees ms = ms.map PlacedMember.tree := by
  induction ms with
  | nil => rfl
  | cons m ms ih => rw [memberTrees, ih, List.map_cons]

theorem interfaceMemberTrees_eq_map (ms : List PlacedInterfaceMember) :
    interfaceMemberTrees ms = ms.map PlacedInterfaceMember.tree := by
  induction ms with
  | nil => rfl
  | cons m ms ih => rw [interfaceMemberTrees, ih, List.map_cons]

theorem memberScopes_eq_flatMap (module : ModuleId) (enclosing : List ScopeId)
    (ms : List PlacedMember) :
    memberScopes module enclosing ms = ms.flatMap (PlacedMember.scopes module enclosing) := by
  induction ms with
  | nil => rfl
  | cons m ms ih => rw [memberScopes, ih, List.flatMap_cons]

theorem interfaceMemberScopes_eq_flatMap (module : ModuleId) (enclosing : List ScopeId)
    (ms : List PlacedInterfaceMember) :
    interfaceMemberScopes module enclosing ms =
      ms.flatMap (PlacedInterfaceMember.scopes module enclosing) := by
  induction ms with
  | nil => rfl
  | cons m ms ih => rw [interfaceMemberScopes, ih, List.flatMap_cons]

theorem memberFieldEntries_eq_flatMap (home : ScopeId) (ms : List PlacedMember) :
    memberFieldEntries home ms = ms.flatMap (PlacedMember.fieldEntries home) := by
  induction ms with
  | nil => rfl
  | cons m ms ih => rw [memberFieldEntries, ih, List.flatMap_cons]

theorem memberEntries_eq_flatMap (module : ModuleId) (parent : Option DeclId) (home : ScopeId)
    (ms : List PlacedMember) :
    memberEntries module parent home ms =
      ms.flatMap (PlacedMember.entries module parent home) := by
  induction ms with
  | nil => rfl
  | cons m ms ih => rw [memberEntries, ih, List.flatMap_cons]

theorem interfaceMemberEntries_eq_flatMap (module : ModuleId) (parent : Option DeclId)
    (home : ScopeId) (ms : List PlacedInterfaceMember) :
    interfaceMemberEntries module parent home ms =
      ms.flatMap (PlacedInterfaceMember.entries module parent home) := by
  induction ms with
  | nil => rfl
  | cons m ms ih => rw [interfaceMemberEntries, ih, List.flatMap_cons]

theorem ids_subset_memberIds {m : PlacedMember} {ms : List PlacedMember} (hm : m ∈ ms) :
    m.ids ⊆ memberIds ms := by
  induction hm with
  | head => exact List.subset_append_left _ _
  | tail _ _ ih => exact List.Subset.trans ih (List.subset_append_right _ _)

theorem ids_subset_interfaceMemberIds {m : PlacedInterfaceMember}
    {ms : List PlacedInterfaceMember} (hm : m ∈ ms) : m.ids ⊆ interfaceMemberIds ms := by
  induction hm with
  | head => exact List.subset_append_left _ _
  | tail _ _ ih => exact List.Subset.trans ih (List.subset_append_right _ _)

theorem imports_subset_memberImports {m : PlacedMember} {ms : List PlacedMember} (hm : m ∈ ms) :
    m.tree.imports ⊆ memberImports (memberTrees ms) := by
  rw [memberImports_eq_flatMap, memberTrees_eq_map]
  exact fun i hi => List.mem_flatMap.2 ⟨_, List.mem_map_of_mem hm, hi⟩

theorem imports_subset_interfaceMemberImports {m : PlacedInterfaceMember}
    {ms : List PlacedInterfaceMember} (hm : m ∈ ms) :
    m.tree.imports ⊆ interfaceMemberImports (interfaceMemberTrees ms) := by
  rw [interfaceMemberImports_eq_flatMap, interfaceMemberTrees_eq_map]
  exact fun i hi => List.mem_flatMap.2 ⟨_, List.mem_map_of_mem hm, hi⟩

/-! ## Bindings -/

theorem PlacedDecl.declared?_mem {d : PlacedDecl} {x : DeclId × Ident} (h : d.declared? = some x) :
    x.1 ∈ d.ids := by
  cases d with
  | pathAlias | importAlias => cases h
  | _ =>
    obtain rfl := Option.some.inj h
    exact List.mem_cons_self

theorem PlacedDecl.aliased?_mem {d : PlacedDecl} {x : Ident × AliasTarget}
    (h : d.aliased? = some x) {source : ImportPath} {path : List Ident}
    (e : x.2 = .imported source path) : source ∈ d.tree.imports := by
  cases d with
  | pathAlias a =>
    obtain ⟨i, -, rfl⟩ := Option.map_eq_some_iff.1 h
    cases e
  | importAlias a =>
    obtain ⟨i, -, rfl⟩ := Option.map_eq_some_iff.1 h
    obtain ⟨rfl, -⟩ := AliasTarget.imported.inj e
    exact List.mem_cons_self
  | _ => cases h

theorem PlacedMember.declared?_mem {m : PlacedMember} {x : DeclId × Ident}
    (h : m.declared? = some x) : x.1 ∈ m.ids := by
  cases m with
  | decl d => exact PlacedDecl.declared?_mem h
  | field | anonymousUnion => cases h
  | union | group =>
    obtain rfl := Option.some.inj h
    exact List.mem_cons_self

theorem PlacedMember.aliased?_mem {m : PlacedMember} {x : Ident × AliasTarget}
    (h : m.aliased? = some x) {source : ImportPath} {path : List Ident}
    (e : x.2 = .imported source path) : source ∈ m.tree.imports := by
  cases m with
  | decl d => exact PlacedDecl.aliased?_mem h e
  | _ => cases h

theorem PlacedInterfaceMember.declared?_mem {m : PlacedInterfaceMember} {x : DeclId × Ident}
    (h : m.declared? = some x) : x.1 ∈ m.ids := by
  cases m with
  | method => cases h
  | decl d => exact PlacedDecl.declared?_mem h

theorem PlacedInterfaceMember.aliased?_mem {m : PlacedInterfaceMember} {x : Ident × AliasTarget}
    (h : m.aliased? = some x) {source : ImportPath} {path : List Ident}
    (e : x.2 = .imported source path) : source ∈ m.tree.imports := by
  cases m with
  | method => cases h
  | decl d => exact PlacedDecl.aliased?_mem h e

/-! ## Scopes -/

section Scopes

variable (module : ModuleId)

/-- The scope of a body of a struct, union or group. -/
theorem within_body (enclosing : List ScopeId) (ms : List PlacedMember) :
    (Scope.binding module enclosing (ms.filterMap (·.declared?))
      (ms.filterMap (·.aliased?))).Within (memberIds ms) (memberImports (memberTrees ms)) := by
  refine Scope.within_binding (fun x hx => ?_) fun x hx source path e => ?_
  · obtain ⟨m, hm, h⟩ := List.mem_filterMap.1 hx
    exact ids_subset_memberIds hm (m.declared?_mem h)
  · obtain ⟨m, hm, h⟩ := List.mem_filterMap.1 hx
    exact imports_subset_memberImports hm (m.aliased?_mem h e)

theorem within_interfaceBody (enclosing : List ScopeId) (ms : List PlacedInterfaceMember) :
    (Scope.binding module enclosing (ms.filterMap (·.declared?))
      (ms.filterMap (·.aliased?))).Within (interfaceMemberIds ms)
        (interfaceMemberImports (interfaceMemberTrees ms)) := by
  refine Scope.within_binding (fun x hx => ?_) fun x hx source path e => ?_
  · obtain ⟨m, hm, h⟩ := List.mem_filterMap.1 hx
    exact ids_subset_interfaceMemberIds hm (m.declared?_mem h)
  · obtain ⟨m, hm, h⟩ := List.mem_filterMap.1 hx
    exact imports_subset_interfaceMemberImports hm (m.aliased?_mem h e)

mutual

theorem within_scopes_placedDecl : ∀ (d : PlacedDecl) (enclosing : List ScopeId),
    ∀ s ∈ d.scopes module enclosing, s.Within d.ids d.tree.imports
  | .const _ _, _ | .enum _ _, _ | .annotationDecl _ _, _ | .pathAlias _, _ | .importAlias _, _ =>
    fun _ hs => absurd hs List.not_mem_nil
  | .struct id body head ms, enclosing => by
    have hids := List.subset_cons_self id (memberIds ms)
    refine List.forall_mem_cons.2 ⟨(within_body module enclosing ms).mono hids fun _ h => h, ?_⟩
    exact fun s hs => (within_scopes_members ms _ s hs).mono hids fun _ h => h
  | .interface id body head bases ms, enclosing => by
    have hids := List.subset_cons_self id (interfaceMemberIds ms)
    have himports := List.subset_append_right (bases.flatMap TypeRef.imports)
      (interfaceMemberImports (interfaceMemberTrees ms))
    refine List.forall_mem_cons.2
      ⟨(within_interfaceBody module enclosing ms).mono hids himports, ?_⟩
    exact fun s hs => (within_scopes_interfaceMembers ms _ s hs).mono hids himports

theorem within_scopes_placedMember : ∀ (m : PlacedMember) (enclosing : List ScopeId),
    ∀ s ∈ m.scopes module enclosing, s.Within m.ids m.tree.imports
  | .field _, _ => fun _ hs => absurd hs List.not_mem_nil
  | .union id body head ordinal ms, enclosing => by
    have hids := List.subset_cons_self id (memberIds ms)
    refine List.forall_mem_cons.2 ⟨(within_body module enclosing ms).mono hids fun _ h => h, ?_⟩
    exact fun s hs => (within_scopes_members ms _ s hs).mono hids fun _ h => h
  | .anonymousUnion body span annotations ms, enclosing =>
    List.forall_mem_cons.2 ⟨within_body module enclosing ms, within_scopes_members ms _⟩
  | .group id body head ms, enclosing => by
    have hids := List.subset_cons_self id (memberIds ms)
    refine List.forall_mem_cons.2 ⟨(within_body module enclosing ms).mono hids fun _ h => h, ?_⟩
    exact fun s hs => (within_scopes_members ms _ s hs).mono hids fun _ h => h
  | .decl d, enclosing => within_scopes_placedDecl d enclosing

theorem within_scopes_members : ∀ (ms : List PlacedMember) (enclosing : List ScopeId),
    ∀ s ∈ memberScopes module enclosing ms,
      s.Within (memberIds ms) (memberImports (memberTrees ms))
  | [], _ => fun _ hs => absurd hs List.not_mem_nil
  | m :: ms, enclosing => by
    refine List.forall_mem_append.2 ⟨fun s hs => ?_, fun s hs => ?_⟩
    · exact (within_scopes_placedMember m enclosing s hs).mono (List.subset_append_left _ _)
        (List.subset_append_left _ _)
    · exact (within_scopes_members ms enclosing s hs).mono (List.subset_append_right _ _)
        (List.subset_append_right _ _)

theorem within_scopes_placedInterfaceMember : ∀ (m : PlacedInterfaceMember)
    (enclosing : List ScopeId), ∀ s ∈ m.scopes module enclosing, s.Within m.ids m.tree.imports
  | .method _, _ => fun _ hs => absurd hs List.not_mem_nil
  | .decl d, enclosing => within_scopes_placedDecl d enclosing

theorem within_scopes_interfaceMembers : ∀ (ms : List PlacedInterfaceMember)
    (enclosing : List ScopeId), ∀ s ∈ interfaceMemberScopes module enclosing ms,
      s.Within (interfaceMemberIds ms) (interfaceMemberImports (interfaceMemberTrees ms))
  | [], _ => fun _ hs => absurd hs List.not_mem_nil
  | m :: ms, enclosing => by
    refine List.forall_mem_append.2 ⟨fun s hs => ?_, fun s hs => ?_⟩
    · exact (within_scopes_placedInterfaceMember m enclosing s hs).mono
        (List.subset_append_left _ _) (List.subset_append_left _ _)
    · exact (within_scopes_interfaceMembers ms enclosing s hs).mono
        (List.subset_append_right _ _) (List.subset_append_right _ _)

end

/-- The scopes of a file. -/
theorem within_fileScopes (scope : ScopeId) (ds : List PlacedDecl) :
    ∀ s ∈ fileScopes module scope ds,
      s.Within (ds.flatMap PlacedDecl.ids) (ds.flatMap fun d => d.tree.imports) := by
  refine List.forall_mem_cons.2 ⟨?_, fun s hs => ?_⟩
  · refine Scope.within_binding (fun x hx => ?_) fun x hx source path e => ?_
    · obtain ⟨d, hd, h⟩ := List.mem_filterMap.1 hx
      exact List.mem_flatMap.2 ⟨d, hd, d.declared?_mem h⟩
    · obtain ⟨d, hd, h⟩ := List.mem_filterMap.1 hx
      exact List.mem_flatMap.2 ⟨d, hd, d.aliased?_mem h e⟩
  · obtain ⟨d, hd, hs⟩ := List.mem_flatMap.1 hs
    exact (within_scopes_placedDecl module d _ s hs).mono
      (fun x hx => List.mem_flatMap.2 ⟨d, hd, hx⟩) fun x hx => List.mem_flatMap.2 ⟨d, hd, hx⟩

end Scopes

/-! ## Entries -/

mutual

theorem imports_fieldEntries : ∀ (m : PlacedMember) (home : ScopeId),
    ∀ f ∈ m.fieldEntries home, f.content.imports ⊆ m.tree.imports
  | .field _, _ => List.forall_mem_singleton.2 fun _ h => h
  | .union _ _ _ _ _, _ | .group _ _ _ _, _ =>
    List.forall_mem_singleton.2 fun _ h => absurd h List.not_mem_nil
  | .anonymousUnion body _ _ ms, _ => imports_memberFieldEntries ms body
  | .decl _, _ => fun _ h => absurd h List.not_mem_nil

theorem imports_memberFieldEntries : ∀ (ms : List PlacedMember) (home : ScopeId),
    ∀ f ∈ memberFieldEntries home ms, f.content.imports ⊆ memberImports (memberTrees ms)
  | [], _ => fun _ h => absurd h List.not_mem_nil
  | m :: ms, home => by
    refine List.forall_mem_append.2 ⟨fun f hf => ?_, fun f hf => ?_⟩
    · exact List.Subset.trans (imports_fieldEntries m home f hf) (List.subset_append_left _ _)
    · exact List.Subset.trans (imports_memberFieldEntries ms home f hf)
        (List.subset_append_right _ _)

end

theorem flatMap_imports_memberFieldEntries (ms : List PlacedMember) (home : ScopeId) :
    (memberFieldEntries home ms).flatMap (fun f => f.content.imports) ⊆
      memberImports (memberTrees ms) := by
  intro i hi
  obtain ⟨f, hf, hi⟩ := List.mem_flatMap.1 hi
  exact imports_memberFieldEntries ms home f hf hi

section Entries

variable (module : ModuleId)

mutual

theorem imports_entries_placedDecl : ∀ (d : PlacedDecl) (parent : Option DeclId) (home : ScopeId),
    ∀ e ∈ d.entries module parent home, e.content.imports ⊆ d.tree.imports
  | .const _ _, _, _ | .enum _ _, _, _ =>
    List.forall_mem_singleton.2 fun _ h => absurd h List.not_mem_nil
  | .annotationDecl _ _, _, _ => List.forall_mem_singleton.2 fun _ h => h
  | .pathAlias _, _, _ | .importAlias _, _, _ => fun _ h => absurd h List.not_mem_nil
  | .struct id body head ms, _, _ =>
    List.forall_mem_cons.2
      ⟨flatMap_imports_memberFieldEntries ms body, imports_memberEntries ms (some id) body⟩
  | .interface id body head bases ms, _, _ => by
    refine List.forall_mem_cons.2 ⟨List.subset_append_left _ _, fun e he => ?_⟩
    exact List.Subset.trans (imports_interfaceMemberEntries ms (some id) body e he)
      (List.subset_append_right _ _)

theorem imports_entries_placedMember : ∀ (m : PlacedMember) (parent : Option DeclId)
    (home : ScopeId), ∀ e ∈ m.entries module parent home, e.content.imports ⊆ m.tree.imports
  | .field _, _, _ => fun _ h => absurd h List.not_mem_nil
  | .union id body _ _ ms, _, _ | .group id body _ ms, _, _ =>
    List.forall_mem_cons.2
      ⟨flatMap_imports_memberFieldEntries ms body, imports_memberEntries ms (some id) body⟩
  | .anonymousUnion body _ _ ms, parent, _ => imports_memberEntries ms parent body
  | .decl d, parent, home => imports_entries_placedDecl d parent home

theorem imports_memberEntries : ∀ (ms : List PlacedMember) (parent : Option DeclId)
    (home : ScopeId), ∀ e ∈ memberEntries module parent home ms,
      e.content.imports ⊆ memberImports (memberTrees ms)
  | [], _, _ => fun _ h => absurd h List.not_mem_nil
  | m :: ms, parent, home => by
    refine List.forall_mem_append.2 ⟨fun e he => ?_, fun e he => ?_⟩
    · exact List.Subset.trans (imports_entries_placedMember m parent home e he)
        (List.subset_append_left _ _)
    · exact List.Subset.trans (imports_memberEntries ms parent home e he)
        (List.subset_append_right _ _)

theorem imports_entries_placedInterfaceMember : ∀ (m : PlacedInterfaceMember)
    (parent : Option DeclId) (home : ScopeId), ∀ e ∈ m.entries module parent home,
      e.content.imports ⊆ m.tree.imports
  | .method _, _, _ => fun _ h => absurd h List.not_mem_nil
  | .decl d, parent, home => imports_entries_placedDecl d parent home

theorem imports_interfaceMemberEntries : ∀ (ms : List PlacedInterfaceMember)
    (parent : Option DeclId) (home : ScopeId), ∀ e ∈ interfaceMemberEntries module parent home ms,
      e.content.imports ⊆ interfaceMemberImports (interfaceMemberTrees ms)
  | [], _, _ => fun _ h => absurd h List.not_mem_nil
  | m :: ms, parent, home => by
    refine List.forall_mem_append.2 ⟨fun e he => ?_, fun e he => ?_⟩
    · exact List.Subset.trans (imports_entries_placedInterfaceMember m parent home e he)
        (List.subset_append_left _ _)
    · exact List.Subset.trans (imports_interfaceMemberEntries ms parent home e he)
        (List.subset_append_right _ _)

end

theorem imports_fileEntries (scope : ScopeId) (ds : List PlacedDecl) :
    ∀ e ∈ fileEntries module scope ds,
      e.content.imports ⊆ ds.flatMap fun d => d.tree.imports := by
  intro e he i hi
  obtain ⟨d, hd, he⟩ := List.mem_flatMap.1 he
  exact List.mem_flatMap.2 ⟨d, hd, imports_entries_placedDecl module d none scope e he hi⟩

mutual

theorem length_entries_placedDecl : ∀ (d : PlacedDecl) (parent : Option DeclId) (home : ScopeId),
    (d.entries module parent home).length = d.ids.length
  | .const _ _, _, _ | .enum _ _, _, _ | .annotationDecl _ _, _, _ => rfl
  | .pathAlias _, _, _ | .importAlias _, _, _ => rfl
  | .struct id body _ ms, _, _ => congrArg (· + 1) (length_memberEntries ms (some id) body)
  | .interface id body _ _ ms, _, _ =>
    congrArg (· + 1) (length_interfaceMemberEntries ms (some id) body)

theorem length_entries_placedMember : ∀ (m : PlacedMember) (parent : Option DeclId)
    (home : ScopeId), (m.entries module parent home).length = m.ids.length
  | .field _, _, _ => rfl
  | .union id body _ _ ms, _, _ | .group id body _ ms, _, _ =>
    congrArg (· + 1) (length_memberEntries ms (some id) body)
  | .anonymousUnion body _ _ ms, parent, _ => length_memberEntries ms parent body
  | .decl d, parent, home => length_entries_placedDecl d parent home

theorem length_memberEntries : ∀ (ms : List PlacedMember) (parent : Option DeclId)
    (home : ScopeId), (memberEntries module parent home ms).length = (memberIds ms).length
  | [], _, _ => rfl
  | m :: ms, parent, home => by
    rw [memberEntries, memberIds, List.length_append, List.length_append,
      length_entries_placedMember m, length_memberEntries ms]

theorem length_entries_placedInterfaceMember : ∀ (m : PlacedInterfaceMember)
    (parent : Option DeclId) (home : ScopeId),
    (m.entries module parent home).length = m.ids.length
  | .method _, _, _ => rfl
  | .decl d, parent, home => length_entries_placedDecl d parent home

theorem length_interfaceMemberEntries : ∀ (ms : List PlacedInterfaceMember)
    (parent : Option DeclId) (home : ScopeId),
    (interfaceMemberEntries module parent home ms).length = (interfaceMemberIds ms).length
  | [], _, _ => rfl
  | m :: ms, parent, home => by
    rw [interfaceMemberEntries, interfaceMemberIds, List.length_append, List.length_append,
      length_entries_placedInterfaceMember m, length_interfaceMemberEntries ms]

end

theorem length_fileEntries (scope : ScopeId) (ds : List PlacedDecl) :
    (fileEntries module scope ds).length = (ds.flatMap PlacedDecl.ids).length := by
  simp only [fileEntries, List.length_flatMap, length_entries_placedDecl]

end Entries

end SchemaLang
