import SchemaLang.Proofs.Reordering.Placed

/-!
# The tables of a module in another order

If two placed modules are the same up to a renaming and the order of declarations, then so are their
scopes and their entries, each with its number: `paired_fileScopes` and `paired_fileEntries`.
What an entry lists, the fields of a body or the methods of an interface, is never moved and is
listed in the same order.
-/

namespace SchemaLang

/-! ## Other numbers in tables -/

section Rename

variable (ρ : Renaming)

/-- What a field of a struct literal sets, with other numbers. -/
def FieldContent.rename : FieldContent → FieldContent
  | .typed t home => .typed t (ρ.scope home)
  | .nested id => .nested (ρ.decl id)

/-- The field of a struct literal with other numbers. -/
def FieldEntry.rename (f : FieldEntry) : FieldEntry := ⟨f.name, f.content.rename ρ⟩

/-- What linking needs to know of a declaration, with other numbers. -/
def EntryContent.rename : EntryContent → EntryContent
  | .const => .const
  | .struct body fields => .struct (ρ.scope body) (fields.map (FieldEntry.rename ρ))
  | .enum enumerants => .enum enumerants
  | .interface body bases methods => .interface (ρ.scope body) bases methods
  | .annotationDecl targets type => .annotationDecl targets type
  | .union body fields => .union (ρ.scope body) (fields.map (FieldEntry.rename ρ))
  | .group body fields => .group (ρ.scope body) (fields.map (FieldEntry.rename ρ))

/-- The entry with other numbers. -/
def Entry.rename (e : Entry) : Entry :=
  ⟨ρ.module e.module, e.parent.map ρ.decl, ρ.scope e.home, e.name, e.content.rename ρ⟩

/-- A scope and the same with other numbers, and with its names and aliases in another order. -/
structure Scope.Renamed (s s' : Scope) : Prop where
  module : s'.module = ρ.module s.module
  enclosing : s'.enclosing = s.enclosing.map ρ.scope
  names : (s.names.map (Prod.map id ρ.decl)).Perm s'.names
  aliases : s.aliases.Perm s'.aliases

/-- Rows of entries that are the same up to the renaming. -/
abbrev EntryRows : Entry × DeclId → Entry × DeclId → Prop :=
  Rows (fun e e' => e' = e.rename ρ) ρ.decl

/-- Rows of scopes that are the same up to the renaming. -/
abbrev ScopeRows : Scope × ScopeId → Scope × ScopeId → Prop := Rows (Scope.Renamed ρ) ρ.scope

end Rename

/-! ## Tables with numbers -/

theorem zip_flatMap {α β γ : Type} {f : α → List β} {g : α → List γ}
    (h : ∀ a, (f a).length = (g a).length) (as : List α) :
    (as.flatMap f).zip (as.flatMap g) = as.flatMap fun a => (f a).zip (g a) := by
  induction as with
  | nil => rfl
  | cons a as ih => rw [List.flatMap_cons, List.flatMap_cons, List.zip_append (h a), ih,
      List.flatMap_cons]

section Zip

variable (module : ModuleId)

theorem zip_memberScopes (enclosing : List ScopeId) (ms : List PlacedMember) :
    (memberScopes module enclosing ms).zip (memberScopeIds ms) =
      ms.flatMap fun m => (m.scopes module enclosing).zip m.scopeIds := by
  rw [memberScopes_eq_flatMap, memberScopeIds_eq_flatMap,
    zip_flatMap fun m => length_scopes_placedMember module m enclosing]

theorem zip_interfaceMemberScopes (enclosing : List ScopeId) (ms : List PlacedInterfaceMember) :
    (interfaceMemberScopes module enclosing ms).zip (interfaceMemberScopeIds ms) =
      ms.flatMap fun m => (m.scopes module enclosing).zip m.scopeIds := by
  rw [interfaceMemberScopes_eq_flatMap, interfaceMemberScopeIds_eq_flatMap,
    zip_flatMap fun m => length_scopes_placedInterfaceMember module m enclosing]

theorem zip_memberEntries (parent : Option DeclId) (home : ScopeId) (ms : List PlacedMember) :
    (memberEntries module parent home ms).zip (memberIds ms) =
      ms.flatMap fun m => (m.entries module parent home).zip m.ids := by
  rw [memberEntries_eq_flatMap, memberIds_eq_flatMap,
    zip_flatMap fun m => length_entries_placedMember module m parent home]

theorem zip_interfaceMemberEntries (parent : Option DeclId) (home : ScopeId)
    (ms : List PlacedInterfaceMember) :
    (interfaceMemberEntries module parent home ms).zip (interfaceMemberIds ms) =
      ms.flatMap fun m => (m.entries module parent home).zip m.ids := by
  rw [interfaceMemberEntries_eq_flatMap, interfaceMemberIds_eq_flatMap,
    zip_flatMap fun m => length_entries_placedInterfaceMember module m parent home]

end Zip

/-! ## Bindings -/

section Bindings

variable {ρ : Renaming} {moved : Bool}

theorem PlacedDecl.Reordered.declared? {d d' : PlacedDecl} (h : d.Reordered ρ moved d') :
    d'.declared? = d.declared?.map (Prod.map ρ.decl id) := by
  cases h <;> rfl

theorem PlacedDecl.Reordered.aliased? {d d' : PlacedDecl} (h : d.Reordered ρ moved d') :
    d'.aliased? = d.aliased? := by
  cases h <;> rfl

theorem PlacedMember.Reordered.declared? {m m' : PlacedMember} (h : m.Reordered ρ moved m') :
    m'.declared? = m.declared?.map (Prod.map ρ.decl id) := by
  cases h with
  | decl nested => exact nested.declared?
  | _ => rfl

theorem PlacedMember.Reordered.aliased? {m m' : PlacedMember} (h : m.Reordered ρ moved m') :
    m'.aliased? = m.aliased? := by
  cases h with
  | decl nested => exact nested.aliased?
  | _ => rfl

theorem PlacedInterfaceMember.Reordered.declared? {m m' : PlacedInterfaceMember}
    (h : m.Reordered ρ moved m') : m'.declared? = m.declared?.map (Prod.map ρ.decl id) := by
  cases h with
  | method => rfl
  | decl nested => exact nested.declared?

theorem PlacedInterfaceMember.Reordered.aliased? {m m' : PlacedInterfaceMember}
    (h : m.Reordered ρ moved m') : m'.aliased? = m.aliased? := by
  cases h with
  | method => rfl
  | decl nested => exact nested.aliased?

theorem PlacedInterfaceMember.Reordered.method? {m m' : PlacedInterfaceMember}
    (h : m.Reordered ρ moved m') : m'.method? = m.method? := by
  cases h <;> rfl

/-- The scopes that bind what items that correspond declare and alias. -/
theorem Paired.renamed_binding {π : Type} {R : π → π → Prop}
    {declared? : π → Option (DeclId × Ident)} {aliased? : π → Option (Ident × AliasTarget)}
    {ms ms' : List π} (h : Paired R ms ms')
    (hdeclared : ∀ m m', R m m' → declared? m' = (declared? m).map (Prod.map ρ.decl id))
    (haliased : ∀ m m', R m m' → aliased? m' = aliased? m) (module : ModuleId)
    (enclosing : List ScopeId) :
    (Scope.binding module enclosing (ms.filterMap declared?) (ms.filterMap aliased?)).Renamed ρ
      (.binding (ρ.module module) (enclosing.map ρ.scope) (ms'.filterMap declared?)
        (ms'.filterMap aliased?)) := by
  refine ⟨rfl, rfl, ?_, ?_⟩
  · have hperm := (h.filterMap_perm hdeclared).map fun (x : DeclId × Ident) => (x.2.name, x.1)
    simp only [Scope.binding, List.map_map] at hperm ⊢
    exact hperm
  · have hid : ∀ m m', R m m' → aliased? m' = (aliased? m).map id := fun m m' hm => by
      rw [haliased m m' hm, Option.map_id_apply]
    have hperm := h.filterMap_perm hid
    rw [List.map_id] at hperm
    exact hperm.map _

end Bindings

/-! ## Scopes -/

section Scopes

variable {ρ : Renaming} {moved : Bool}

/-- The scope of a body of a struct, union or group. -/
theorem renamed_body {ms ms₁ ms' : List PlacedMember}
    (members : List.Forall₂ (PlacedMember.Reordered ρ moved) ms ms₁)
    (order : Swaps (fun m => moved && m.isDecl) ms₁ ms') (module : ModuleId)
    (enclosing : List ScopeId) :
    (Scope.binding module enclosing (ms.filterMap (·.declared?))
      (ms.filterMap (·.aliased?))).Renamed ρ (.binding (ρ.module module) (enclosing.map ρ.scope)
        (ms'.filterMap (·.declared?)) (ms'.filterMap (·.aliased?))) :=
  Paired.renamed_binding ⟨ms₁, members, order.perm⟩ (fun _ _ hm => hm.declared?)
    (fun _ _ hm => hm.aliased?) module enclosing

/-- The scope of an interface. -/
theorem renamed_interfaceBody {ms ms₁ ms' : List PlacedInterfaceMember}
    (members : List.Forall₂ (PlacedInterfaceMember.Reordered ρ moved) ms ms₁)
    (order : Swaps (fun m => moved && m.isDecl) ms₁ ms') (module : ModuleId)
    (enclosing : List ScopeId) :
    (Scope.binding module enclosing (ms.filterMap (·.declared?))
      (ms.filterMap (·.aliased?))).Renamed ρ (.binding (ρ.module module) (enclosing.map ρ.scope)
        (ms'.filterMap (·.declared?)) (ms'.filterMap (·.aliased?))) :=
  Paired.renamed_binding ⟨ms₁, members, order.perm⟩ (fun _ _ hm => hm.declared?)
    (fun _ _ hm => hm.aliased?) module enclosing

variable (module : ModuleId)

/-- The order of the members of a body does not matter. -/
theorem Paired.memberScopes {rows : List (Scope × ScopeId)} {ms₁ ms' : List PlacedMember}
    {enclosing : List ScopeId}
    (h : Paired (ScopeRows ρ) rows ((memberScopes module enclosing ms₁).zip (memberScopeIds ms₁)))
    (order : Swaps (fun m => moved && m.isDecl) ms₁ ms') :
    Paired (ScopeRows ρ) rows ((memberScopes module enclosing ms').zip (memberScopeIds ms')) := by
  rw [zip_memberScopes] at h ⊢
  exact h.perm_right (order.perm.flatMap_right _)

/-- The order of the items of an interface does not matter. -/
theorem Paired.interfaceMemberScopes {rows : List (Scope × ScopeId)}
    {ms₁ ms' : List PlacedInterfaceMember} {enclosing : List ScopeId}
    (h : Paired (ScopeRows ρ) rows
      ((interfaceMemberScopes module enclosing ms₁).zip (interfaceMemberScopeIds ms₁)))
    (order : Swaps (fun m => moved && m.isDecl) ms₁ ms') :
    Paired (ScopeRows ρ) rows
      ((interfaceMemberScopes module enclosing ms').zip (interfaceMemberScopeIds ms')) := by
  rw [zip_interfaceMemberScopes] at h ⊢
  exact h.perm_right (order.perm.flatMap_right _)

mutual

theorem paired_scopes_decl : ∀ (d : PlacedDecl) {d' : PlacedDecl}, d.Reordered ρ moved d' →
    ∀ enclosing, Paired (ScopeRows ρ) ((d.scopes module enclosing).zip d.scopeIds)
      ((d'.scopes (ρ.module module) (enclosing.map ρ.scope)).zip d'.scopeIds)
  | .const _ _, _, .const, _ | .enum _ _, _, .enum, _
  | .annotationDecl _ _, _, .annotationDecl, _ => paired_nil
  | .pathAlias _, _, .pathAlias, _ | .importAlias _, _, .importAlias, _ => paired_nil
  | .struct _ body _ ms, _, .struct members order, enclosing =>
    .cons ⟨renamed_body members order module enclosing, rfl⟩
      ((paired_memberScopes ms members (body :: enclosing)).memberScopes _ order)
  | .interface _ body _ _ ms, _, .interface members order, enclosing =>
    .cons ⟨renamed_interfaceBody members order module enclosing, rfl⟩
      ((paired_interfaceMemberScopes ms members (body :: enclosing)).interfaceMemberScopes _ order)

theorem paired_scopes_member : ∀ (m : PlacedMember) {m' : PlacedMember}, m.Reordered ρ moved m' →
    ∀ enclosing, Paired (ScopeRows ρ) ((m.scopes module enclosing).zip m.scopeIds)
      ((m'.scopes (ρ.module module) (enclosing.map ρ.scope)).zip m'.scopeIds)
  | .field _, _, .field, _ => paired_nil
  | .union _ body _ _ ms, _, .union members order, enclosing
  | .anonymousUnion body _ _ ms, _, .anonymousUnion members order, enclosing
  | .group _ body _ ms, _, .group members order, enclosing =>
    .cons ⟨renamed_body members order module enclosing, rfl⟩
      ((paired_memberScopes ms members (body :: enclosing)).memberScopes _ order)
  | .decl d, _, .decl nested, enclosing => paired_scopes_decl d nested enclosing

theorem paired_memberScopes : ∀ (ms : List PlacedMember) {ms' : List PlacedMember},
    List.Forall₂ (PlacedMember.Reordered ρ moved) ms ms' → ∀ enclosing,
    Paired (ScopeRows ρ) ((memberScopes module enclosing ms).zip (memberScopeIds ms))
      ((memberScopes (ρ.module module) (enclosing.map ρ.scope) ms').zip (memberScopeIds ms'))
  | [], _, .nil, _ => paired_nil
  | m :: ms, m' :: ms', .cons hm hms, enclosing => by
    rw [zip_memberScopes, zip_memberScopes, List.flatMap_cons, List.flatMap_cons,
      ← zip_memberScopes, ← zip_memberScopes]
    exact (paired_scopes_member m hm enclosing).append (paired_memberScopes ms hms enclosing)

theorem paired_scopes_interfaceMember : ∀ (m : PlacedInterfaceMember)
    {m' : PlacedInterfaceMember}, m.Reordered ρ moved m' → ∀ enclosing,
    Paired (ScopeRows ρ) ((m.scopes module enclosing).zip m.scopeIds)
      ((m'.scopes (ρ.module module) (enclosing.map ρ.scope)).zip m'.scopeIds)
  | .method _, _, .method, _ => paired_nil
  | .decl d, _, .decl nested, enclosing => paired_scopes_decl d nested enclosing

theorem paired_interfaceMemberScopes : ∀ (ms : List PlacedInterfaceMember)
    {ms' : List PlacedInterfaceMember},
    List.Forall₂ (PlacedInterfaceMember.Reordered ρ moved) ms ms' → ∀ enclosing,
    Paired (ScopeRows ρ)
      ((interfaceMemberScopes module enclosing ms).zip (interfaceMemberScopeIds ms))
      ((interfaceMemberScopes (ρ.module module) (enclosing.map ρ.scope) ms').zip
        (interfaceMemberScopeIds ms'))
  | [], _, .nil, _ => paired_nil
  | m :: ms, m' :: ms', .cons hm hms, enclosing => by
    rw [zip_interfaceMemberScopes, zip_interfaceMemberScopes, List.flatMap_cons, List.flatMap_cons,
      ← zip_interfaceMemberScopes, ← zip_interfaceMemberScopes]
    exact (paired_scopes_interfaceMember m hm enclosing).append
      (paired_interfaceMemberScopes ms hms enclosing)

end

end Scopes

/-! ## Entries -/

section Fields

variable {ρ : Renaming} {moved : Bool}

/-- What is not moved adds all fields. -/
theorem memberFieldEntries_order {ms ms' : List PlacedMember}
    (order : Swaps (fun m => moved && m.isDecl) ms ms') (home : ScopeId) :
    memberFieldEntries home ms = memberFieldEntries home ms' := by
  rw [memberFieldEntries_eq_flatMap, memberFieldEntries_eq_flatMap]
  refine order.flatMap_eq fun m hm => ?_
  cases m with
  | decl => rfl
  | _ => simp [PlacedMember.isDecl] at hm

mutual

theorem fieldEntries_member : ∀ (m : PlacedMember) {m' : PlacedMember}, m.Reordered ρ moved m' →
    ∀ home, m'.fieldEntries (ρ.scope home) = (m.fieldEntries home).map (FieldEntry.rename ρ)
  | .field _, _, .field, _ => rfl
  | .union _ _ _ _ _, _, .union _ _, _ | .group _ _ _ _, _, .group _ _, _ => rfl
  | .anonymousUnion body _ _ ms, _, .anonymousUnion members order, _ =>
    (memberFieldEntries_order order (ρ.scope body)).symm.trans
      (fieldEntries_members ms members body)
  | .decl _, _, .decl _, _ => rfl

theorem fieldEntries_members : ∀ (ms : List PlacedMember) {ms' : List PlacedMember},
    List.Forall₂ (PlacedMember.Reordered ρ moved) ms ms' → ∀ home,
    memberFieldEntries (ρ.scope home) ms' = (memberFieldEntries home ms).map (FieldEntry.rename ρ)
  | [], _, .nil, _ => rfl
  | m :: ms, m' :: ms', .cons hm hms, home => by
    rw [memberFieldEntries, memberFieldEntries, List.map_append, fieldEntries_member m hm home,
      fieldEntries_members ms hms home]

end

/-- The fields of a body. -/
theorem fieldEntries_body {ms ms₁ ms' : List PlacedMember}
    (members : List.Forall₂ (PlacedMember.Reordered ρ moved) ms ms₁)
    (order : Swaps (fun m => moved && m.isDecl) ms₁ ms') (body : ScopeId) :
    memberFieldEntries (ρ.scope body) ms' =
      (memberFieldEntries body ms).map (FieldEntry.rename ρ) := by
  rw [← memberFieldEntries_order order, fieldEntries_members ms members]

/-- The methods of an interface. -/
theorem methods_body {ms ms₁ ms' : List PlacedInterfaceMember}
    (members : List.Forall₂ (PlacedInterfaceMember.Reordered ρ moved) ms ms₁)
    (order : Swaps (fun m => moved && m.isDecl) ms₁ ms') :
    ms'.filterMap (·.method?) = ms.filterMap (·.method?) := by
  have horder : ms₁.filterMap (·.method?) = ms'.filterMap (·.method?) := by
    refine order.filterMap_eq fun m hm => ?_
    cases m with
    | method => simp [PlacedInterfaceMember.isDecl] at hm
    | decl => rfl
  rw [← horder]
  clear horder order
  induction members with
  | nil => rfl
  | cons hm _ ih => rw [List.filterMap_cons, List.filterMap_cons, hm.method?, ih]

end Fields

section Entries

variable {ρ : Renaming} {moved : Bool} (module : ModuleId)

/-- The order of the members of a body does not matter. -/
theorem Paired.memberEntries {rows : List (Entry × DeclId)} {ms₁ ms' : List PlacedMember}
    {parent : Option DeclId} {home : ScopeId}
    (h : Paired (EntryRows ρ) rows ((memberEntries module parent home ms₁).zip (memberIds ms₁)))
    (order : Swaps (fun m => moved && m.isDecl) ms₁ ms') :
    Paired (EntryRows ρ) rows ((memberEntries module parent home ms').zip (memberIds ms')) := by
  rw [zip_memberEntries] at h ⊢
  exact h.perm_right (order.perm.flatMap_right _)

/-- The order of the items of an interface does not matter. -/
theorem Paired.interfaceMemberEntries {rows : List (Entry × DeclId)}
    {ms₁ ms' : List PlacedInterfaceMember} {parent : Option DeclId} {home : ScopeId}
    (h : Paired (EntryRows ρ) rows
      ((interfaceMemberEntries module parent home ms₁).zip (interfaceMemberIds ms₁)))
    (order : Swaps (fun m => moved && m.isDecl) ms₁ ms') :
    Paired (EntryRows ρ) rows
      ((interfaceMemberEntries module parent home ms').zip (interfaceMemberIds ms')) := by
  rw [zip_interfaceMemberEntries] at h ⊢
  exact h.perm_right (order.perm.flatMap_right _)

mutual

theorem paired_entries_decl : ∀ (d : PlacedDecl) {d' : PlacedDecl}, d.Reordered ρ moved d' →
    ∀ parent home, Paired (EntryRows ρ) ((d.entries module parent home).zip d.ids)
      ((d'.entries (ρ.module module) (parent.map ρ.decl) (ρ.scope home)).zip d'.ids)
  | .const _ _, _, .const, _, _ | .enum _ _, _, .enum, _, _
  | .annotationDecl _ _, _, .annotationDecl, _, _ => .cons ⟨rfl, rfl⟩ paired_nil
  | .pathAlias _, _, .pathAlias, _, _ | .importAlias _, _, .importAlias, _, _ => paired_nil
  | .struct id body _ ms, _, .struct members order, _, _ => by
    refine .cons ⟨?_, rfl⟩ ((paired_memberEntries ms members (some id) body).memberEntries _ order)
    rw [fieldEntries_body members order]
    rfl
  | .interface id body _ _ ms, _, .interface members order, _, _ => by
    refine .cons ⟨?_, rfl⟩
      ((paired_interfaceMemberEntries ms members (some id) body).interfaceMemberEntries _ order)
    rw [methods_body members order]
    rfl

theorem paired_entries_member : ∀ (m : PlacedMember) {m' : PlacedMember},
    m.Reordered ρ moved m' → ∀ parent home,
    Paired (EntryRows ρ) ((m.entries module parent home).zip m.ids)
      ((m'.entries (ρ.module module) (parent.map ρ.decl) (ρ.scope home)).zip m'.ids)
  | .field _, _, .field, _, _ => paired_nil
  | .union id body _ _ ms, _, .union members order, _, _
  | .group id body _ ms, _, .group members order, _, _ => by
    refine .cons ⟨?_, rfl⟩ ((paired_memberEntries ms members (some id) body).memberEntries _ order)
    rw [fieldEntries_body members order]
    rfl
  | .anonymousUnion body _ _ ms, _, .anonymousUnion members order, parent, _ =>
    (paired_memberEntries ms members parent body).memberEntries _ order
  | .decl d, _, .decl nested, parent, home => paired_entries_decl d nested parent home

theorem paired_memberEntries : ∀ (ms : List PlacedMember) {ms' : List PlacedMember},
    List.Forall₂ (PlacedMember.Reordered ρ moved) ms ms' → ∀ parent home,
    Paired (EntryRows ρ) ((memberEntries module parent home ms).zip (memberIds ms))
      ((memberEntries (ρ.module module) (parent.map ρ.decl) (ρ.scope home) ms').zip
        (memberIds ms'))
  | [], _, .nil, _, _ => paired_nil
  | m :: ms, m' :: ms', .cons hm hms, parent, home => by
    rw [zip_memberEntries, zip_memberEntries, List.flatMap_cons, List.flatMap_cons,
      ← zip_memberEntries, ← zip_memberEntries]
    exact (paired_entries_member m hm parent home).append
      (paired_memberEntries ms hms parent home)

theorem paired_entries_interfaceMember : ∀ (m : PlacedInterfaceMember)
    {m' : PlacedInterfaceMember}, m.Reordered ρ moved m' → ∀ parent home,
    Paired (EntryRows ρ) ((m.entries module parent home).zip m.ids)
      ((m'.entries (ρ.module module) (parent.map ρ.decl) (ρ.scope home)).zip m'.ids)
  | .method _, _, .method, _, _ => paired_nil
  | .decl d, _, .decl nested, parent, home => paired_entries_decl d nested parent home

theorem paired_interfaceMemberEntries : ∀ (ms : List PlacedInterfaceMember)
    {ms' : List PlacedInterfaceMember},
    List.Forall₂ (PlacedInterfaceMember.Reordered ρ moved) ms ms' → ∀ parent home,
    Paired (EntryRows ρ)
      ((interfaceMemberEntries module parent home ms).zip (interfaceMemberIds ms))
      ((interfaceMemberEntries (ρ.module module) (parent.map ρ.decl) (ρ.scope home) ms').zip
        (interfaceMemberIds ms'))
  | [], _, .nil, _, _ => paired_nil
  | m :: ms, m' :: ms', .cons hm hms, parent, home => by
    rw [zip_interfaceMemberEntries, zip_interfaceMemberEntries, List.flatMap_cons,
      List.flatMap_cons, ← zip_interfaceMemberEntries, ← zip_interfaceMemberEntries]
    exact (paired_entries_interfaceMember m hm parent home).append
      (paired_interfaceMemberEntries ms hms parent home)

end

end Entries

/-! ## Files -/

section Files

variable {ρ : Renaming} {moved : Bool} {ds ds' : List PlacedDecl} (module : ModuleId)

theorem FileReordered.paired (h : FileReordered ρ moved ds ds') :
    Paired (PlacedDecl.Reordered ρ moved) ds ds' := by
  obtain ⟨ds₁, decls, order⟩ := h
  exact ⟨ds₁, decls, order.perm⟩

theorem zip_fileEntries (scope : ScopeId) (ds : List PlacedDecl) :
    (fileEntries module scope ds).zip (ds.flatMap PlacedDecl.ids) =
      ds.flatMap fun d => (d.entries module none scope).zip d.ids :=
  zip_flatMap (fun d => length_entries_placedDecl module d none scope) ds

theorem zip_fileScopes (scope : ScopeId) (ds : List PlacedDecl) :
    (fileScopes module scope ds).zip (scope :: ds.flatMap PlacedDecl.scopeIds) =
      (.binding module [] (ds.filterMap (·.declared?)) (ds.filterMap (·.aliased?)), scope) ::
        ds.flatMap fun d => (d.scopes module [scope]).zip d.scopeIds := by
  rw [fileScopes, List.zip_cons_cons,
    zip_flatMap fun d => length_scopes_placedDecl module d [scope]]

/-- The entries of a file. -/
theorem paired_fileEntries (h : FileReordered ρ moved ds ds') (scope : ScopeId) :
    Paired (EntryRows ρ) ((fileEntries module scope ds).zip (ds.flatMap PlacedDecl.ids))
      ((fileEntries (ρ.module module) (ρ.scope scope) ds').zip (ds'.flatMap PlacedDecl.ids)) := by
  rw [zip_fileEntries, zip_fileEntries]
  exact h.paired.flatMap fun d _ hd => paired_entries_decl module d hd none scope

/-- The scopes of a file. -/
theorem paired_fileScopes (h : FileReordered ρ moved ds ds') (scope : ScopeId) :
    Paired (ScopeRows ρ)
      ((fileScopes module scope ds).zip (scope :: ds.flatMap PlacedDecl.scopeIds))
      ((fileScopes (ρ.module module) (ρ.scope scope) ds').zip
        (ρ.scope scope :: ds'.flatMap PlacedDecl.scopeIds)) := by
  rw [zip_fileScopes, zip_fileScopes]
  refine .cons ⟨?_, rfl⟩ (h.paired.flatMap fun d _ hd => paired_scopes_decl module d hd [scope])
  exact h.paired.renamed_binding (fun _ _ hd => hd.declared?) (fun _ _ hd => hd.aliased?) module []

end Files

end SchemaLang
