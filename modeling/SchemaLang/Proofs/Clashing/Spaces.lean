import SchemaLang.Proofs.Reordering.Clashes

/-!
# Scopes and numbering spaces of a tree

`Module.scopeNames` lists the names that a module binds, scope by scope, and `Module.spaceOrdinals`
the ordinals that it uses, numbering space by numbering space, both without any numbers of scopes or
declarations.  The uses that are checked when the module is entered are these names and ordinals:
`filed_names_file` and `filed_ordinals_file` sort them out.
-/

namespace SchemaLang

/-! ## Names by scope -/

/-- The name that a member binds in the scope that it stands in. -/
def Member.binding : Member → Option Ident
  | .field _ | .anonymousUnion _ _ _ => none
  | .union head _ _ => some head.name
  | .group head _ => some head.name
  | .decl d => d.binding

/-- The name that an item of an interface binds in the interface's scope. -/
def InterfaceMember.binding : InterfaceMember → Option Ident
  | .method _ => none
  | .decl d => d.binding

mutual

/-- The names that are bound in the scopes that a declaration opens, scope by scope. -/
def Decl.scopeNames : Decl → List (List Ident)
  | .struct _ ms => ms.filterMap Member.binding :: memberScopeNames ms
  | .interface _ _ ms => ms.filterMap InterfaceMember.binding :: interfaceMemberScopeNames ms
  | _ => []

/-- The names that are bound in the scopes that a member opens, scope by scope. -/
def Member.scopeNames : Member → List (List Ident)
  | .field _ => []
  | .union _ _ ms => ms.filterMap Member.binding :: memberScopeNames ms
  | .anonymousUnion _ _ ms => ms.filterMap Member.binding :: memberScopeNames ms
  | .group _ ms => ms.filterMap Member.binding :: memberScopeNames ms
  | .decl d => d.scopeNames

/-- The names that are bound in the scopes that the members of a body open, scope by scope. -/
def memberScopeNames : List Member → List (List Ident)
  | [] => []
  | m :: ms => m.scopeNames ++ memberScopeNames ms

/-- The names that are bound in the scopes that an item of an interface opens, scope by scope. -/
def InterfaceMember.scopeNames : InterfaceMember → List (List Ident)
  | .method _ => []
  | .decl d => d.scopeNames

/-- The names that are bound in the scopes that the items of an interface open, scope by scope. -/
def interfaceMemberScopeNames : List InterfaceMember → List (List Ident)
  | [] => []
  | m :: ms => m.scopeNames ++ interfaceMemberScopeNames ms

end

/-- The names that a module binds, scope by scope, those of the file first.  In each scope they
stand in the order of the source. -/
def Module.scopeNames (m : Module) : List (List Ident) :=
  m.decls.filterMap Decl.binding :: m.decls.flatMap Decl.scopeNames

/-! ## Ordinals by numbering space -/

mutual

/-- The ordinals that a member uses in the numbering space of the struct around it. -/
def Member.ordinals : Member → List Ordinal
  | .field f => [f.ordinal]
  | .union _ ordinal ms => ordinal.toList ++ memberOrdinals ms
  | .anonymousUnion _ _ ms => memberOrdinals ms
  | .group _ ms => memberOrdinals ms
  | .decl _ => []

/-- The ordinals that the members of a body use in the numbering space of the struct around it. -/
def memberOrdinals : List Member → List Ordinal
  | [] => []
  | m :: ms => m.ordinals ++ memberOrdinals ms

end

/-- The ordinal of a method. -/
def InterfaceMember.ordinal? : InterfaceMember → Option Ordinal
  | .method m => some m.ordinal
  | .decl _ => none

mutual

/-- The ordinals that are used in the numbering spaces of a declaration and of what is nested in it,
space by space. -/
def Decl.spaceOrdinals : Decl → List (List Ordinal)
  | .struct _ ms => memberOrdinals ms :: memberSpaceOrdinals ms
  | .enum d => [d.enumerants.map Enumerant.ordinal]
  | .interface _ _ ms => ms.filterMap InterfaceMember.ordinal? :: interfaceMemberSpaceOrdinals ms
  | _ => []

/-- The ordinals that are used in the numbering spaces nested in a member, space by space. -/
def Member.spaceOrdinals : Member → List (List Ordinal)
  | .field _ => []
  | .union _ _ ms => memberSpaceOrdinals ms
  | .anonymousUnion _ _ ms => memberSpaceOrdinals ms
  | .group _ ms => memberSpaceOrdinals ms
  | .decl d => d.spaceOrdinals

/-- The ordinals that are used in the numbering spaces nested in a body, space by space. -/
def memberSpaceOrdinals : List Member → List (List Ordinal)
  | [] => []
  | m :: ms => m.spaceOrdinals ++ memberSpaceOrdinals ms

/-- The ordinals that are used in the numbering spaces nested in an item of an interface, space by
space. -/
def InterfaceMember.spaceOrdinals : InterfaceMember → List (List Ordinal)
  | .method _ => []
  | .decl d => d.spaceOrdinals

/-- The ordinals that are used in the numbering spaces nested in an interface, space by space. -/
def interfaceMemberSpaceOrdinals : List InterfaceMember → List (List Ordinal)
  | [] => []
  | m :: ms => m.spaceOrdinals ++ interfaceMemberSpaceOrdinals ms

end

/-- The ordinals that a module uses, numbering space by numbering space: one for each struct with
its unions and groups, for each enum and for the methods of each interface.  In each space they stand
in the order of the source. -/
def Module.spaceOrdinals (m : Module) : List (List Ordinal) := m.decls.flatMap Decl.spaceOrdinals

/-! ## Sorting uses -/

/-- The name that a use binds in a scope. -/
def Use.nameIn? (scope : ScopeId) : Use → Option Ident
  | .name s i => if s = scope then some i else none
  | .ordinal _ _ => none

/-- The ordinal that a use takes in a numbering space. -/
def Use.ordinalIn? (space : DeclId) : Use → Option Ordinal
  | .name _ _ => none
  | .ordinal s o => if s = space then some o else none

/-- The uses, sorted by a key that `f` reads off them, are `own` at the key `home` and `rows` at
others of the distinct `keys`; at all further keys there are none. -/
structure Filed {α : Type} (f : Nat → Use → Option α) (home : Nat) (keys : List Nat)
    (own : List α) (rows : List (List α)) (us : List Use) : Prop where
  own : home ∉ keys → us.filterMap (f home) = own
  row : keys.Nodup → home ∉ keys → ∀ k ∈ keys,
    us.filterMap (f k) = [] ∨ us.filterMap (f k) ∈ rows
  key : keys.Nodup → home ∉ keys → ∀ row ∈ rows, ∃ k ∈ keys, us.filterMap (f k) = row
  elsewhere : ∀ k, k ≠ home → k ∉ keys → us.filterMap (f k) = []

section Filed

variable {α : Type} {f : Nat → Use → Option α} {home : Nat} {keys keys' : List Nat}
  {own own' : List α} {rows rows' : List (List α)} {us us' : List Use}

/-- Uses without any key. -/
theorem filed_none (home : Nat) (keys : List Nat) (h : ∀ k, us.filterMap (f k) = []) :
    Filed f home keys [] [] us :=
  ⟨fun _ => h home, fun _ _ k _ => .inl (h k), fun _ _ => nofun, fun k _ _ => h k⟩

/-- Uses with the key `home` only. -/
theorem filed_home (hown : us.filterMap (f home) = own)
    (h : ∀ k, k ≠ home → us.filterMap (f k) = []) : Filed f home [] own [] us :=
  ⟨fun _ => hown, fun _ _ => nofun, fun _ _ => nofun, fun k hk _ => h k hk⟩

theorem Filed.append (h : Filed f home keys own rows us) (h' : Filed f home keys' own' rows' us') :
    Filed f home (keys ++ keys') (own ++ own') (rows ++ rows') (us ++ us') := by
  have hparts (hkeys : (keys ++ keys').Nodup) (hhome : home ∉ keys ++ keys') :
      (keys.Nodup ∧ keys'.Nodup ∧ home ∉ keys ∧ home ∉ keys') ∧
        (∀ k ∈ keys, (us ++ us').filterMap (f k) = us.filterMap (f k)) ∧
        ∀ k ∈ keys', (us ++ us').filterMap (f k) = us'.filterMap (f k) := by
    obtain ⟨hl, hr, hdisjoint⟩ := List.nodup_append'.1 hkeys
    rw [List.mem_append, not_or] at hhome
    refine ⟨⟨hl, hr, hhome⟩, fun k hk => ?_, fun k hk => ?_⟩
    · have hne : k ≠ home := fun e => hhome.1 (e ▸ hk)
      rw [List.filterMap_append, h'.elsewhere k hne (hdisjoint hk), List.append_nil]
    · have hne : k ≠ home := fun e => hhome.2 (e ▸ hk)
      rw [List.filterMap_append, h.elsewhere k hne fun hl => hdisjoint hl hk, List.nil_append]
  constructor
  case own =>
    intro hhome
    rw [List.mem_append, not_or] at hhome
    rw [List.filterMap_append, h.own hhome.1, h'.own hhome.2]
  case row =>
    intro hkeys hhome
    obtain ⟨⟨hl, hr, hhomel, hhomer⟩, hleft, hright⟩ := hparts hkeys hhome
    refine List.forall_mem_append.2 ⟨fun k hk => ?_, fun k hk => ?_⟩
    · rw [hleft k hk]
      exact (h.row hl hhomel k hk).imp_right (List.mem_append_left _)
    · rw [hright k hk]
      exact (h'.row hr hhomer k hk).imp_right (List.mem_append_right _)
  case key =>
    intro hkeys hhome
    obtain ⟨⟨hl, hr, hhomel, hhomer⟩, hleft, hright⟩ := hparts hkeys hhome
    refine List.forall_mem_append.2 ⟨fun row hrow => ?_, fun row hrow => ?_⟩
    · obtain ⟨k, hk, e⟩ := h.key hl hhomel row hrow
      exact ⟨k, List.mem_append_left _ hk, (hleft k hk).trans e⟩
    · obtain ⟨k, hk, e⟩ := h'.key hr hhomer row hrow
      exact ⟨k, List.mem_append_right _ hk, (hright k hk).trans e⟩
  case elsewhere =>
    intro k hne hk
    rw [List.mem_append, not_or] at hk
    rw [List.filterMap_append, h.elsewhere k hne hk.1, h'.elsewhere k hne hk.2, List.append_nil]

/-- What is filed under a key of its own, seen from another key. -/
theorem Filed.inside {key : Nat} (h : Filed f key keys own rows us) (home : Nat) :
    Filed f home (key :: keys) [] (own :: rows) us := by
  constructor
  case own =>
    intro hhome
    rw [List.mem_cons, not_or] at hhome
    exact h.elsewhere home hhome.1 hhome.2
  case row =>
    intro hkeys _
    obtain ⟨hkey, hkeys⟩ := List.nodup_cons.1 hkeys
    refine List.forall_mem_cons.2 ⟨.inr ?_, fun k hk => ?_⟩
    · rw [h.own hkey]
      exact List.mem_cons_self
    · exact (h.row hkeys hkey k hk).imp_right (List.mem_cons_of_mem _)
  case key =>
    intro hkeys _
    obtain ⟨hkey, hkeys⟩ := List.nodup_cons.1 hkeys
    refine List.forall_mem_cons.2 ⟨⟨key, List.mem_cons_self, h.own hkey⟩, fun row hrow => ?_⟩
    obtain ⟨k, hk, e⟩ := h.key hkeys hkey row hrow
    exact ⟨k, List.mem_cons_of_mem _ hk, e⟩
  case elsewhere =>
    intro k _ hk
    rw [List.mem_cons, not_or] at hk
    exact h.elsewhere k hk.1 hk.2

/-- One more key, under which there is nothing. -/
theorem Filed.cons_key (h : Filed f home keys own rows us) (key : Nat) :
    Filed f home (key :: keys) own rows us := by
  constructor
  case own => exact fun hhome => h.own fun hmem => hhome (List.mem_cons_of_mem _ hmem)
  case row =>
    intro hkeys hhome
    obtain ⟨hkey, hkeys⟩ := List.nodup_cons.1 hkeys
    rw [List.mem_cons, not_or] at hhome
    exact List.forall_mem_cons.2
      ⟨.inl (h.elsewhere key (Ne.symm hhome.1) hkey), h.row hkeys hhome.2⟩
  case key =>
    intro hkeys hhome row hrow
    rw [List.mem_cons, not_or] at hhome
    obtain ⟨k, hk, e⟩ := h.key (List.nodup_cons.1 hkeys).2 hhome.2 row hrow
    exact ⟨k, List.mem_cons_of_mem _ hk, e⟩
  case elsewhere =>
    intro k hne hk
    rw [List.mem_cons, not_or] at hk
    exact h.elsewhere k hne hk.2

/-- Whatever the uses of some key are, they are filed. -/
theorem Filed.mem (h : Filed f home keys own rows us) (hkeys : keys.Nodup) (hhome : home ∉ keys)
    (k : Nat) : us.filterMap (f k) = [] ∨ us.filterMap (f k) ∈ own :: rows := by
  by_cases hk : k = home
  · rw [hk, h.own hhome]
    exact .inr List.mem_cons_self
  · by_cases hmem : k ∈ keys
    · exact (h.row hkeys hhome k hmem).imp_right (List.mem_cons_of_mem _)
    · exact .inl (h.elsewhere k hk hmem)

/-- A property that nothing has holds of the uses of every key if it holds of all that is filed. -/
theorem Filed.forall_iff (h : Filed f home keys own rows us) (hkeys : keys.Nodup)
    (hhome : home ∉ keys) {P : List α → Prop} (hnil : P []) :
    (∀ k, P (us.filterMap (f k))) ↔ ∀ row ∈ own :: rows, P row := by
  constructor
  · intro hall
    refine List.forall_mem_cons.2 ⟨h.own hhome ▸ hall home, fun row hrow => ?_⟩
    obtain ⟨k, -, rfl⟩ := h.key hkeys hhome row hrow
    exact hall k
  · intro hall k
    rcases h.mem hkeys hhome k with hk | hk
    · rwa [hk]
    · exact hall _ hk

end Filed

/-! ## Names that are filed by scope -/

theorem filed_name (home : ScopeId) (i : Ident) :
    Filed Use.nameIn? home [] [i] [] [.name home i] := by
  refine filed_home ?_ fun k hk => ?_
  · simp [Use.nameIn?]
  · simp [Use.nameIn?, Ne.symm hk]

theorem filed_name? (home : ScopeId) (o : Option Ident) :
    Filed Use.nameIn? home [] o.toList [] (o.toList.map (.name home)) := by
  cases o with
  | none => exact filed_none home [] fun _ => rfl
  | some i => exact filed_name home i

/-- Ordinals bind no name. -/
theorem filterMap_nameIn?_ordinals (os : List Ordinal) (space : DeclId) (scope : ScopeId) :
    (os.map (.ordinal space)).filterMap (Use.nameIn? scope) = [] := by
  rw [List.filterMap_map, List.filterMap_eq_nil_iff]
  exact fun _ _ => rfl

/-- A name and the body that it stands for. -/
theorem Filed.named {body : ScopeId} {keys : List ScopeId} {own : List Ident}
    {rows : List (List Ident)} {us : List Use} (h : Filed Use.nameIn? body keys own rows us)
    (home : ScopeId) (i : Ident) :
    Filed Use.nameIn? home (body :: keys) [i] (own :: rows) (.name home i :: us) :=
  (filed_name home i).append (h.inside home)

mutual

theorem filed_names_decl : ∀ (d : PlacedDecl) (home : ScopeId),
    Filed Use.nameIn? home d.scopeIds d.tree.binding.toList d.tree.scopeNames (d.uses home)
  | .const _ d, home => filed_name home d.name
  | .struct id body head ms, home => (filed_names_members ms id body).named home head.name
  | .enum id d, home => by
    have hordinals : Filed Use.nameIn? home [] [] []
        (d.enumerants.map fun e => Use.ordinal id e.ordinal) := by
      refine filed_none home [] fun k => ?_
      have h := filterMap_nameIn?_ordinals (d.enumerants.map Enumerant.ordinal) id k
      rwa [List.map_map] at h
    exact hordinals.append (filed_name home d.name)
  | .interface id body head _ ms, home =>
    (filed_names_interfaceMembers ms id body).named home head.name
  | .annotationDecl _ d, home => filed_name home d.name
  | .pathAlias a, home => filed_name? home a.binding
  | .importAlias a, home => filed_name? home a.binding

theorem filed_names_member : ∀ (m : PlacedMember) (space : DeclId) (home : ScopeId),
    Filed Use.nameIn? home m.scopeIds m.tree.binding.toList m.tree.scopeNames (m.uses space home)
  | .field _, _, home => filed_none home [] fun _ => rfl
  | .union _ body head ordinal ms, space, home => by
    have hordinal : Filed Use.nameIn? home [] [] [] (ordinal.toList.map (.ordinal space)) :=
      filed_none home [] fun k => filterMap_nameIn?_ordinals ordinal.toList space k
    exact hordinal.append ((filed_names_members ms space body).named home head.name)
  | .anonymousUnion body _ _ ms, space, home => (filed_names_members ms space body).inside home
  | .group _ body head ms, space, home =>
    (filed_names_members ms space body).named home head.name
  | .decl d, _, home => filed_names_decl d home

theorem filed_names_members : ∀ (ms : List PlacedMember) (space : DeclId) (home : ScopeId),
    Filed Use.nameIn? home (memberScopeIds ms) ((memberTrees ms).filterMap Member.binding)
      (memberScopeNames (memberTrees ms)) (memberUses space home ms)
  | [], _, home => filed_none home [] fun _ => rfl
  | m :: ms, space, home => by
    rw [memberTrees, filterMap_cons_toList]
    exact (filed_names_member m space home).append (filed_names_members ms space home)

theorem filed_names_interfaceMember : ∀ (m : PlacedInterfaceMember) (space : DeclId)
    (home : ScopeId), Filed Use.nameIn? home m.scopeIds m.tree.binding.toList m.tree.scopeNames
      (m.uses space home)
  | .method _, _, home => filed_none home [] fun _ => rfl
  | .decl d, _, home => filed_names_decl d home

theorem filed_names_interfaceMembers : ∀ (ms : List PlacedInterfaceMember) (space : DeclId)
    (home : ScopeId), Filed Use.nameIn? home (interfaceMemberScopeIds ms)
      ((interfaceMemberTrees ms).filterMap InterfaceMember.binding)
      (interfaceMemberScopeNames (interfaceMemberTrees ms)) (interfaceMemberUses space home ms)
  | [], _, home => filed_none home [] fun _ => rfl
  | m :: ms, space, home => by
    rw [interfaceMemberTrees, filterMap_cons_toList]
    exact (filed_names_interfaceMember m space home).append
      (filed_names_interfaceMembers ms space home)

end

/-- The names in a file. -/
theorem filed_names_file (scope : ScopeId) (ds : List PlacedDecl) :
    Filed Use.nameIn? scope (ds.flatMap PlacedDecl.scopeIds)
      ((ds.map PlacedDecl.tree).filterMap Decl.binding)
      ((ds.map PlacedDecl.tree).flatMap Decl.scopeNames) (fileUses scope ds) := by
  induction ds with
  | nil => exact filed_none scope [] fun _ => rfl
  | cons d ds ih =>
    rw [List.map_cons, filterMap_cons_toList]
    exact (filed_names_decl d scope).append ih

/-! ## Ordinals that are filed by numbering space -/

theorem filed_ordinals (space : DeclId) (os : List Ordinal) :
    Filed Use.ordinalIn? space [] os [] (os.map (.ordinal space)) := by
  refine filed_home ?_ fun k hk => ?_
  · rw [List.filterMap_map]
    refine (List.filterMap_congr fun o _ => ?_).trans (List.filterMap_some (l := os))
    exact if_pos rfl
  · rw [List.filterMap_map, List.filterMap_eq_nil_iff]
    exact fun o _ => if_neg (Ne.symm hk)

/-- Names take no ordinal. -/
theorem filterMap_ordinalIn?_names (is : List Ident) (home : ScopeId) (space : DeclId) :
    (is.map (.name home)).filterMap (Use.ordinalIn? space) = [] := by
  rw [List.filterMap_map, List.filterMap_eq_nil_iff]
  exact fun _ _ => rfl

theorem Filed.after_name {space : DeclId} {keys : List DeclId} {own : List Ordinal}
    {rows : List (List Ordinal)} {us : List Use}
    (h : Filed Use.ordinalIn? space keys own rows us) (home : ScopeId) (i : Ident) :
    Filed Use.ordinalIn? space keys own rows (.name home i :: us) := by
  have hname : Filed Use.ordinalIn? space [] [] [] [.name home i] :=
    filed_none space [] fun _ => rfl
  exact hname.append h

mutual

theorem filed_ordinals_decl : ∀ (d : PlacedDecl) (home : ScopeId) (space : DeclId),
    Filed Use.ordinalIn? space d.ids [] d.tree.spaceOrdinals (d.uses home)
  | .const id _, _, space => filed_none space [id] fun _ => rfl
  | .struct id body head ms, home, space =>
    ((filed_ordinals_members ms id body).inside space).after_name home head.name
  | .enum id d, home, space => by
    have hordinals := (filed_ordinals id (d.enumerants.map Enumerant.ordinal)).inside space
    have hname : Filed Use.ordinalIn? space [] [] [] [.name home d.name] :=
      filed_none space [] fun _ => rfl
    rw [List.map_map] at hordinals
    exact hordinals.append hname
  | .interface id body head _ ms, home, space =>
    ((filed_ordinals_interfaceMembers ms id body).inside space).after_name home head.name
  | .annotationDecl id _, _, space => filed_none space [id] fun _ => rfl
  | .pathAlias a, home, space =>
    filed_none space [] (filterMap_ordinalIn?_names a.binding.toList home)
  | .importAlias a, home, space =>
    filed_none space [] (filterMap_ordinalIn?_names a.binding.toList home)

theorem filed_ordinals_member : ∀ (m : PlacedMember) (space : DeclId) (home : ScopeId),
    Filed Use.ordinalIn? space m.ids m.tree.ordinals m.tree.spaceOrdinals (m.uses space home)
  | .field f, space, _ => filed_ordinals space [f.ordinal]
  | .union id body head ordinal ms, space, home =>
    (filed_ordinals space ordinal.toList).append
      (((filed_ordinals_members ms space body).cons_key id).after_name home head.name)
  | .anonymousUnion body _ _ ms, space, _ => filed_ordinals_members ms space body
  | .group id body head ms, space, home =>
    ((filed_ordinals_members ms space body).cons_key id).after_name home head.name
  | .decl d, space, home => filed_ordinals_decl d home space

theorem filed_ordinals_members : ∀ (ms : List PlacedMember) (space : DeclId) (home : ScopeId),
    Filed Use.ordinalIn? space (memberIds ms) (memberOrdinals (memberTrees ms))
      (memberSpaceOrdinals (memberTrees ms)) (memberUses space home ms)
  | [], space, _ => filed_none space [] fun _ => rfl
  | m :: ms, space, home =>
    (filed_ordinals_member m space home).append (filed_ordinals_members ms space home)

theorem filed_ordinals_interfaceMember : ∀ (m : PlacedInterfaceMember) (space : DeclId)
    (home : ScopeId), Filed Use.ordinalIn? space m.ids m.tree.ordinal?.toList
      m.tree.spaceOrdinals (m.uses space home)
  | .method m, space, _ => filed_ordinals space [m.ordinal]
  | .decl d, space, home => filed_ordinals_decl d home space

theorem filed_ordinals_interfaceMembers : ∀ (ms : List PlacedInterfaceMember) (space : DeclId)
    (home : ScopeId), Filed Use.ordinalIn? space (interfaceMemberIds ms)
      ((interfaceMemberTrees ms).filterMap InterfaceMember.ordinal?)
      (interfaceMemberSpaceOrdinals (interfaceMemberTrees ms)) (interfaceMemberUses space home ms)
  | [], space, _ => filed_none space [] fun _ => rfl
  | m :: ms, space, home => by
    rw [interfaceMemberTrees, filterMap_cons_toList]
    exact (filed_ordinals_interfaceMember m space home).append
      (filed_ordinals_interfaceMembers ms space home)

end

/-- The ordinals in a file; a file is no numbering space itself. -/
theorem filed_ordinals_file (space : DeclId) (scope : ScopeId) (ds : List PlacedDecl) :
    Filed Use.ordinalIn? space (ds.flatMap PlacedDecl.ids) []
      ((ds.map PlacedDecl.tree).flatMap Decl.spaceOrdinals) (fileUses scope ds) := by
  induction ds with
  | nil => exact filed_none space [] fun _ => rfl
  | cons d ds ih => exact (filed_ordinals_decl d scope space).append ih

end SchemaLang
