import SchemaLang.Proofs.Placing.Tables
import SchemaLang.Proofs.Reordering.Clashes

/-!
# Names in one place

The body of a struct, union or group and the anonymous unions in it are one place for dotted names,
but each has a scope of its own, and only within a scope resolving rules out that a name is declared
twice.  `nodup_keys_file` says that no two declarations of a file have the same name in the same
place if and only if the scopes of each body declare different names.
-/

namespace SchemaLang

/-! ## The scopes of a body -/

/-- The name of a declaration, if it gets an id. -/
def Decl.ownName? : Decl → Option String
  | .const d => some d.name.name
  | .struct head _ => some head.name.name
  | .enum d => some d.name.name
  | .interface head _ _ => some head.name.name
  | .annotationDecl d => some d.name.name
  | .pathAlias _ | .importAlias _ => none

/-- The name that a member declares in the scope that it stands in. -/
def Member.ownName? : Member → Option String
  | .field _ | .anonymousUnion _ _ _ => none
  | .union head _ _ => some head.name.name
  | .group head _ => some head.name.name
  | .decl d => d.ownName?

/-- The name that an item declares in the scope of its interface. -/
def InterfaceMember.ownName? : InterfaceMember → Option String
  | .method _ => none
  | .decl d => d.ownName?

mutual

/-- The names that the anonymous unions in a member declare, scope by scope. -/
def Member.unionScopes : Member → List (List String)
  | .anonymousUnion _ _ ms => ms.filterMap Member.ownName? :: memberUnionScopes ms
  | _ => []

/-- The names that the anonymous unions in a body declare, scope by scope. -/
def memberUnionScopes : List Member → List (List String)
  | [] => []
  | m :: ms => m.unionScopes ++ memberUnionScopes ms

end

/-- The names that a body declares, scope by scope: its own and those of its anonymous unions. -/
def bodyScopes (ms : List Member) : List (List String) :=
  ms.filterMap Member.ownName? :: memberUnionScopes ms

mutual

/-- In each body of the declaration, the scopes declare different names. -/
def Decl.Apart : Decl → Prop
  | .struct _ ms => (bodyScopes ms).Pairwise List.Disjoint ∧ membersApart ms
  | .interface _ _ ms => interfaceMembersApart ms
  | _ => True

/-- In each body of the member, the scopes declare different names. -/
def Member.Apart : Member → Prop
  | .field _ => True
  | .union _ _ ms => (bodyScopes ms).Pairwise List.Disjoint ∧ membersApart ms
  | .anonymousUnion _ _ ms => membersApart ms
  | .group _ ms => (bodyScopes ms).Pairwise List.Disjoint ∧ membersApart ms
  | .decl d => d.Apart

/-- In each body of the members, the scopes declare different names. -/
def membersApart : List Member → Prop
  | [] => True
  | m :: ms => m.Apart ∧ membersApart ms

/-- In each body of the item, the scopes declare different names. -/
def InterfaceMember.Apart : InterfaceMember → Prop
  | .method _ => True
  | .decl d => d.Apart

/-- In each body of the items, the scopes declare different names. -/
def interfaceMembersApart : List InterfaceMember → Prop
  | [] => True
  | m :: ms => m.Apart ∧ interfaceMembersApart ms

end

/-- In each body of the module, the scopes declare different names. -/
def Module.Apart (m : Module) : Prop := ∀ d ∈ m.decls, d.Apart

/-! ## The names of a body -/

mutual

/-- The names that a member declares in the body around it, in the order of the source. -/
def Member.names : Member → List String
  | .field _ => []
  | .union head _ _ => [head.name.name]
  | .anonymousUnion _ _ ms => memberNames ms
  | .group head _ => [head.name.name]
  | .decl d => d.ownName?.toList

/-- The names that are declared in a body, in the order of the source. -/
def memberNames : List Member → List String
  | [] => []
  | m :: ms => m.names ++ memberNames ms

end

mutual

theorem perm_names : ∀ m : Member,
    m.names.Perm (m.ownName?.toList ++ m.unionScopes.flatten)
  | .field _ => .refl _
  | .union _ _ _ => .refl _
  | .anonymousUnion _ _ ms => perm_memberNames ms
  | .group _ _ => .refl _
  | .decl _ => .of_eq (List.append_nil _).symm

theorem perm_memberNames : ∀ ms : List Member, (memberNames ms).Perm (bodyScopes ms).flatten
  | [] => .refl _
  | m :: ms => by
    have hhead : (m :: ms).filterMap Member.ownName? =
        m.ownName?.toList ++ ms.filterMap Member.ownName? := by
      cases hm : m.ownName? <;> simp [hm]
    have htail : (memberUnionScopes (m :: ms)).flatten =
        m.unionScopes.flatten ++ (memberUnionScopes ms).flatten := List.flatten_append
    refine ((perm_names m).append (perm_memberNames ms)).trans ?_
    rw [bodyScopes, bodyScopes, List.flatten_cons, List.flatten_cons, hhead, htail]
    simp only [List.append_assoc]
    refine List.Perm.append_left _ ?_
    rw [← List.append_assoc, ← List.append_assoc]
    exact List.perm_append_comm.append_right _

end

/-! ## Scopes that bind no name twice -/

theorem PlacedDecl.ownName?_tree (d : PlacedDecl) :
    d.tree.ownName? = d.declared?.map fun x => x.2.name := by
  cases d <;> rfl

theorem PlacedMember.ownName?_tree (m : PlacedMember) :
    m.tree.ownName? = m.declared?.map fun x => x.2.name := by
  cases m with
  | decl d => exact d.ownName?_tree
  | _ => rfl

theorem filterMap_ownName? (ms : List PlacedMember) :
    (memberTrees ms).filterMap Member.ownName? =
      (ms.filterMap (·.declared?)).map fun x => x.2.name := by
  rw [memberTrees_eq_map, List.filterMap_map, List.map_filterMap]
  exact List.filterMap_congr fun m _ => m.ownName?_tree

theorem nodup_of_distinct_body {module : ModuleId} {enclosing : List ScopeId}
    {ms : List PlacedMember} {aliased : List (Ident × AliasTarget)}
    (h : (Scope.binding module enclosing (ms.filterMap (·.declared?)) aliased).Distinct) :
    ((memberTrees ms).filterMap Member.ownName?).Nodup := by
  have hnames := h.names
  rw [filterMap_ownName?]
  rwa [Scope.binding, List.map_map] at hnames

theorem nodup_of_distinct_interface {module : ModuleId} {enclosing : List ScopeId}
    {ms : List PlacedInterfaceMember} {aliased : List (Ident × AliasTarget)}
    (h : (Scope.binding module enclosing (ms.filterMap (·.declared?)) aliased).Distinct) :
    ((interfaceMemberTrees ms).flatMap fun m => m.ownName?.toList).Nodup := by
  have hname (m : PlacedInterfaceMember) :
      m.tree.ownName? = m.declared?.map fun x => x.2.name := by
    cases m with
    | method => rfl
    | decl d => exact d.ownName?_tree
  have hnames := h.names
  rw [Scope.binding, List.map_map, List.map_filterMap] at hnames
  rw [← List.filterMap_eq_flatMap_toList, interfaceMemberTrees_eq_map, List.filterMap_map]
  exact (List.filterMap_congr fun m _ => hname m) ▸ hnames

theorem nodup_of_distinct_file {module : ModuleId} {enclosing : List ScopeId}
    {ds : List PlacedDecl} {aliased : List (Ident × AliasTarget)}
    (h : (Scope.binding module enclosing (ds.filterMap (·.declared?)) aliased).Distinct) :
    ((ds.map PlacedDecl.tree).flatMap fun d => d.ownName?.toList).Nodup := by
  have hnames := h.names
  rw [Scope.binding, List.map_map, List.map_filterMap] at hnames
  rw [← List.filterMap_eq_flatMap_toList, List.filterMap_map]
  exact (List.filterMap_congr fun (d : PlacedDecl) _ => d.ownName?_tree) ▸ hnames

section Distinct

variable {module : ModuleId}

mutual

theorem nodup_unionScopes : ∀ (m : PlacedMember) (enclosing : List ScopeId),
    (∀ s ∈ m.scopes module enclosing, s.Distinct) → ∀ names ∈ m.tree.unionScopes, names.Nodup
  | .field _, _, _ => nofun
  | .union _ _ _ _ _, _, _ => nofun
  | .anonymousUnion body _ _ ms, enclosing, h => by
    obtain ⟨hbody, hms⟩ := List.forall_mem_cons.1 h
    exact List.forall_mem_cons.2 ⟨nodup_of_distinct_body hbody, nodup_memberUnionScopes ms _ hms⟩
  | .group _ _ _ _, _, _ => nofun
  | .decl _, _, _ => nofun

theorem nodup_memberUnionScopes : ∀ (ms : List PlacedMember) (enclosing : List ScopeId),
    (∀ s ∈ memberScopes module enclosing ms, s.Distinct) →
      ∀ names ∈ memberUnionScopes (memberTrees ms), names.Nodup
  | [], _, _ => nofun
  | m :: ms, enclosing, h => by
    obtain ⟨hm, hms⟩ := List.forall_mem_append.1 h
    exact List.forall_mem_append.2
      ⟨nodup_unionScopes m enclosing hm, nodup_memberUnionScopes ms enclosing hms⟩

end

/-- A body whose scopes bind no name twice declares no name twice if the scopes declare different
names. -/
theorem nodup_memberNames_iff {enclosing enclosing' : List ScopeId} {ms : List PlacedMember}
    {aliased : List (Ident × AliasTarget)}
    (hbody : (Scope.binding module enclosing (ms.filterMap (·.declared?)) aliased).Distinct)
    (hms : ∀ s ∈ memberScopes module enclosing' ms, s.Distinct) :
    (memberNames (memberTrees ms)).Nodup ↔
      (bodyScopes (memberTrees ms)).Pairwise List.Disjoint := by
  rw [(perm_memberNames _).nodup_iff, List.nodup_flatten]
  refine and_iff_right (List.forall_mem_cons.2 ⟨nodup_of_distinct_body hbody, ?_⟩)
  exact nodup_memberUnionScopes ms _ hms

end Distinct

/-! ## Keys -/

/-- What an entry is nested in, and its name. -/
def Entry.key (e : Entry) : Option DeclId × String := (e.parent, e.name.name)

/-- The keys of declarations in a place that is nested in `parent`: those with `names` are nested in
it directly, and all others in one of `ids`.  If the ids are distinct, and new, no key is repeated
if and only if no name is and the parts are apart. -/
structure Keyed (parent : Option DeclId) (names : List String) (ids : List DeclId) (apart : Prop)
    (keys : List (Option DeclId × String)) : Prop where
  cases : ∀ key ∈ keys, key.1 = parent ∧ key.2 ∈ names ∨ ∃ id ∈ ids, key.1 = some id
  mem : ∀ name ∈ names, (parent, name) ∈ keys
  nodup_iff : ids.Nodup → (∀ id ∈ ids, parent ≠ some id) → (keys.Nodup ↔ names.Nodup ∧ apart)

section Keyed

variable {parent : Option DeclId} {names names' : List String} {ids ids' : List DeclId}
  {apart apart' : Prop} {keys keys' : List (Option DeclId × String)}

theorem keyed_nil (parent : Option DeclId) : Keyed parent [] [] True [] :=
  ⟨nofun, nofun, fun _ _ => ⟨fun _ => ⟨.nil, trivial⟩, fun _ => .nil⟩⟩

theorem Keyed.append (h : Keyed parent names ids apart keys)
    (h' : Keyed parent names' ids' apart' keys') :
    Keyed parent (names ++ names') (ids ++ ids') (apart ∧ apart') (keys ++ keys') := by
  constructor
  case cases =>
    refine List.forall_mem_append.2 ⟨fun key hkey => ?_, fun key hkey => ?_⟩
    · exact (h.cases key hkey).imp (fun hk => ⟨hk.1, List.mem_append_left _ hk.2⟩)
        fun ⟨id, hid, hk⟩ => ⟨id, List.mem_append_left _ hid, hk⟩
    · exact (h'.cases key hkey).imp (fun hk => ⟨hk.1, List.mem_append_right _ hk.2⟩)
        fun ⟨id, hid, hk⟩ => ⟨id, List.mem_append_right _ hid, hk⟩
  case mem =>
    exact List.forall_mem_append.2 ⟨fun name hn => List.mem_append_left _ (h.mem name hn),
      fun name hn => List.mem_append_right _ (h'.mem name hn)⟩
  case nodup_iff =>
    intro hids hparent
    obtain ⟨hidsl, hidsr, hdisjoint⟩ := List.nodup_append'.1 hids
    obtain ⟨hparentl, hparentr⟩ := List.forall_mem_append.1 hparent
    -- A key that both parts have is nested in the place itself, for their ids differ.
    have hkeys : keys.Disjoint keys' ↔ names.Disjoint names' := by
      constructor
      · exact fun hd name hl hr => hd (h.mem name hl) (h'.mem name hr)
      · intro hd key hl hr
        rcases h.cases key hl with ⟨hkey, hname⟩ | ⟨id, hid, hkey⟩
        · rcases h'.cases key hr with ⟨-, hname'⟩ | ⟨id, hid, hkey'⟩
          · exact hd hname hname'
          · exact hparentr id hid (hkey.symm.trans hkey')
        · rcases h'.cases key hr with ⟨hkey', -⟩ | ⟨id', hid', hkey'⟩
          · exact hparentl id hid (hkey'.symm.trans hkey)
          · obtain rfl := Option.some.inj (hkey.symm.trans hkey')
            exact hdisjoint hid hid'
    rw [List.nodup_append', List.nodup_append', h.nodup_iff hidsl hparentl,
      h'.nodup_iff hidsr hparentr, hkeys]
    tauto

/-- A declaration with a body. -/
theorem Keyed.inside {id : DeclId} (h : Keyed (some id) names ids apart keys) (name : String) :
    Keyed parent [name] (id :: ids) (names.Nodup ∧ apart) ((parent, name) :: keys) := by
  have hinside : ∀ key ∈ keys, ∃ i ∈ id :: ids, key.1 = some i := by
    intro key hkey
    rcases h.cases key hkey with ⟨hk, -⟩ | ⟨i, hi, hk⟩
    · exact ⟨id, List.mem_cons_self, hk⟩
    · exact ⟨i, List.mem_cons_of_mem _ hi, hk⟩
  constructor
  case cases =>
    exact List.forall_mem_cons.2
      ⟨.inl ⟨rfl, List.mem_cons_self⟩, fun key hk => .inr (hinside key hk)⟩
  case mem => exact List.forall_mem_singleton.2 List.mem_cons_self
  case nodup_iff =>
    intro hids hparent
    obtain ⟨hid, hids⟩ := List.nodup_cons.1 hids
    have hnew : (parent, name) ∉ keys := by
      intro hkey
      obtain ⟨i, hi, hk⟩ := hinside _ hkey
      exact hparent i hi hk
    have hne : ∀ i ∈ ids, some id ≠ some i := fun i hi e => hid (Option.some.inj e ▸ hi)
    rw [List.nodup_cons, and_iff_right hnew, h.nodup_iff hids hne,
      and_iff_right (List.nodup_singleton _)]

theorem Keyed.congr (h : Keyed parent names ids apart keys) (happart : apart ↔ apart') :
    Keyed parent names ids apart' keys := propext happart ▸ h

/-- A declaration without a body. -/
theorem keyed_leaf (parent : Option DeclId) (id : DeclId) (name : String) :
    Keyed parent [name] [id] True [(parent, name)] :=
  ((keyed_nil (some id)).inside name).congr ⟨fun _ => trivial, fun _ => ⟨.nil, trivial⟩⟩

end Keyed

section Entries

variable (module : ModuleId)

/-- A body whose names are declared in a place of its own. -/
theorem Keyed.body {parent : Option DeclId} {id : DeclId} {ms : List PlacedMember}
    {body : ScopeId} {enclosing enclosing' : List ScopeId} {aliased : List (Ident × AliasTarget)}
    (h : Keyed (some id) (memberNames (memberTrees ms)) (memberIds ms)
      (membersApart (memberTrees ms)) ((memberEntries module (some id) body ms).map Entry.key))
    (hbody : (Scope.binding module enclosing (ms.filterMap (·.declared?)) aliased).Distinct)
    (hms : ∀ s ∈ memberScopes module enclosing' ms, s.Distinct) (name : String) :
    Keyed parent [name] (id :: memberIds ms)
      ((bodyScopes (memberTrees ms)).Pairwise List.Disjoint ∧ membersApart (memberTrees ms))
      ((parent, name) :: (memberEntries module (some id) body ms).map Entry.key) :=
  (h.inside name).congr (and_congr_left' (nodup_memberNames_iff hbody hms))

mutual

theorem keyed_decl : ∀ (d : PlacedDecl) (parent : Option DeclId) (home : ScopeId)
    (enclosing : List ScopeId), (∀ s ∈ d.scopes module enclosing, s.Distinct) →
      Keyed parent d.tree.ownName?.toList d.ids d.tree.Apart
        ((d.entries module parent home).map Entry.key)
  | .const id _, parent, _, _, _ => keyed_leaf parent id _
  | .enum id _, parent, _, _, _ => keyed_leaf parent id _
  | .annotationDecl id _, parent, _, _, _ => keyed_leaf parent id _
  | .pathAlias _, parent, _, _, _ | .importAlias _, parent, _, _, _ => keyed_nil parent
  | .struct id body head ms, _, _, _, h => by
    obtain ⟨hbody, hms⟩ := List.forall_mem_cons.1 h
    exact (keyed_members ms (some id) body _ hms).body module hbody hms head.name.name
  | .interface id body head _ ms, parent, _, _, h => by
    obtain ⟨hbody, hms⟩ := List.forall_mem_cons.1 h
    exact ((keyed_interfaceMembers ms (some id) body _ hms).inside head.name.name).congr
      (and_iff_right (nodup_of_distinct_interface hbody))

theorem keyed_member : ∀ (m : PlacedMember) (parent : Option DeclId) (home : ScopeId)
    (enclosing : List ScopeId), (∀ s ∈ m.scopes module enclosing, s.Distinct) →
      Keyed parent m.tree.names m.ids m.tree.Apart ((m.entries module parent home).map Entry.key)
  | .field _, parent, _, _, _ => keyed_nil parent
  | .union id body head _ ms, _, _, _, h => by
    obtain ⟨hbody, hms⟩ := List.forall_mem_cons.1 h
    exact (keyed_members ms (some id) body _ hms).body module hbody hms head.name.name
  | .anonymousUnion body _ _ ms, parent, _, _, h =>
    keyed_members ms parent body _ (List.forall_mem_cons.1 h).2
  | .group id body head ms, _, _, _, h => by
    obtain ⟨hbody, hms⟩ := List.forall_mem_cons.1 h
    exact (keyed_members ms (some id) body _ hms).body module hbody hms head.name.name
  | .decl d, parent, home, enclosing, h => keyed_decl d parent home enclosing h

theorem keyed_members : ∀ (ms : List PlacedMember) (parent : Option DeclId) (home : ScopeId)
    (enclosing : List ScopeId), (∀ s ∈ memberScopes module enclosing ms, s.Distinct) →
      Keyed parent (memberNames (memberTrees ms)) (memberIds ms) (membersApart (memberTrees ms))
        ((memberEntries module parent home ms).map Entry.key)
  | [], parent, _, _, _ => keyed_nil parent
  | m :: ms, parent, home, enclosing, h => by
    obtain ⟨hm, hms⟩ := List.forall_mem_append.1 h
    rw [memberEntries, List.map_append]
    exact (keyed_member m parent home enclosing hm).append
      (keyed_members ms parent home enclosing hms)

theorem keyed_interfaceMember : ∀ (m : PlacedInterfaceMember) (parent : Option DeclId)
    (home : ScopeId) (enclosing : List ScopeId),
      (∀ s ∈ m.scopes module enclosing, s.Distinct) →
        Keyed parent m.tree.ownName?.toList m.ids m.tree.Apart
          ((m.entries module parent home).map Entry.key)
  | .method _, parent, _, _, _ => keyed_nil parent
  | .decl d, parent, home, enclosing, h => keyed_decl d parent home enclosing h

theorem keyed_interfaceMembers : ∀ (ms : List PlacedInterfaceMember) (parent : Option DeclId)
    (home : ScopeId) (enclosing : List ScopeId),
      (∀ s ∈ interfaceMemberScopes module enclosing ms, s.Distinct) →
        Keyed parent ((interfaceMemberTrees ms).flatMap fun m => m.ownName?.toList)
          (interfaceMemberIds ms) (interfaceMembersApart (interfaceMemberTrees ms))
          ((interfaceMemberEntries module parent home ms).map Entry.key)
  | [], parent, _, _, _ => keyed_nil parent
  | m :: ms, parent, home, enclosing, h => by
    obtain ⟨hm, hms⟩ := List.forall_mem_append.1 h
    rw [interfaceMemberEntries, List.map_append]
    exact (keyed_interfaceMember m parent home enclosing hm).append
      (keyed_interfaceMembers ms parent home enclosing hms)

end

theorem keyed_decls (home : ScopeId) (enclosing : List ScopeId) (ds : List PlacedDecl)
    (h : ∀ s ∈ ds.flatMap fun d => d.scopes module enclosing, s.Distinct) :
    Keyed none ((ds.map PlacedDecl.tree).flatMap fun d => d.ownName?.toList)
      (ds.flatMap PlacedDecl.ids) (∀ d ∈ ds, d.tree.Apart)
      ((ds.flatMap fun d => d.entries module none home).map Entry.key) := by
  induction ds with
  | nil => exact (keyed_nil none).congr ⟨fun _ => nofun, fun _ => trivial⟩
  | cons d ds ih =>
    obtain ⟨hd, hds⟩ := List.forall_mem_append.1 h
    have hkeys : ((d :: ds).flatMap fun d => d.entries module none home).map Entry.key =
        (d.entries module none home).map Entry.key ++
          (ds.flatMap fun d => d.entries module none home).map Entry.key := by
      rw [List.flatMap_cons, List.map_append]
    rw [hkeys]
    refine ((keyed_decl module d none home enclosing hd).append (ih hds)).congr ?_
    rw [List.forall_mem_cons]

/-- No two declarations of a file have the same name in the same place if and only if the scopes of
each body declare different names. -/
theorem nodup_keys_file {scope : ScopeId} {ds : List PlacedDecl}
    (hids : (ds.flatMap PlacedDecl.ids).Nodup)
    (hscopes : ∀ s ∈ fileScopes module scope ds, s.Distinct) :
    ((fileEntries module scope ds).map Entry.key).Nodup ↔ ∀ d ∈ ds, d.tree.Apart := by
  obtain ⟨hfile, hds⟩ := List.forall_mem_cons.1 hscopes
  have hkeyed := keyed_decls module scope [scope] ds hds
  exact (hkeyed.nodup_iff hids nofun).trans (and_iff_right (nodup_of_distinct_file hfile))

end Entries

end SchemaLang
