import Mathlib.Data.List.Flatten
import SchemaLang.Proofs.Loading.Entered
import SchemaLang.Proofs.Reordering.Tables
import SchemaLang.Scope.Clash

/-!
# Clashes in another order

Whether two uses clash does not depend on the order of the uses, nor on the numbers of scopes and
declarations, so a module can be entered in every order of its declarations or in none:
`exists_enter_iff`.  In a file without clashes no scope binds a name twice: `distinct_fileScopes`.
-/

namespace SchemaLang

/-! ## Uses that do not clash -/

/-- No two of the uses clash. -/
def Clashless (us : List Use) : Prop := us.Pairwise fun u v => u.sameKey v = false

theorem Use.sameKey_comm (u v : Use) : u.sameKey v = v.sameKey u := by
  cases u <;> cases v <;> simp only [sameKey, eq_comm]

theorem firstClashAfter_eq_none_iff (us : List Use) : ∀ earlier : List Use,
    firstClashAfter earlier us = none ↔
      (∀ u ∈ us, ∀ v ∈ earlier, v.sameKey u = false) ∧ Clashless us := by
  induction us with
  | nil => exact fun _ => ⟨fun _ => ⟨nofun, .nil⟩, fun _ => rfl⟩
  | cons u us ih =>
    intro earlier
    rw [firstClashAfter]
    cases hfind : earlier.find? (·.sameKey u) with
    | some v =>
      have hmem := List.mem_of_find?_eq_some hfind
      have hkey := List.find?_some hfind
      refine ⟨nofun, fun h => ?_⟩
      exact absurd ((h.1 u List.mem_cons_self v hmem).symm.trans hkey) nofun
    | none =>
      simp only [List.find?_eq_none, Bool.not_eq_true] at hfind
      simp only [ih, Clashless, List.pairwise_cons, List.forall_mem_cons]
      constructor
      · rintro ⟨hearlier, hus⟩
        exact ⟨⟨hfind, fun v hv => (hearlier v hv).2⟩, fun v hv => (hearlier v hv).1, hus⟩
      · rintro ⟨⟨-, hearlier⟩, hu, hus⟩
        exact ⟨fun v hv => ⟨hu v hv, hearlier v hv⟩, hus⟩

theorem firstClash?_eq_none_iff {us : List Use} : firstClash? us = none ↔ Clashless us := by
  rw [firstClash?, firstClashAfter_eq_none_iff]
  exact ⟨And.right, fun h => ⟨fun _ _ _ => nofun, h⟩⟩

theorem Clashless.sublist {us vs : List Use} (h : Clashless vs) (hs : us.Sublist vs) :
    Clashless us := List.Pairwise.sublist hs h

theorem Clashless.perm_iff {us vs : List Use} (h : us.Perm vs) : Clashless us ↔ Clashless vs :=
  h.pairwise_iff fun {u v} huv => (v.sameKey_comm u).trans huv

/-! ## Uses with other numbers -/

section Rename

variable {ρ : Renaming} {moved : Bool}

/-- The use with other numbers. -/
def Use.rename (ρ : Renaming) : Use → Use
  | .name scope i => .name (ρ.scope scope) i
  | .ordinal space o => .ordinal (ρ.decl space) o

theorem Use.sameKey_rename (hdecl : Function.Injective ρ.decl)
    (hscope : Function.Injective ρ.scope) (u v : Use) :
    (u.rename ρ).sameKey (v.rename ρ) = u.sameKey v := by
  cases u <;> cases v <;> simp only [rename, sameKey, hdecl.eq_iff, hscope.eq_iff]

theorem Clashless.rename_iff (hdecl : Function.Injective ρ.decl)
    (hscope : Function.Injective ρ.scope) {us : List Use} :
    Clashless (us.map (Use.rename ρ)) ↔ Clashless us := by
  rw [Clashless, List.pairwise_map]
  simp only [Use.sameKey_rename hdecl hscope]
  rfl

theorem memberUses_eq_flatMap (space : DeclId) (home : ScopeId) (ms : List PlacedMember) :
    memberUses space home ms = ms.flatMap (PlacedMember.uses space home) := by
  induction ms with
  | nil => rfl
  | cons m ms ih => rw [memberUses, ih, List.flatMap_cons]

theorem interfaceMemberUses_eq_flatMap (space : DeclId) (home : ScopeId)
    (ms : List PlacedInterfaceMember) :
    interfaceMemberUses space home ms = ms.flatMap (PlacedInterfaceMember.uses space home) := by
  induction ms with
  | nil => rfl
  | cons m ms ih => rw [interfaceMemberUses, ih, List.flatMap_cons]

theorem Swaps.memberUses {ms ms' : List PlacedMember} {movable : PlacedMember → Bool}
    (order : Swaps movable ms ms') (space : DeclId) (home : ScopeId) :
    (memberUses space home ms).Perm (memberUses space home ms') := by
  rw [memberUses_eq_flatMap, memberUses_eq_flatMap]
  exact order.perm.flatMap_right _

theorem Swaps.interfaceMemberUses {ms ms' : List PlacedInterfaceMember}
    {movable : PlacedInterfaceMember → Bool} (order : Swaps movable ms ms') (space : DeclId)
    (home : ScopeId) :
    (interfaceMemberUses space home ms).Perm (interfaceMemberUses space home ms') := by
  rw [interfaceMemberUses_eq_flatMap, interfaceMemberUses_eq_flatMap]
  exact order.perm.flatMap_right _

mutual

theorem uses_perm_decl : ∀ (d : PlacedDecl) {d' : PlacedDecl}, d.Reordered ρ moved d' →
    ∀ home, ((d.uses home).map (Use.rename ρ)).Perm (d'.uses (ρ.scope home))
  | .const _ _, _, .const, _ => .refl _
  | .struct id body _ ms, _, .struct members order, _ =>
    ((uses_perm_members ms members id body).trans (order.memberUses _ _)).cons _
  | .enum id d, _, .enum, _ => by
    rw [PlacedDecl.uses, List.map_append, List.map_map]
    exact .refl _
  | .interface id body _ _ ms, _, .interface members order, _ =>
    ((uses_perm_interfaceMembers ms members id body).trans (order.interfaceMemberUses _ _)).cons _
  | .annotationDecl _ _, _, .annotationDecl, _ => .refl _
  | .pathAlias a, _, .pathAlias, _ => by
    rw [PlacedDecl.uses, List.map_map]
    exact .refl _
  | .importAlias a, _, .importAlias, _ => by
    rw [PlacedDecl.uses, List.map_map]
    exact .refl _

theorem uses_perm_member : ∀ (m : PlacedMember) {m' : PlacedMember}, m.Reordered ρ moved m' →
    ∀ space home,
      ((m.uses space home).map (Use.rename ρ)).Perm (m'.uses (ρ.decl space) (ρ.scope home))
  | .field _, _, .field, _, _ => .refl _
  | .union _ body _ ordinal ms, _, .union members order, space, _ => by
    rw [PlacedMember.uses, List.map_append, List.map_map]
    exact (((uses_perm_members ms members space body).trans (order.memberUses _ _)).cons
      _).append_left _
  | .anonymousUnion body _ _ ms, _, .anonymousUnion members order, space, _ =>
    (uses_perm_members ms members space body).trans (order.memberUses _ _)
  | .group _ body _ ms, _, .group members order, space, _ =>
    ((uses_perm_members ms members space body).trans (order.memberUses _ _)).cons _
  | .decl d, _, .decl nested, _, home => uses_perm_decl d nested home

theorem uses_perm_members : ∀ (ms : List PlacedMember) {ms' : List PlacedMember},
    List.Forall₂ (PlacedMember.Reordered ρ moved) ms ms' → ∀ space home,
      ((memberUses space home ms).map (Use.rename ρ)).Perm
        (memberUses (ρ.decl space) (ρ.scope home) ms')
  | [], _, .nil, _, _ => .nil
  | m :: ms, _, .cons hm hms, space, home => by
    rw [memberUses, List.map_append]
    exact (uses_perm_member m hm space home).append (uses_perm_members ms hms space home)

theorem uses_perm_interfaceMember : ∀ (m : PlacedInterfaceMember) {m' : PlacedInterfaceMember},
    m.Reordered ρ moved m' → ∀ space home,
      ((m.uses space home).map (Use.rename ρ)).Perm (m'.uses (ρ.decl space) (ρ.scope home))
  | .method _, _, .method, _, _ => .refl _
  | .decl d, _, .decl nested, _, home => uses_perm_decl d nested home

theorem uses_perm_interfaceMembers : ∀ (ms : List PlacedInterfaceMember)
    {ms' : List PlacedInterfaceMember},
    List.Forall₂ (PlacedInterfaceMember.Reordered ρ moved) ms ms' → ∀ space home,
      ((interfaceMemberUses space home ms).map (Use.rename ρ)).Perm
        (interfaceMemberUses (ρ.decl space) (ρ.scope home) ms')
  | [], _, .nil, _, _ => .nil
  | m :: ms, _, .cons hm hms, space, home => by
    rw [interfaceMemberUses, List.map_append]
    exact (uses_perm_interfaceMember m hm space home).append
      (uses_perm_interfaceMembers ms hms space home)

end

theorem uses_perm_file {ds ds' : List PlacedDecl} (h : FileReordered ρ moved ds ds')
    (scope : ScopeId) :
    ((fileUses scope ds).map (Use.rename ρ)).Perm (fileUses (ρ.scope scope) ds') := by
  obtain ⟨ds₁, decls, order⟩ := h
  refine List.Perm.trans ?_ (order.perm.flatMap_right _)
  clear order
  rw [fileUses]
  induction decls with
  | nil => exact .nil
  | @cons d _ _ _ hd _ ih =>
    rw [List.flatMap_cons, List.map_append]
    exact (uses_perm_decl d hd scope).append ih

end Rename

/-! ## Entering a module in another order -/

section Enter

variable {moved : Bool} {m m' : Module}

/-- A module can be entered if it has no clash. -/
theorem exists_enter {l : Loaded} {path : String} {m : Module} :
    (∃ l₁, l.enter path m = .ok l₁) ↔ Clashless (fileUses l.scopes.size (l.place m)) := by
  rw [← firstClash?_eq_none_iff, Loaded.enter, Loaded.place]
  dsimp only
  cases firstClash? _ with
  | none => exact ⟨fun _ => rfl, fun _ => ⟨_, rfl⟩⟩
  | some c => exact ⟨fun ⟨_, h⟩ => absurd h nofun, nofun⟩

theorem Consecutive.nodup {n n' : Nat} {ids : List Nat} (h : Consecutive n ids n') :
    ids.Nodup := by
  rw [h.1]
  exact List.nodup_range'

/-- Numbers that match, none of them repeated, are those of an injective renaming, whose other
numbers are past any bounds. -/
theorem Matches.exists_renaming_past {ids ids' : List DeclId} {scopes scopes' : List ScopeId}
    {P : Renaming → Prop} (h : Matches ids ids' scopes scopes' P) (hids : ids.Nodup)
    (hids' : ids'.Nodup) (hscopes : scopes.Nodup) (hscopes' : scopes'.Nodup)
    (module : ModuleId → ModuleId) (declBound : DeclId) (scopeBound : ScopeId) :
    ∃ ρ, P ρ ∧ ρ.module = module ∧ Function.Injective ρ.decl ∧ Function.Injective ρ.scope ∧
      (∀ id, ρ.decl id ∈ ids' ∨ declBound ≤ ρ.decl id) ∧
      ∀ scope, ρ.scope scope ∈ scopes' ∨ scopeBound ≤ ρ.scope scope := by
  obtain ⟨decls, pairs, rfl, hsnd, rfl, hsnd', hall⟩ := h
  obtain ⟨f, hf, hdecls, hpast⟩ := exists_injective_past hids (hsnd.nodup_iff.2 hids') declBound
  obtain ⟨g, hg, hpairs, hpast'⟩ :=
    exists_injective_past hscopes (hsnd'.nodup_iff.2 hscopes') scopeBound
  exact ⟨⟨module, f, g⟩, hall _ ⟨hdecls, hpairs⟩, rfl, hf, hg,
    fun id => (hpast id).imp_left fun hid => hsnd.subset hid,
    fun scope => (hpast' scope).imp_left fun hscope => hsnd'.subset hscope⟩

/-- Numbers that match, none of them repeated, are those of an injective renaming. -/
theorem Matches.exists_renaming {ids ids' : List DeclId} {scopes scopes' : List ScopeId}
    {P : Renaming → Prop} (h : Matches ids ids' scopes scopes' P) (hids : ids.Nodup)
    (hids' : ids'.Nodup) (hscopes : scopes.Nodup) (hscopes' : scopes'.Nodup)
    (module : ModuleId → ModuleId) :
    ∃ ρ, P ρ ∧ ρ.module = module ∧ Function.Injective ρ.decl ∧ Function.Injective ρ.scope := by
  obtain ⟨ρ, hP, hmodule, hdecl, hscope, -, -⟩ :=
    h.exists_renaming_past hids hids' hscopes hscopes' module 0 0
  exact ⟨ρ, hP, hmodule, hdecl, hscope⟩

theorem Loaded.trees_place (l : Loaded) (m : Module) :
    (l.place m).map PlacedDecl.tree = m.decls := trees_placeDecls m.decls _

theorem Loaded.nodup_ids_place (l : Loaded) (m : Module) :
    ((l.place m).flatMap PlacedDecl.ids).Nodup := (consecutive_placeDecls m.decls _).nodup

theorem Loaded.nodup_scopeIds_place (l : Loaded) (m : Module) :
    (l.scopes.size :: (l.place m).flatMap PlacedDecl.scopeIds).Nodup :=
  (consecutive_scopes_placeDecls m.decls _).cons.nodup

/-- A module can be entered in every order of its declarations or in none. -/
theorem exists_enter_iff (h : m.Reordered moved m') (l l' : Loaded) (path path' : String) :
    (∃ l₁, l.enter path m = .ok l₁) ↔ ∃ l₁', l'.enter path' m' = .ok l₁' := by
  have hmatches := matches_module (l.trees_place m) (l'.trees_place m') h l.scopes.size
    l'.scopes.size
  obtain ⟨ρ, ⟨hscope, hfile⟩, -, hdecl, hscopes⟩ := hmatches.exists_renaming
    (l.nodup_ids_place m) (l'.nodup_ids_place m') (l.nodup_scopeIds_place m)
    (l'.nodup_scopeIds_place m') id
  rw [exists_enter, exists_enter, ← Clashless.rename_iff hdecl hscopes, ← hscope]
  exact Clashless.perm_iff (uses_perm_file hfile _)

end Enter

/-! ## Scopes without clashes -/

/-- The scope binds no name twice, neither to declarations nor to aliases nor to one of each. -/
structure Scope.Distinct (s : Scope) : Prop where
  names : (s.names.map Prod.fst).Nodup
  aliases : (s.aliases.map Prod.fst).Nodup
  apart : (s.names.map Prod.fst).Disjoint (s.aliases.map Prod.fst)

section Distinct

/-- Names that are bound in one scope without a clash differ. -/
theorem Clashless.nodup_names {home : ScopeId} {is : List Ident}
    (h : Clashless (is.map (.name home))) : (is.map Ident.name).Nodup := by
  rw [Clashless, List.pairwise_map] at h
  rw [List.Nodup, List.pairwise_map]
  exact h.imp fun hkey e => by simp [Use.sameKey, e] at hkey

/-- The names that an item binds, to a declaration or to an alias. -/
def boundNames (declared : Option (DeclId × Ident)) (aliased : Option (Ident × AliasTarget)) :
    List Ident :=
  (declared.toList.map Prod.snd) ++ aliased.toList.map Prod.fst

/-- What a declaration binds is among its uses. -/
theorem PlacedDecl.sublist_bound (d : PlacedDecl) (home : ScopeId) :
    ((boundNames d.declared? d.aliased?).map (Use.name home)).Sublist (d.uses home) := by
  cases d with
  | enum id d => exact List.sublist_append_right _ _
  | pathAlias a => cases h : a.binding <;> simp [boundNames, declared?, aliased?, uses, h]
  | importAlias a => cases h : a.binding <;> simp [boundNames, declared?, aliased?, uses, h]
  | _ => simp [boundNames, declared?, aliased?, uses]

theorem PlacedMember.sublist_bound (m : PlacedMember) (space : DeclId) (home : ScopeId) :
    ((boundNames m.declared? m.aliased?).map (Use.name home)).Sublist (m.uses space home) := by
  cases m with
  | decl d => exact d.sublist_bound home
  | union id body head ordinal ms =>
    exact (List.Sublist.cons_cons _ (List.nil_sublist _)).trans (List.sublist_append_right _ _)
  | _ => simp [boundNames, declared?, aliased?, uses]

theorem PlacedInterfaceMember.sublist_bound (m : PlacedInterfaceMember) (space : DeclId)
    (home : ScopeId) :
    ((boundNames m.declared? m.aliased?).map (Use.name home)).Sublist (m.uses space home) := by
  cases m with
  | method => exact List.nil_sublist _
  | decl d => exact d.sublist_bound home

/-- What is bound among items that do not clash is bound under different names. -/
theorem distinct_binding {π : Type} {declared? : π → Option (DeclId × Ident)}
    {aliased? : π → Option (Ident × AliasTarget)} {uses : π → List Use} {ms : List π}
    {home : ScopeId} (h : Clashless (ms.flatMap uses))
    (hbound : ∀ m, ((boundNames (declared? m) (aliased? m)).map (Use.name home)).Sublist (uses m))
    (module : ModuleId) (enclosing : List ScopeId) :
    (Scope.binding module enclosing (ms.filterMap declared?) (ms.filterMap aliased?)).Distinct := by
  have hsub : ((ms.flatMap fun m => boundNames (declared? m) (aliased? m)).map
      (Use.name home)).Sublist (ms.flatMap uses) := by
    rw [List.map_flatMap]
    exact List.Sublist.flatMap_right ms fun m _ => hbound m
  -- Item by item, names and aliases alternate; a scope holds all names before all aliases.
  have hperm : ((ms.filterMap declared?).map Prod.snd ++ (ms.filterMap aliased?).map Prod.fst).Perm
      (ms.flatMap fun m => boundNames (declared? m) (aliased? m)) := by
    rw [List.filterMap_eq_flatMap_toList, List.filterMap_eq_flatMap_toList, List.map_flatMap,
      List.map_flatMap]
    exact List.flatMap_append_perm ms _ _
  have hnodup := ((hperm.map Ident.name).nodup_iff).2 (h.sublist hsub).nodup_names
  rw [List.map_append, List.nodup_append'] at hnodup
  obtain ⟨hnames, haliases, hapart⟩ := hnodup
  constructor
  · simpa [Scope.binding, Function.comp_def] using hnames
  · simpa [Scope.binding, Function.comp_def] using haliases
  · simpa [Scope.binding, Function.comp_def] using hapart

/-- The scope of a body of a struct, union or group. -/
theorem distinct_body {space : DeclId} {body : ScopeId} {ms : List PlacedMember}
    (h : Clashless (memberUses space body ms)) (module : ModuleId) (enclosing : List ScopeId) :
    (Scope.binding module enclosing (ms.filterMap (·.declared?))
      (ms.filterMap (·.aliased?))).Distinct := by
  rw [memberUses_eq_flatMap] at h
  exact distinct_binding h (fun m => m.sublist_bound space body) module enclosing

/-- The scope of an interface. -/
theorem distinct_interfaceBody {space : DeclId} {body : ScopeId} {ms : List PlacedInterfaceMember}
    (h : Clashless (interfaceMemberUses space body ms)) (module : ModuleId)
    (enclosing : List ScopeId) :
    (Scope.binding module enclosing (ms.filterMap (·.declared?))
      (ms.filterMap (·.aliased?))).Distinct := by
  rw [interfaceMemberUses_eq_flatMap] at h
  exact distinct_binding h (fun m => m.sublist_bound space body) module enclosing

variable (module : ModuleId)

mutual

theorem distinct_scopes_decl : ∀ (d : PlacedDecl) (home : ScopeId), Clashless (d.uses home) →
    ∀ enclosing, ∀ s ∈ d.scopes module enclosing, s.Distinct
  | .const _ _, _, _, _ | .enum _ _, _, _, _ | .annotationDecl _ _, _, _, _ => nofun
  | .pathAlias _, _, _, _ | .importAlias _, _, _, _ => nofun
  | .struct id body _ ms, _, h, enclosing => by
    have hbody := h.sublist (List.sublist_cons_self _ _)
    exact List.forall_mem_cons.2 ⟨distinct_body hbody module enclosing,
      distinct_scopes_members ms id body hbody _⟩
  | .interface id body _ _ ms, _, h, enclosing => by
    have hbody := h.sublist (List.sublist_cons_self _ _)
    exact List.forall_mem_cons.2 ⟨distinct_interfaceBody hbody module enclosing,
      distinct_scopes_interfaceMembers ms id body hbody _⟩

theorem distinct_scopes_member : ∀ (m : PlacedMember) (space : DeclId) (home : ScopeId),
    Clashless (m.uses space home) → ∀ enclosing, ∀ s ∈ m.scopes module enclosing, s.Distinct
  | .field _, _, _, _, _ => nofun
  | .union _ body _ _ ms, space, _, h, enclosing => by
    have hbody := (h.sublist (List.sublist_append_right _ _)).sublist (List.sublist_cons_self _ _)
    exact List.forall_mem_cons.2 ⟨distinct_body hbody module enclosing,
      distinct_scopes_members ms space body hbody _⟩
  | .anonymousUnion body _ _ ms, space, _, h, enclosing =>
    List.forall_mem_cons.2 ⟨distinct_body h module enclosing,
      distinct_scopes_members ms space body h _⟩
  | .group _ body _ ms, space, _, h, enclosing => by
    have hbody := h.sublist (List.sublist_cons_self _ _)
    exact List.forall_mem_cons.2 ⟨distinct_body hbody module enclosing,
      distinct_scopes_members ms space body hbody _⟩
  | .decl d, _, home, h, enclosing => distinct_scopes_decl d home h enclosing

theorem distinct_scopes_members : ∀ (ms : List PlacedMember) (space : DeclId) (home : ScopeId),
    Clashless (memberUses space home ms) →
      ∀ enclosing, ∀ s ∈ memberScopes module enclosing ms, s.Distinct
  | [], _, _, _, _ => nofun
  | m :: ms, space, home, h, enclosing =>
    List.forall_mem_append.2
      ⟨distinct_scopes_member m space home (h.sublist (List.sublist_append_left _ _)) enclosing,
        distinct_scopes_members ms space home (h.sublist (List.sublist_append_right _ _)) enclosing⟩

theorem distinct_scopes_interfaceMember : ∀ (m : PlacedInterfaceMember) (space : DeclId)
    (home : ScopeId), Clashless (m.uses space home) →
      ∀ enclosing, ∀ s ∈ m.scopes module enclosing, s.Distinct
  | .method _, _, _, _, _ => nofun
  | .decl d, _, home, h, enclosing => distinct_scopes_decl d home h enclosing

theorem distinct_scopes_interfaceMembers : ∀ (ms : List PlacedInterfaceMember) (space : DeclId)
    (home : ScopeId), Clashless (interfaceMemberUses space home ms) →
      ∀ enclosing, ∀ s ∈ interfaceMemberScopes module enclosing ms, s.Distinct
  | [], _, _, _, _ => nofun
  | m :: ms, space, home, h, enclosing =>
    List.forall_mem_append.2
      ⟨distinct_scopes_interfaceMember m space home (h.sublist (List.sublist_append_left _ _))
        enclosing, distinct_scopes_interfaceMembers ms space home
          (h.sublist (List.sublist_append_right _ _)) enclosing⟩

end

/-- The scopes of a file without clashes. -/
theorem distinct_fileScopes {scope : ScopeId} {ds : List PlacedDecl}
    (h : Clashless (fileUses scope ds)) : ∀ s ∈ fileScopes module scope ds, s.Distinct := by
  refine List.forall_mem_cons.2 ⟨?_, fun s hs => ?_⟩
  · exact distinct_binding h (fun d => d.sublist_bound scope) module []
  · obtain ⟨d, hd, hs⟩ := List.mem_flatMap.1 hs
    have hsub := (List.singleton_sublist.2 hd).flatMap (PlacedDecl.uses scope)
    rw [List.flatMap_singleton] at hsub
    exact distinct_scopes_decl module d scope (h.sublist hsub) _ s hs

end Distinct

end SchemaLang
