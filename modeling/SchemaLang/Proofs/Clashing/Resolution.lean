import SchemaLang.Proofs.Clashing.Reports
import SchemaLang.Proofs.Reordering.Loading
import SchemaLang.Proofs.Resolution
import SchemaLang.Proofs.Typing.Entries
import SchemaLang.Schema.Query

/-!
# Ordinals of linked structs

Linking keeps the ordinals of fields, so the fields of a struct in a schema use those of its
numbering space: `fields_linkDecl`.  With what entering a module rules out, `enter_distinct` says
exactly when a module is entered, what is reported of one that is not, and that the fields of a
struct that was resolved have different ordinals.
-/

namespace SchemaLang

/-! ## Fields that were linked -/

namespace Loaded

variable {l : Loaded}

theorem linkField_ordinal {scope : ScopeId} {f : Field} {f' : LinkedField}
    (h : l.linkField scope f = .ok f') : f'.ordinal = f.ordinal.value := by
  obtain ⟨t, -, h⟩ := bind_eq_ok.1 h
  obtain ⟨v, -, h⟩ := bind_eq_ok.1 h
  obtain ⟨as, -, h⟩ := bind_eq_ok.1 h
  obtain rfl := Except.ok.inj h
  rfl

mutual

/-- The fields that a member adds to a struct use ordinals that the member does. -/
theorem fields_linkMember : ∀ (m : PlacedMember) {m' : LinkedMember} {scope : ScopeId},
    l.linkMember scope m = .ok m' →
      (m'.fields.map LinkedField.ordinal).Sublist (m.tree.ordinals.map Ordinal.value)
  | .field f, _, _, h => by
    obtain ⟨f', hf, rfl⟩ := map_eq_ok.1 h
    show [f'.ordinal].Sublist [f.ordinal.value]
    rw [linkField_ordinal hf]
  | .union _ _ _ ordinal ms, _, _, h => by
    rw [linkMember] at h
    obtain ⟨head', -, h⟩ := bind_eq_ok.1 h
    obtain ⟨ms', hms, h⟩ := bind_eq_ok.1 h
    obtain rfl := Except.ok.inj h
    have hordinals := List.sublist_append_right (ordinal.toList.map Ordinal.value)
      ((memberOrdinals (memberTrees ms)).map Ordinal.value)
    rw [← List.map_append] at hordinals
    exact (fields_linkMembers ms hms).trans hordinals
  | .anonymousUnion _ _ _ ms, _, _, h => by
    rw [linkMember] at h
    obtain ⟨as, -, h⟩ := bind_eq_ok.1 h
    obtain ⟨ms', hms, h⟩ := bind_eq_ok.1 h
    obtain rfl := Except.ok.inj h
    exact fields_linkMembers ms hms
  | .group _ _ _ ms, _, _, h => by
    rw [linkMember] at h
    obtain ⟨head', -, h⟩ := bind_eq_ok.1 h
    obtain ⟨ms', hms, h⟩ := bind_eq_ok.1 h
    obtain rfl := Except.ok.inj h
    exact fields_linkMembers ms hms
  | .decl d, _, _, h => by
    rw [linkMember] at h
    obtain ⟨d', -, rfl⟩ := map_eq_ok.1 h
    exact .slnil

theorem fields_linkMembers : ∀ (ms : List PlacedMember) {ms' : List LinkedMember} {scope : ScopeId},
    l.linkMembers scope ms = .ok ms' →
      ((linkedFields ms').map LinkedField.ordinal).Sublist
        ((memberOrdinals (memberTrees ms)).map Ordinal.value)
  | [], _, _, h => by
    obtain rfl := Except.ok.inj h
    exact .slnil
  | m :: ms, _, _, h => by
    rw [linkMembers] at h
    obtain ⟨m', hm, h⟩ := bind_eq_ok.1 h
    obtain ⟨ms', hms, h⟩ := bind_eq_ok.1 h
    obtain rfl := Except.ok.inj h
    rw [linkedFields, memberTrees, memberOrdinals, List.map_append, List.map_append]
    exact (fields_linkMember m hm).append (fields_linkMembers ms hms)

end

/-- The fields of a body use ordinals of one of the numbering spaces. -/
def FieldsIn (spaces : List (List Ordinal)) (body : List LinkedMember) : Prop :=
  ∃ space ∈ spaces, ((linkedFields body).map LinkedField.ordinal).Sublist (space.map Ordinal.value)

theorem FieldsIn.mono {spaces spaces' : List (List Ordinal)} {body : List LinkedMember}
    (h : FieldsIn spaces body) (hsub : spaces ⊆ spaces') : FieldsIn spaces' body := by
  obtain ⟨space, hspace, hfields⟩ := h
  exact ⟨space, hsub hspace, hfields⟩

mutual

/-- The fields of a struct use the ordinals of its numbering space. -/
theorem fields_linkDecl : ∀ (d : PlacedDecl) {d' : LinkedDecl} {scope : ScopeId},
    l.linkDecl scope d = .ok d' → ∀ (id : DeclId), ∀ body ∈ d'.structBody? id,
      FieldsIn d.tree.spaceOrdinals body
  | .const _ _, _, _, h, _, _, hbody | .annotationDecl _ _, _, _, h, _, _, hbody
  | .enum _ _, _, _, h, _, _, hbody => by
    obtain ⟨d', -, rfl⟩ := map_eq_ok.1 h
    cases hbody
  | .pathAlias a, _, _, h, _, _, hbody => by
    obtain ⟨name, target, rfl⟩ := linkAlias_ok h
    cases hbody
  | .importAlias a, _, _, h, _, _, hbody => by
    obtain ⟨name, module, target, rfl⟩ := linkImportAlias_ok h
    cases hbody
  | .struct _ _ _ ms, _, _, h, id, body, hbody => by
    rw [linkDecl] at h
    obtain ⟨head', -, h⟩ := bind_eq_ok.1 h
    obtain ⟨ms', hms, h⟩ := bind_eq_ok.1 h
    obtain rfl := Except.ok.inj h
    rw [LinkedDecl.structBody?] at hbody
    split at hbody
    · obtain rfl := Option.some.inj hbody
      exact ⟨_, List.mem_cons_self, fields_linkMembers ms hms⟩
    · exact (bodies_linkMembers ms hms id body hbody).mono (List.subset_cons_self _ _)
  | .interface _ _ _ _ ms, _, _, h, id, body, hbody => by
    rw [linkDecl] at h
    obtain ⟨bases', -, h⟩ := bind_eq_ok.1 h
    obtain ⟨head', -, h⟩ := bind_eq_ok.1 h
    obtain ⟨⟨methods, nested⟩, hms, h⟩ := bind_eq_ok.1 h
    obtain ⟨effective, -, h⟩ := bind_eq_ok.1 h
    obtain rfl := Except.ok.inj h
    exact (bodies_linkInterfaceMembers ms hms id body hbody).mono (List.subset_cons_self _ _)

theorem bodies_linkMember : ∀ (m : PlacedMember) {m' : LinkedMember} {scope : ScopeId},
    l.linkMember scope m = .ok m' → ∀ (id : DeclId), ∀ body ∈ m'.structBody? id,
      FieldsIn m.tree.spaceOrdinals body
  | .field f, _, _, h, _, _, hbody => by
    obtain ⟨f', -, rfl⟩ := map_eq_ok.1 h
    cases hbody
  | .union _ _ _ _ ms, _, _, h, id, body, hbody => by
    rw [linkMember] at h
    obtain ⟨head', -, h⟩ := bind_eq_ok.1 h
    obtain ⟨ms', hms, h⟩ := bind_eq_ok.1 h
    obtain rfl := Except.ok.inj h
    exact bodies_linkMembers ms hms id body hbody
  | .anonymousUnion _ _ _ ms, _, _, h, id, body, hbody => by
    rw [linkMember] at h
    obtain ⟨as, -, h⟩ := bind_eq_ok.1 h
    obtain ⟨ms', hms, h⟩ := bind_eq_ok.1 h
    obtain rfl := Except.ok.inj h
    exact bodies_linkMembers ms hms id body hbody
  | .group _ _ _ ms, _, _, h, id, body, hbody => by
    rw [linkMember] at h
    obtain ⟨head', -, h⟩ := bind_eq_ok.1 h
    obtain ⟨ms', hms, h⟩ := bind_eq_ok.1 h
    obtain rfl := Except.ok.inj h
    exact bodies_linkMembers ms hms id body hbody
  | .decl d, _, _, h, id, body, hbody => by
    rw [linkMember] at h
    obtain ⟨d', hd, rfl⟩ := map_eq_ok.1 h
    exact fields_linkDecl d hd id body hbody

theorem bodies_linkMembers : ∀ (ms : List PlacedMember) {ms' : List LinkedMember} {scope : ScopeId},
    l.linkMembers scope ms = .ok ms' → ∀ (id : DeclId), ∀ body ∈ structBodyIn? id ms',
      FieldsIn (memberSpaceOrdinals (memberTrees ms)) body
  | [], _, _, h, _, _, hbody => by
    obtain rfl := Except.ok.inj h
    cases hbody
  | m :: ms, _, _, h, id, body, hbody => by
    rw [linkMembers] at h
    obtain ⟨m', hm, h⟩ := bind_eq_ok.1 h
    obtain ⟨ms', hms, h⟩ := bind_eq_ok.1 h
    obtain rfl := Except.ok.inj h
    rcases Option.or_eq_some_iff.1 hbody with hbody | ⟨-, hbody⟩
    · exact (bodies_linkMember m hm id body hbody).mono (List.subset_append_left _ _)
    · exact (bodies_linkMembers ms hms id body hbody).mono (List.subset_append_right _ _)

theorem bodies_linkInterfaceMembers : ∀ (ms : List PlacedInterfaceMember)
    {items : List LinkedMethod × List LinkedDecl} {scope : ScopeId},
    l.linkInterfaceMembers scope ms = .ok items →
      ∀ (id : DeclId), ∀ body ∈ structBodyAmong? id items.2,
        FieldsIn (interfaceMemberSpaceOrdinals (interfaceMemberTrees ms)) body
  | [], _, _, h, _, _, hbody => by
    obtain rfl := Except.ok.inj h
    cases hbody
  | .method m :: ms, _, _, h, id, body, hbody => by
    rw [linkInterfaceMembers, linkInterfaceMember] at h
    obtain ⟨item, hm, h⟩ := bind_eq_ok.1 h
    obtain ⟨items, hms, h⟩ := bind_eq_ok.1 h
    obtain ⟨m', -, rfl⟩ := map_eq_ok.1 hm
    obtain rfl := Except.ok.inj h
    exact bodies_linkInterfaceMembers ms hms id body hbody
  | .decl d :: ms, _, _, h, id, body, hbody => by
    rw [linkInterfaceMembers, linkInterfaceMember] at h
    obtain ⟨item, hd, h⟩ := bind_eq_ok.1 h
    obtain ⟨items, hms, h⟩ := bind_eq_ok.1 h
    obtain ⟨d', hd', rfl⟩ := map_eq_ok.1 hd
    obtain rfl := Except.ok.inj h
    rcases Option.or_eq_some_iff.1 hbody with hbody | ⟨-, hbody⟩
    · exact (fields_linkDecl d hd' id body hbody).mono (List.subset_append_left _ _)
    · exact (bodies_linkInterfaceMembers ms hms id body hbody).mono (List.subset_append_right _ _)

end

theorem bodies_linkDecls {scope : ScopeId} {ds : List PlacedDecl} {ds' : List LinkedDecl}
    (h : ds.mapM (l.linkDecl scope) = .ok ds') {id : DeclId} {body : List LinkedMember}
    (hbody : structBodyAmong? id ds' = some body) :
    FieldsIn ((ds.map PlacedDecl.tree).flatMap Decl.spaceOrdinals) body := by
  induction ds generalizing ds' with
  | nil =>
    obtain rfl := Except.ok.inj h
    cases hbody
  | cons d ds ih =>
    rw [List.mapM_cons] at h
    obtain ⟨d', hd, h⟩ := bind_eq_ok.1 h
    obtain ⟨ds', hds, h⟩ := bind_eq_ok.1 h
    obtain rfl := Except.ok.inj h
    rcases Option.or_eq_some_iff.1 hbody with hbody | ⟨-, hbody⟩
    · exact (fields_linkDecl d hd id body hbody).mono (List.subset_append_left _ _)
    · exact (ih hds hbody).mono (List.subset_append_right _ _)

/-- The fields of a struct in a linked module use the ordinals of one of the module's spaces. -/
theorem bodies_linkModule {x : LoadedModule} {x' : LinkedModule} (h : l.linkModule x = .ok x')
    {id : DeclId} {body : List LinkedMember} (hbody : structBodyAmong? id x'.decls = some body) :
    FieldsIn ((x.decls.map PlacedDecl.tree).flatMap Decl.spaceOrdinals) body := by
  obtain ⟨as, -, h⟩ := bind_eq_ok.1 h
  obtain ⟨ds', hds, h⟩ := bind_eq_ok.1 h
  obtain rfl := Except.ok.inj h
  exact bodies_linkDecls hds hbody

end Loaded

/-! ## Modules that were loaded -/

/-- In a module that was loaded no name or ordinal comes again. -/
theorem LoadsRoot.distinct {read : Option (String → Option String)} {root : Module} {s : LoadState}
    (h : LoadsRoot read root (.ok ()) s) :
    ∀ x ∈ s.loaded.modules.toList, ∃ m : Module, x.Holds x.path m ∧ m.Distinct := by
  obtain ⟨more, hentered, -⟩ := h.modules
  intro x hx
  obtain ⟨p, hp, hholds⟩ := (paired_of_forall₂ hentered.holds).exists_left hx
  obtain ⟨l₀, l₁, henter⟩ := hentered.exists_enter p hp
  rw [hholds.path]
  exact ⟨p.2, hholds, exists_enter_iff_distinct.1 ⟨l₁, henter⟩⟩

/-- The fields of a struct that comes of resolving have different ordinals. -/
theorem nodup_ordinals_of_resolve {source : Option ImportSource} {root : Module} {schema : Schema}
    (h : (resolve source root).result = .ok schema) {id : DeclId} {fields : List LinkedField}
    (hfields : schema.fields? id = some fields) : (fields.map LinkedField.ordinal).Nodup := by
  obtain ⟨s, hload, hlink⟩ := resolve_ok h
  obtain ⟨body, hbody, rfl⟩ := Option.map_eq_some_iff.1 hfields
  obtain ⟨x', hx', hbody⟩ := List.exists_of_findSome?_eq_some hbody
  have hmodules : Paired (fun x x' => s.loaded.linkModule x = .ok x') s.loaded.modules.toList
      schema.modules :=
    paired_of_forall₂ (forall₂_of_mapM (Loaded.link_ok hlink).1 fun _ _ _ hx => hx)
  obtain ⟨x, hx, hmodule⟩ := hmodules.exists_left hx'
  obtain ⟨m, hholds, hdistinct⟩ := hload.distinct x hx
  obtain ⟨space, hspace, hsub⟩ := Loaded.bodies_linkModule hmodule hbody
  rw [hholds.decls] at hspace
  exact (hdistinct.ordinals space hspace).sublist hsub

/-! ## Entering and resolving -/

/-- A module is entered, whatever is loaded already, exactly if no name is bound twice in one of its
scopes and no ordinal is used twice in one of its numbering spaces.  If it is not entered, the error
points at the second use of such a name or ordinal, and at the first.  In a schema that comes of
resolving, the fields of every struct have different ordinals. -/
theorem Loaded.enter_distinct (l : Loaded) (path : String) (m : Module) :
    ((∃ l', l.enter path m = .ok l') ↔ m.Distinct) ∧
      (∀ e, l.enter path m = .error e → m.Reports path e) ∧
      ∀ source schema, (resolve source m).result = .ok schema → ∀ id fields,
        schema.fields? id = some fields → (fields.map LinkedField.ordinal).Nodup :=
  ⟨exists_enter_iff_distinct, fun _ => reports_of_enter, fun _ _ h _ _ hfields =>
    nodup_ordinals_of_resolve h hfields⟩

/-- A struct with another one and a union in it, whose last field has the given ordinal. -/
def unionText (ordinal : String) : String :=
  "@0x1; struct S \x7b a @0 :Int8; struct T \x7b b @0 :Int8; \x7d union \x7b c @1 :Int8; d @" ++
    ordinal ++ " :Int8; \x7d \x7d"

/-- A field of a union may not use an ordinal of the struct around the union again, but one of a
struct that is nested may. -/
theorem enter_distinct_union :
    (∃ m, Module.parse (unionText "0") = .ok m ∧ ¬m.Distinct ∧
      m.Reports "::global" (.linking ⟨"::global", ⟨76, 78⟩, .duplicateOrdinal 0 ⟨19, 21⟩⟩)) ∧
    ∃ m schema fields, Module.parse (unionText "2") = .ok m ∧ m.Distinct ∧
      (resolve none m).result = .ok schema ∧ schema.fields? 0 = some fields ∧
      fields.map LinkedField.ordinal = [0, 1, 2] ∧ (fields.map LinkedField.ordinal).Nodup := by
  have herror : ((Module.parse (unionText "0")).toOption.bind fun m =>
      failure? (Loaded.empty.enter "::global" m)) =
      some (.linking ⟨"::global", ⟨76, 78⟩, .duplicateOrdinal 0 ⟨19, 21⟩⟩) := by
    decide +kernel
  have hfields : ((Module.parse (unionText "2")).toOption.bind fun m =>
      (resolve none m).result.toOption.bind fun schema =>
        (schema.fields? 0).map (List.map LinkedField.ordinal)) = some [0, 1, 2] := by
    decide +kernel
  constructor
  · obtain ⟨m, hm, herror⟩ := Option.bind_eq_some_iff.1 herror
    have henter := error_of_failure? herror
    obtain ⟨hentered, hreports, -⟩ := Loaded.enter_distinct .empty "::global" m
    refine ⟨m, ok_of_toOption hm, fun hdistinct => ?_, hreports _ henter⟩
    obtain ⟨l, hl⟩ := hentered.2 hdistinct
    cases henter.symm.trans hl
  · obtain ⟨m, hm, hfields⟩ := Option.bind_eq_some_iff.1 hfields
    obtain ⟨schema, hschema, hfields⟩ := Option.bind_eq_some_iff.1 hfields
    obtain ⟨fields, hbody, hordinals⟩ := Option.map_eq_some_iff.1 hfields
    have hresult := ok_of_toOption hschema
    obtain ⟨hentered, -, hresolve⟩ := Loaded.enter_distinct .empty Load.rootPath m
    obtain ⟨s, hload, -⟩ := resolve_ok hresult
    have henter : ∃ l, Loaded.empty.enter Load.rootPath m = .ok l := by
      cases hload with
      | entered entered _ => exact ⟨_, entered⟩
    exact ⟨m, schema, fields, ok_of_toOption hm, hentered.1 henter, hresult, hbody, hordinals,
      hresolve none schema hresult 0 fields hbody⟩

end SchemaLang
