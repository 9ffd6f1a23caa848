import SchemaLang.Proofs.Linking.Values

/-!
# Linked declarations

Every id in a linked declaration respects the places, and linking does not fail on an import if
every import in the declaration leads to a module: `yields_linkDecl` and `yields_linkModule`.
-/

namespace SchemaLang.Loaded

variable {l : Loaded} {p : Places}

/-! ## Annotations -/

theorem yields_argumentValue (hl : l.Linkable) (hp : l.Covers p) (scope home : ScopeId)
    {t : TypeRef} (ht : ∀ i ∈ t.imports, i.path ∈ l.paths) (value : Option Literal) :
    Yields (l.argumentValue scope home t value) fun o => ∀ v ∈ o, v.Respects p := by
  cases value with
  | none => exact yields_ok nofun
  | some literal =>
    refine (yields_resolveType hl hp home t ht).bind fun t _ => ?_
    refine (yields_eval hl hp scope literal t).map fun v hv => ?_
    exact fun v' hv' => Option.some.inj hv' ▸ hv

theorem yields_linkApplication (hl : l.Linkable) (hp : l.Covers p) (scope : ScopeId)
    (target : Target) (a : Application) :
    Yields (l.linkApplication scope target a) fun a => a.Respects p target := by
  refine (yields_resolvePath hl hp scope a.name).bind fun b _ => ?_
  cases b with
  | decl id =>
    dsimp only
    split
    · next module parent home name targets type he =>
      have hcontents := hl.contents _ (Array.mem_of_getElem? he)
      have hcontent : l.content? id = some (.annotationDecl targets type) := by
        rw [content?, he]
        rfl
      split
      · next happlies =>
        refine (yields_argumentValue hl hp scope home hcontents a.value).bind fun v hv => ?_
        exact yields_ok ⟨hp.annotation id targets type target hcontent happlies, hv⟩
      · exact yields_fail _ _ _ _
    · exact yields_fail _ _ _ _
  | unresolved =>
    refine yields_ok ⟨trivial, fun v hv => ?_⟩
    obtain ⟨literal, -, rfl⟩ := Option.map_eq_some_iff.1 hv
    trivial
  | module id => exact yields_fail _ _ _ _
  | builtin b => exact yields_fail _ _ _ _

theorem yields_linkApplications (hl : l.Linkable) (hp : l.Covers p) (scope : ScopeId)
    (target : Target) (as : List Application) :
    Yields (l.linkApplications scope target as) fun as => ∀ a ∈ as, a.Respects p target :=
  yields_mapM fun a _ => yields_linkApplication hl hp scope target a

/-! ## Parts of declarations -/

section Parts

variable (hl : l.Linkable) (hp : l.Covers p) (scope : ScopeId)
include hl hp

theorem yields_defaultValue (t : SchemaType) (default : Option Literal) :
    Yields (l.defaultValue scope t default) fun o => ∀ v ∈ o, v.Respects p := by
  cases default with
  | none => exact yields_ok nofun
  | some literal =>
    exact (yields_eval hl hp scope literal t).map fun v hv v' hv' => Option.some.inj hv' ▸ hv

theorem yields_linkField (f : Field) (hf : ∀ i ∈ f.type.imports, i.path ∈ l.paths) :
    Yields (l.linkField scope f) fun f => f.Respects p := by
  refine (yields_resolveType hl hp scope f.type hf).bind fun t ht => ?_
  refine (yields_defaultValue hl hp scope t f.default).bind fun v hv => ?_
  exact (yields_linkApplications hl hp scope .field f.annotations).bind fun as has =>
    yields_ok ⟨ht, hv, has⟩

theorem yields_linkParam (x : Param) (hx : ∀ i ∈ x.type.imports, i.path ∈ l.paths) :
    Yields (l.linkParam scope x) fun x => x.Respects p := by
  refine (yields_resolveType hl hp scope x.type hx).bind fun t ht => ?_
  refine (yields_defaultValue hl hp scope t x.default).bind fun v hv => ?_
  exact (yields_linkApplications hl hp scope .param x.annotations).bind fun as has =>
    yields_ok ⟨ht, hv, has⟩

theorem yields_linkResults (xs : Option (List Param))
    (hxs : ∀ x ∈ xs.getD [], ∀ i ∈ x.type.imports, i.path ∈ l.paths) :
    Yields (l.linkResults scope xs) fun xs => ∀ ys ∈ xs, ∀ x ∈ ys, x.Respects p := by
  cases xs with
  | none => exact yields_ok nofun
  | some xs =>
    refine (yields_mapM fun x hx => yields_linkParam hl hp scope x (hxs x hx)).map fun ys hys => ?_
    exact fun zs hzs => Option.some.inj hzs ▸ hys

theorem yields_linkMethod (m : Method) (hm : ∀ i ∈ m.imports, i.path ∈ l.paths) :
    Yields (l.linkMethod scope m) fun m => m.Respects p := by
  have hparams : ∀ x ∈ m.params ++ m.results.getD [], ∀ i ∈ x.type.imports, i.path ∈ l.paths :=
    fun x hx i hi => hm i (List.mem_flatMap.2 ⟨x, hx, hi⟩)
  obtain ⟨hparams, hresults⟩ := List.forall_mem_append.1 hparams
  refine (yields_linkResults hl hp scope m.results hresults).bind fun rs hrs => ?_
  refine (yields_mapM fun x hx => yields_linkParam hl hp scope x (hparams x hx)).bind
    fun xs hxs => ?_
  exact (yields_linkApplications hl hp scope .method m.annotations).bind fun as has =>
    yields_ok ⟨hxs, hrs, has⟩

theorem yields_linkEnumerant (e : Enumerant) :
    Yields (l.linkEnumerant scope e) fun e => ∀ a ∈ e.annotations, a.Respects p .enumerant :=
  (yields_linkApplications hl hp scope .enumerant e.annotations).bind fun _ has => yields_ok has

theorem yields_linkConst (id : DeclId) (d : Const) (hd : ∀ i ∈ d.type.imports, i.path ∈ l.paths) :
    Yields (l.linkConst scope id d) fun d => d.Respects p := by
  refine (yields_resolveType hl hp scope d.type hd).bind fun t ht => ?_
  refine (yields_eval hl hp scope d.value t).bind fun v hv => ?_
  exact (yields_linkApplications hl hp scope .const d.annotations).bind fun as has =>
    yields_ok ⟨ht, hv, has⟩

theorem yields_linkEnum (id : DeclId) (d : Enum) :
    Yields (l.linkEnum scope id d) fun d => d.Respects p := by
  refine (yields_mapM fun e _ => yields_linkEnumerant hl hp scope e).bind fun es hes => ?_
  exact (yields_linkApplications hl hp scope .enum d.annotations).bind fun as has =>
    yields_ok ⟨has, hes⟩

theorem yields_linkAnnotationDecl (id : DeclId) (d : AnnotationDecl)
    (hd : ∀ i ∈ d.type.imports, i.path ∈ l.paths) :
    Yields (l.linkAnnotationDecl scope id d) fun d => d.Respects p := by
  refine (yields_resolveType hl hp scope d.type hd).bind fun t ht => ?_
  exact (yields_linkApplications hl hp scope .annotationDecl d.annotations).bind fun as has =>
    yields_ok ⟨ht, has⟩

theorem yields_linkAlias (a : Alias) :
    Yields (l.linkAlias scope a) fun d => d.Respects p :=
  (yields_resolveTarget (t := .path a.target) hl hp scope _ nofun).bind fun _ hb =>
    yields_ok (Binding.respects_reference hb a.target)

theorem yields_linkImportAlias (a : ImportAlias) (ha : a.source.path ∈ l.paths) :
    Yields (l.linkImportAlias scope a) fun d => d.Respects p := by
  refine (yields_importedModule hp scope ha).bind fun module hmodule => ?_
  have htarget : ∀ b : Binding, b.Respects p →
      Yields (.ok (.importAlias (a.binding.map Ident.name) module (b.reference ⟨a.span, a.path⟩)))
        fun d : LinkedDecl => d.Respects p :=
    fun b hb => yields_ok ⟨hmodule, Binding.respects_reference hb _⟩
  cases hbinding : a.binding with
  | none =>
    rw [hbinding] at htarget
    exact (yields_resolveImported hl hp scope ha a.path).bind htarget
  | some i =>
    rw [hbinding] at htarget
    refine (yields_resolveTarget hl hp scope i.name fun source path e => ?_).bind htarget
    obtain ⟨rfl, -⟩ := AliasTarget.imported.inj e
    exact ha

theorem yields_linkHead (target : Target) (id : DeclId) (head : Head) :
    Yields (l.linkHead scope target id head) fun head => head.Respects p target :=
  (yields_linkApplications hl hp scope target head.annotations).bind fun _ has => yields_ok has

end Parts

/-! ## Declarations and members -/

mutual

theorem yields_linkDecl (hl : l.Linkable) (hp : l.Covers p) : ∀ (d : PlacedDecl) (scope : ScopeId),
    (∀ i ∈ d.tree.imports, i.path ∈ l.paths) →
      Yields (l.linkDecl scope d) fun d => d.Respects p
  | .const id d, scope, hd => (yields_linkConst hl hp scope id d hd).map fun _ h => h
  | .struct id body head ms, scope, hd => by
    rw [linkDecl]
    refine (yields_linkHead hl hp scope .struct id head).bind fun head hhead => ?_
    exact (yields_linkMembers hl hp ms body hd).bind fun ms hms => yields_ok ⟨hhead, hms⟩
  | .enum id d, scope, _ => (yields_linkEnum hl hp scope id d).map fun _ h => h
  | .interface id body head bases ms, scope, hd => by
    obtain ⟨-, hms⟩ := List.forall_mem_append.1 hd
    rw [linkDecl]
    refine (yields_basesOf hl hp id).bind fun bases hbases => ?_
    refine (yields_linkHead hl hp scope .interface id head).bind fun head hhead => ?_
    refine (yields_linkInterfaceMembers hl hp ms body hms).bind fun items hitems => ?_
    exact (yields_effectiveMethods hl hp id).bind fun methods hmethods =>
      yields_ok ⟨hhead, hbases, hitems.1, hitems.2, hmethods⟩
  | .annotationDecl id d, scope, hd =>
    (yields_linkAnnotationDecl hl hp scope id d hd).map fun _ h => h
  | .pathAlias a, scope, _ => yields_linkAlias hl hp scope a
  | .importAlias a, scope, hd =>
    yields_linkImportAlias hl hp scope a (hd a.source (List.mem_singleton_self _))

theorem yields_linkMember (hl : l.Linkable) (hp : l.Covers p) :
    ∀ (m : PlacedMember) (scope : ScopeId), (∀ i ∈ m.tree.imports, i.path ∈ l.paths) →
      Yields (l.linkMember scope m) fun m => m.Respects p
  | .field f, scope, hm => (yields_linkField hl hp scope f hm).map fun _ h => h
  | .union id body head ordinal ms, scope, hm => by
    rw [linkMember]
    refine (yields_linkHead hl hp scope .union id head).bind fun head hhead => ?_
    exact (yields_linkMembers hl hp ms body hm).bind fun ms hms => yields_ok ⟨hhead, hms⟩
  | .anonymousUnion body span annotations ms, scope, hm => by
    rw [linkMember]
    refine (yields_linkApplications hl hp scope .union annotations).bind fun as has => ?_
    exact (yields_linkMembers hl hp ms body hm).bind fun ms hms => yields_ok ⟨has, hms⟩
  | .group id body head ms, scope, hm => by
    rw [linkMember]
    refine (yields_linkHead hl hp scope .group id head).bind fun head hhead => ?_
    exact (yields_linkMembers hl hp ms body hm).bind fun ms hms => yields_ok ⟨hhead, hms⟩
  | .decl d, scope, hm => by
    rw [linkMember]
    exact (yields_linkDecl hl hp d scope hm).map fun _ h => h

theorem yields_linkMembers (hl : l.Linkable) (hp : l.Covers p) :
    ∀ (ms : List PlacedMember) (scope : ScopeId),
      (∀ i ∈ memberImports (memberTrees ms), i.path ∈ l.paths) →
        Yields (l.linkMembers scope ms) (membersRespect p)
  | [], _, _ => yields_ok trivial
  | m :: ms, scope, h => by
    obtain ⟨hm, hms⟩ := List.forall_mem_append.1 h
    rw [linkMembers]
    exact (yields_linkMember hl hp m scope hm).bind fun m hm =>
      (yields_linkMembers hl hp ms scope hms).bind fun ms hms => yields_ok ⟨hm, hms⟩

theorem yields_linkInterfaceMember (hl : l.Linkable) (hp : l.Covers p) :
    ∀ (m : PlacedInterfaceMember) (scope : ScopeId), (∀ i ∈ m.tree.imports, i.path ∈ l.paths) →
      Yields (l.linkInterfaceMember scope m)
        fun item => (∀ m ∈ item.getLeft?, m.Respects p) ∧ ∀ d ∈ item.getRight?, d.Respects p
  | .method m, scope, hm => by
    rw [linkInterfaceMember]
    refine (yields_linkMethod hl hp scope m hm).map fun m h => ⟨?_, nofun⟩
    exact fun m' hm' => Option.some.inj hm' ▸ h
  | .decl d, scope, hm => by
    rw [linkInterfaceMember]
    refine (yields_linkDecl hl hp d scope hm).map fun d h => ⟨nofun, ?_⟩
    exact fun d' hd' => Option.some.inj hd' ▸ h

theorem yields_linkInterfaceMembers (hl : l.Linkable) (hp : l.Covers p) :
    ∀ (ms : List PlacedInterfaceMember) (scope : ScopeId),
      (∀ i ∈ interfaceMemberImports (interfaceMemberTrees ms), i.path ∈ l.paths) →
        Yields (l.linkInterfaceMembers scope ms)
          fun items => (∀ m ∈ items.1, m.Respects p) ∧ declsRespect p items.2
  | [], _, _ => yields_ok ⟨nofun, trivial⟩
  | m :: ms, scope, h => by
    obtain ⟨hm, hms⟩ := List.forall_mem_append.1 h
    rw [linkInterfaceMembers]
    refine (yields_linkInterfaceMember hl hp m scope hm).bind fun item hitem => ?_
    refine (yields_linkInterfaceMembers hl hp ms scope hms).bind fun items hitems => ?_
    cases item with
    | inl method => exact yields_ok ⟨List.forall_mem_cons.2 ⟨hitem.1 _ rfl, hitems.1⟩, hitems.2⟩
    | inr d => exact yields_ok ⟨hitems.1, hitem.2 _ rfl, hitems.2⟩

end

/-! ## Modules -/

theorem yields_linkModule (hl : l.Linkable) (hp : l.Covers p) {m : LoadedModule}
    (hm : m ∈ l.modules) : Yields (l.linkModule m) fun m => m.Respects p := by
  refine (yields_linkApplications hl hp m.scope .file m.annotations).bind fun as has => ?_
  refine (yields_mapM fun d hd => yields_linkDecl hl hp d m.scope (hl.decls m hm d hd)).bind ?_
  exact fun ds hds => yields_ok ⟨has, hds⟩

/-- Linking yields modules that respect the places. -/
theorem yields_link (hl : l.Linkable) (hp : l.Covers p) :
    Yields l.link fun s => ∀ m ∈ s.modules, m.Respects p :=
  (yields_mapM fun _ hm => yields_linkModule hl hp (Array.mem_toList_iff.1 hm)).bind
    fun _ hms => yields_ok hms

end SchemaLang.Loaded
