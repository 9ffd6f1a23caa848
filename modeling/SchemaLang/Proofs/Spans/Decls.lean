import SchemaLang.Proofs.Spans.Values

/-!
# Where declarations point

A declaration, its members and their annotations are linked in scopes of the module that they stand
in.  The errors of linking point into the module of what they are about, which need not be the one
that is being linked, and every name that is left unresolved is a node of the linked module:
`locates_linkDecl`.
-/

namespace SchemaLang

theorem eq_of_reference {b : Binding} {p : Path} :
    ∀ q ∈ (b.reference p).unresolvedPaths, q = p := by
  cases b with
  | unresolved => exact List.forall_mem_singleton.2 rfl
  | _ => exact nofun

namespace Loaded

variable {l : Loaded} {sites : String → Span → Prop}

/-! ## Annotations -/

section Annotations

variable (hl : l.Located sites) {scope : ScopeId}
include hl

/-- The type of an annotation is blamed where the annotation is declared. -/
theorem locates_argumentValue {home : ScopeId} {type : TypeRef} {value : Option Literal}
    (htype : ∀ span ∈ type.spans, sites (l.pathOf home) span)
    (hvalue : ∀ span ∈ value.toList.flatMap Literal.spans, sites (l.pathOf scope) span) :
    Locates sites (l.argumentValue scope home type value) fun o =>
      ∀ q ∈ unresolvedInValue? o, sites (l.pathOf scope) q.span := by
  cases value with
  | none => exact locates_ok nofun
  | some literal =>
    refine (locates_resolveType hl htype).bind fun t _ => ?_
    refine (locates_eval hl literal t fun span h => hvalue span ?_).map fun v hv => hv
    exact List.mem_flatMap.2 ⟨literal, List.mem_cons_self, h⟩

theorem locates_linkApplication (target : Target) {a : Application}
    (ha : ∀ span ∈ a.spans, sites (l.pathOf scope) span) :
    Locates sites (l.linkApplication scope target a) fun a =>
      ∀ q ∈ a.target.unresolvedPaths ++ unresolvedInValue? a.value,
        sites (l.pathOf scope) q.span := by
  obtain ⟨hspan, hparts⟩ := List.forall_mem_cons.1 ha
  obtain ⟨hname, hvalue⟩ := List.forall_mem_append.1 hparts
  have hnameSpan := hname a.name.span List.mem_cons_self
  refine (locates_resolvePath hl scope hname).bind fun b _ => ?_
  cases b with
  | decl id =>
    dsimp only
    split
    · next module parent home name targets type he =>
      split
      · have htype := hl.types _ (Array.mem_of_getElem? he) (home, type) List.mem_cons_self
        exact (locates_argumentValue hl htype hvalue).bind fun v hv => locates_ok hv
      · exact locates_fail hspan rfl
    · exact locates_fail hnameSpan rfl
  | unresolved =>
    refine locates_ok (List.forall_mem_cons.2 ⟨hnameSpan, ?_⟩)
    cases a.value <;> exact nofun
  | module id => exact locates_fail hnameSpan rfl
  | builtin b => exact locates_fail hnameSpan rfl

theorem locates_linkApplications (target : Target) {as : List Application}
    (has : ∀ span ∈ as.flatMap Application.spans, sites (l.pathOf scope) span) :
    Locates sites (l.linkApplications scope target as) fun as =>
      ∀ q ∈ unresolvedInApplications as, sites (l.pathOf scope) q.span := by
  have hmapM := locates_mapM fun a ha =>
    locates_linkApplication hl target (List.forall_mem_flatMap.1 has a ha)
  exact hmapM.mono fun as' has' => List.forall_mem_flatMap.2 has'

end Annotations

/-! ## Parts of declarations -/

section Parts

variable (hl : l.Located sites) {scope : ScopeId}
include hl

theorem locates_defaultValue (t : SchemaType) {default : Option Literal}
    (h : ∀ span ∈ default.toList.flatMap Literal.spans, sites (l.pathOf scope) span) :
    Locates sites (l.defaultValue scope t default) fun o =>
      ∀ q ∈ unresolvedInValue? o, sites (l.pathOf scope) q.span := by
  cases default with
  | none => exact locates_ok nofun
  | some literal =>
    refine (locates_eval hl literal t fun span hspan => h span ?_).map fun v hv => hv
    exact List.mem_flatMap.2 ⟨literal, List.mem_cons_self, hspan⟩

theorem locates_linkField {f : Field} (hf : ∀ span ∈ f.spans, sites (l.pathOf scope) span) :
    Locates sites (l.linkField scope f) fun f =>
      ∀ q ∈ (LinkedMember.field f).unresolvedPaths, sites (l.pathOf scope) q.span := by
  simp only [Field.spans, List.forall_mem_cons, List.forall_mem_append] at hf
  obtain ⟨-, ⟨⟨⟨-, -⟩, htype⟩, hdefault⟩, has⟩ := hf
  refine (locates_resolveType hl htype).bind fun t ht => ?_
  refine (locates_defaultValue hl t hdefault).bind fun v hv => ?_
  refine (locates_linkApplications hl .field has).bind fun as has => locates_ok ?_
  exact List.forall_mem_append.2 ⟨List.forall_mem_append.2 ⟨ht, hv⟩, has⟩

theorem locates_linkParam {x : Param} (hx : ∀ span ∈ x.spans, sites (l.pathOf scope) span) :
    Locates sites (l.linkParam scope x) fun x =>
      ∀ q ∈ x.unresolvedPaths, sites (l.pathOf scope) q.span := by
  simp only [Param.spans, List.forall_mem_cons, List.forall_mem_append] at hx
  obtain ⟨-, ⟨⟨-, htype⟩, hdefault⟩, has⟩ := hx
  refine (locates_resolveType hl htype).bind fun t ht => ?_
  refine (locates_defaultValue hl t hdefault).bind fun v hv => ?_
  refine (locates_linkApplications hl .param has).bind fun as has => locates_ok ?_
  exact List.forall_mem_append.2 ⟨List.forall_mem_append.2 ⟨ht, hv⟩, has⟩

theorem locates_linkParams {xs : List Param}
    (hxs : ∀ span ∈ xs.flatMap Param.spans, sites (l.pathOf scope) span) :
    Locates sites (xs.mapM (l.linkParam scope)) fun xs =>
      ∀ q ∈ xs.flatMap LinkedParam.unresolvedPaths, sites (l.pathOf scope) q.span :=
  (locates_mapM fun x hx => locates_linkParam hl (List.forall_mem_flatMap.1 hxs x hx)).mono
    fun _ => List.forall_mem_flatMap.2

theorem locates_linkResults {xs : Option (List Param)}
    (hxs : ∀ span ∈ xs.toList.flatMap (List.flatMap Param.spans), sites (l.pathOf scope) span) :
    Locates sites (l.linkResults scope xs) fun xs =>
      ∀ q ∈ (xs.getD []).flatMap LinkedParam.unresolvedPaths, sites (l.pathOf scope) q.span := by
  cases xs with
  | none => exact locates_ok nofun
  | some xs =>
    have hsome := List.forall_mem_flatMap.1 hxs xs List.mem_cons_self
    exact (locates_linkParams hl hsome).map fun _ h => h

theorem locates_linkMethod {m : Method} (hm : ∀ span ∈ m.spans, sites (l.pathOf scope) span) :
    Locates sites (l.linkMethod scope m) fun m =>
      ∀ q ∈ m.unresolvedPaths, sites (l.pathOf scope) q.span := by
  simp only [Method.spans, List.forall_mem_cons, List.forall_mem_append] at hm
  obtain ⟨-, ⟨⟨⟨-, -⟩, hparams⟩, hresults⟩, has⟩ := hm
  refine (locates_linkResults hl hresults).bind fun rs hrs => ?_
  refine (locates_linkParams hl hparams).bind fun xs hxs => ?_
  refine (locates_linkApplications hl .method has).bind fun as has => locates_ok ?_
  refine List.forall_mem_append.2 ⟨has, ?_⟩
  rw [List.flatMap_append]
  exact List.forall_mem_append.2 ⟨hxs, hrs⟩

theorem locates_linkEnumerant {e : Enumerant}
    (he : ∀ span ∈ e.spans, sites (l.pathOf scope) span) :
    Locates sites (l.linkEnumerant scope e) fun e =>
      ∀ q ∈ unresolvedInApplications e.annotations, sites (l.pathOf scope) q.span := by
  have has := (List.forall_mem_append.1 (List.forall_mem_cons.1 he).2).2
  exact (locates_linkApplications hl .enumerant has).bind fun _ h => locates_ok h

theorem locates_linkConst (id : DeclId) {d : Const}
    (hd : ∀ span ∈ d.spans, sites (l.pathOf scope) span) :
    Locates sites (l.linkConst scope id d) fun d =>
      ∀ q ∈ (LinkedDecl.const d).unresolvedPaths, sites (l.pathOf scope) q.span := by
  simp only [Const.spans, List.forall_mem_cons, List.forall_mem_append] at hd
  obtain ⟨-, ⟨⟨-, htype⟩, hvalue⟩, has⟩ := hd
  refine (locates_resolveType hl htype).bind fun t ht => ?_
  refine (locates_eval hl d.value t hvalue).bind fun v hv => ?_
  refine (locates_linkApplications hl .const has).bind fun as has => locates_ok ?_
  exact List.forall_mem_append.2 ⟨List.forall_mem_append.2 ⟨ht, hv⟩, has⟩

theorem locates_linkEnum (id : DeclId) {d : Enum}
    (hd : ∀ span ∈ d.spans, sites (l.pathOf scope) span) :
    Locates sites (l.linkEnum scope id d) fun d =>
      ∀ q ∈ (LinkedDecl.enum d).unresolvedPaths, sites (l.pathOf scope) q.span := by
  simp only [Enum.spans, List.forall_mem_cons, List.forall_mem_append] at hd
  obtain ⟨-, ⟨-, has⟩, hes⟩ := hd
  have henumerants := locates_mapM fun e he =>
    locates_linkEnumerant hl (List.forall_mem_flatMap.1 hes e he)
  refine henumerants.bind fun es hes => ?_
  refine (locates_linkApplications hl .enum has).bind fun as has => locates_ok ?_
  exact List.forall_mem_append.2 ⟨has, List.forall_mem_flatMap.2 hes⟩

theorem locates_linkAnnotationDecl (id : DeclId) {d : AnnotationDecl}
    (hd : ∀ span ∈ d.spans, sites (l.pathOf scope) span) :
    Locates sites (l.linkAnnotationDecl scope id d) fun d =>
      ∀ q ∈ (LinkedDecl.annotationDecl d).unresolvedPaths, sites (l.pathOf scope) q.span := by
  simp only [AnnotationDecl.spans, List.forall_mem_cons, List.forall_mem_append] at hd
  obtain ⟨-, ⟨-, htype⟩, has⟩ := hd
  refine (locates_resolveType hl htype).bind fun t ht => ?_
  refine (locates_linkApplications hl .annotationDecl has).bind fun as has => locates_ok ?_
  exact List.forall_mem_append.2 ⟨ht, has⟩

theorem locates_linkAlias {a : Alias} (ha : ∀ span ∈ a.spans, sites (l.pathOf scope) span) :
    Locates sites (l.linkAlias scope a) fun d =>
      ∀ q ∈ d.unresolvedPaths, sites (l.pathOf scope) q.span := by
  have htarget : ∀ span ∈ a.target.spans, sites (l.pathOf scope) span :=
    (List.forall_mem_append.1 (List.forall_mem_cons.1 ha).2).2
  have hresolve := locates_resolveTarget hl scope ((a.binding.map Ident.name).getD a.target.text)
    (t := .path a.target) htarget
  refine hresolve.bind fun b _ => locates_ok fun q hq => ?_
  obtain rfl := eq_of_reference q hq
  exact htarget a.target.span List.mem_cons_self

theorem locates_linkImportAlias {a : ImportAlias}
    (ha : ∀ span ∈ a.spans, sites (l.pathOf scope) span) :
    Locates sites (l.linkImportAlias scope a) fun d =>
      ∀ q ∈ d.unresolvedPaths, sites (l.pathOf scope) q.span := by
  obtain ⟨hspan, hparts⟩ := List.forall_mem_cons.1 ha
  rw [List.append_assoc] at hparts
  have htarget := (List.forall_mem_append.1 hparts).2
  have hsource : sites (l.pathOf scope) a.source.span :=
    htarget _ (List.mem_append_left _ List.mem_cons_self)
  have hdone : ∀ (name : Option String) (module : ModuleId) (b : Binding),
      Locates sites (.ok (.importAlias name module (b.reference ⟨a.span, a.path⟩)))
        fun d : LinkedDecl => ∀ q ∈ d.unresolvedPaths, sites (l.pathOf scope) q.span := by
    refine fun name module b => locates_ok fun q hq => ?_
    obtain rfl := eq_of_reference q hq
    exact hspan
  refine (locates_importedModule scope hsource).bind fun module _ => ?_
  cases a.binding with
  | none => exact (locates_resolveImported hl scope htarget).bind fun b _ => hdone _ module b
  | some i =>
    have hresolve := locates_resolveTarget hl scope i.name
      (t := .imported a.source a.path) htarget
    exact hresolve.bind fun b _ => hdone _ module b

theorem locates_linkHead (target : Target) (id : DeclId) {head : Head}
    (h : ∀ span ∈ head.spans, sites (l.pathOf scope) span) :
    Locates sites (l.linkHead scope target id head) fun head =>
      ∀ q ∈ unresolvedInApplications head.annotations, sites (l.pathOf scope) q.span := by
  have has := (List.forall_mem_append.1 (List.forall_mem_cons.1 h).2).2
  exact (locates_linkApplications hl target has).bind fun _ h => locates_ok h

end Parts

/-! ## Declarations and members -/

/-- What stands in the module at `path`: its scopes belong to this module, its ids are those of
entries, and its spans are sites of the module. -/
structure StandsIn (l : Loaded) (sites : String → Span → Prop) (path : String)
    (scopes : List ScopeId) (ids : List DeclId) (spans : List Span) : Prop where
  scopes : ∀ s ∈ scopes, l.pathOf s = path
  ids : ∀ id ∈ ids, id < l.entries.size
  spans : ∀ span ∈ spans, sites path span

section Parts

variable {path : String} {scopes scopes' : List ScopeId} {ids ids' : List DeclId}
  {spans spans' : List Span}

theorem StandsIn.mono (h : l.StandsIn sites path scopes ids spans) (hscopes : scopes' ⊆ scopes)
    (hids : ids' ⊆ ids) (hspans : spans' ⊆ spans) :
    l.StandsIn sites path scopes' ids' spans' :=
  ⟨fun s hs => h.scopes s (hscopes hs), fun id hid => h.ids id (hids hid),
    fun span hspan => h.spans span (hspans hspan)⟩

theorem StandsIn.at_scope {scope : ScopeId}
    (h : l.StandsIn sites path (scope :: scopes) ids spans) :
    l.pathOf scope = path ∧ ∀ span ∈ spans, sites (l.pathOf scope) span := by
  have hscope := h.scopes scope List.mem_cons_self
  exact ⟨hscope, hscope ▸ h.spans⟩

end Parts

mutual

theorem locates_linkDecl (hl : l.Located sites) {path : String} :
    ∀ (d : PlacedDecl) (scope : ScopeId),
      l.StandsIn sites path (scope :: d.scopeIds) d.ids d.tree.spans →
        Locates sites (l.linkDecl scope d) fun d => ∀ q ∈ d.unresolvedPaths, sites path q.span
  | .const id d, scope, h => by
    obtain ⟨rfl, hspans⟩ := h.at_scope
    exact (locates_linkConst hl id hspans).map fun _ h => h
  | .struct id body head ms, scope, h => by
    have hms : l.StandsIn sites path (body :: memberScopeIds ms) (memberIds ms)
        (memberSpans (memberTrees ms)) :=
      h.mono (List.subset_cons_self _ _) (List.subset_cons_self _ _)
        (List.subset_append_right _ _)
    have hbody := locates_linkMembers hl ms body hms
    obtain ⟨rfl, hspans⟩ := h.at_scope
    have hhead := (List.forall_mem_append.1 hspans).1
    rw [linkDecl]
    exact (locates_linkHead hl .struct id hhead).bind fun head hhead =>
      hbody.bind fun ms hms => locates_ok (List.forall_mem_append.2 ⟨hhead, hms⟩)
  | .enum id d, scope, h => by
    obtain ⟨rfl, hspans⟩ := h.at_scope
    exact (locates_linkEnum hl id hspans).map fun _ h => h
  | .interface id body head bases ms, scope, h => by
    have hms : l.StandsIn sites path (body :: interfaceMemberScopeIds ms) (interfaceMemberIds ms)
        (interfaceMemberSpans (interfaceMemberTrees ms)) :=
      h.mono (List.subset_cons_self _ _) (List.subset_cons_self _ _)
        (List.subset_append_right _ _)
    have hbody := locates_linkInterfaceMembers hl ms body hms
    have hid := h.ids id List.mem_cons_self
    obtain ⟨rfl, hspans⟩ := h.at_scope
    have hhead := (List.forall_mem_append.1 (List.forall_mem_append.1 hspans).1).1
    rw [linkDecl]
    refine (locates_basesOf hl id).bind fun bases _ => ?_
    refine (locates_linkHead hl .interface id hhead).bind fun head hhead => ?_
    refine hbody.bind fun items hitems => ?_
    refine (locates_effectiveMethods hl hid).bind fun methods _ => locates_ok ?_
    exact List.forall_mem_append.2 ⟨List.forall_mem_append.2 ⟨hhead, hitems.1⟩, hitems.2⟩
  | .annotationDecl id d, scope, h => by
    obtain ⟨rfl, hspans⟩ := h.at_scope
    exact (locates_linkAnnotationDecl hl id hspans).map fun _ h => h
  | .pathAlias a, scope, h => by
    obtain ⟨rfl, hspans⟩ := h.at_scope
    exact locates_linkAlias hl hspans
  | .importAlias a, scope, h => by
    obtain ⟨rfl, hspans⟩ := h.at_scope
    exact locates_linkImportAlias hl hspans

theorem locates_linkMember (hl : l.Located sites) {path : String} :
    ∀ (m : PlacedMember) (scope : ScopeId),
      l.StandsIn sites path (scope :: m.scopeIds) m.ids m.tree.spans →
        Locates sites (l.linkMember scope m) fun m => ∀ q ∈ m.unresolvedPaths, sites path q.span
  | .field f, scope, h => by
    obtain ⟨rfl, hspans⟩ := h.at_scope
    exact (locates_linkField hl hspans).map fun _ h => h
  | .union id body head ordinal ms, scope, h => by
    have hms : l.StandsIn sites path (body :: memberScopeIds ms) (memberIds ms)
        (memberSpans (memberTrees ms)) :=
      h.mono (List.subset_cons_self _ _) (List.subset_cons_self _ _)
        (List.subset_append_right _ _)
    have hbody := locates_linkMembers hl ms body hms
    obtain ⟨rfl, hspans⟩ := h.at_scope
    have hhead := (List.forall_mem_append.1 (List.forall_mem_append.1 hspans).1).1
    rw [linkMember]
    exact (locates_linkHead hl .union id hhead).bind fun head hhead =>
      hbody.bind fun ms hms => locates_ok (List.forall_mem_append.2 ⟨hhead, hms⟩)
  | .anonymousUnion body span annotations ms, scope, h => by
    have hms : l.StandsIn sites path (body :: memberScopeIds ms) (memberIds ms)
        (memberSpans (memberTrees ms)) :=
      h.mono (List.subset_cons_self _ _) (List.Subset.refl _)
        (List.subset_cons_of_subset _ (List.subset_append_right _ _))
    have hbody := locates_linkMembers hl ms body hms
    obtain ⟨rfl, hspans⟩ := h.at_scope
    have has := (List.forall_mem_append.1 (List.forall_mem_cons.1 hspans).2).1
    rw [linkMember]
    exact (locates_linkApplications hl .union has).bind fun as has =>
      hbody.bind fun ms hms => locates_ok (List.forall_mem_append.2 ⟨has, hms⟩)
  | .group id body head ms, scope, h => by
    have hms : l.StandsIn sites path (body :: memberScopeIds ms) (memberIds ms)
        (memberSpans (memberTrees ms)) :=
      h.mono (List.subset_cons_self _ _) (List.subset_cons_self _ _)
        (List.subset_append_right _ _)
    have hbody := locates_linkMembers hl ms body hms
    obtain ⟨rfl, hspans⟩ := h.at_scope
    have hhead := (List.forall_mem_append.1 hspans).1
    rw [linkMember]
    exact (locates_linkHead hl .group id hhead).bind fun head hhead =>
      hbody.bind fun ms hms => locates_ok (List.forall_mem_append.2 ⟨hhead, hms⟩)
  | .decl d, scope, h => by
    rw [linkMember]
    exact (locates_linkDecl hl d scope h).map fun _ h => h

theorem locates_linkMembers (hl : l.Located sites) {path : String} :
    ∀ (ms : List PlacedMember) (scope : ScopeId),
      l.StandsIn sites path (scope :: memberScopeIds ms) (memberIds ms)
          (memberSpans (memberTrees ms)) →
        Locates sites (l.linkMembers scope ms) fun ms =>
          ∀ q ∈ unresolvedInMembers ms, sites path q.span
  | [], _, _ => locates_ok nofun
  | m :: ms, scope, h => by
    have hm : l.StandsIn sites path (scope :: m.scopeIds) m.ids m.tree.spans :=
      h.mono (List.cons_subset_cons _ (List.subset_append_left _ _))
        (List.subset_append_left _ _) (List.subset_append_left _ _)
    have hms : l.StandsIn sites path (scope :: memberScopeIds ms) (memberIds ms)
        (memberSpans (memberTrees ms)) :=
      h.mono (List.cons_subset_cons _ (List.subset_append_right _ _))
        (List.subset_append_right _ _) (List.subset_append_right _ _)
    rw [linkMembers]
    exact (locates_linkMember hl m scope hm).bind fun m hm =>
      (locates_linkMembers hl ms scope hms).bind fun ms hms =>
        locates_ok (List.forall_mem_append.2 ⟨hm, hms⟩)

theorem locates_linkInterfaceMember (hl : l.Located sites) {path : String} :
    ∀ (m : PlacedInterfaceMember) (scope : ScopeId),
      l.StandsIn sites path (scope :: m.scopeIds) m.ids m.tree.spans →
        Locates sites (l.linkInterfaceMember scope m) fun item =>
          (∀ m ∈ item.getLeft?, ∀ q ∈ m.unresolvedPaths, sites path q.span) ∧
            ∀ d ∈ item.getRight?, ∀ q ∈ d.unresolvedPaths, sites path q.span
  | .method m, scope, h => by
    obtain ⟨rfl, hspans⟩ := h.at_scope
    rw [linkInterfaceMember]
    refine (locates_linkMethod hl hspans).map fun m h => ⟨?_, nofun⟩
    exact fun m' hm' => Option.some.inj hm' ▸ h
  | .decl d, scope, h => by
    rw [linkInterfaceMember]
    refine (locates_linkDecl hl d scope h).map fun d h => ⟨nofun, ?_⟩
    exact fun d' hd' => Option.some.inj hd' ▸ h

theorem locates_linkInterfaceMembers (hl : l.Located sites) {path : String} :
    ∀ (ms : List PlacedInterfaceMember) (scope : ScopeId),
      l.StandsIn sites path (scope :: interfaceMemberScopeIds ms) (interfaceMemberIds ms)
          (interfaceMemberSpans (interfaceMemberTrees ms)) →
        Locates sites (l.linkInterfaceMembers scope ms) fun items =>
          (∀ q ∈ items.1.flatMap LinkedMethod.unresolvedPaths, sites path q.span) ∧
            ∀ q ∈ unresolvedInDecls items.2, sites path q.span
  | [], _, _ => locates_ok ⟨nofun, nofun⟩
  | m :: ms, scope, h => by
    have hm : l.StandsIn sites path (scope :: m.scopeIds) m.ids m.tree.spans :=
      h.mono (List.cons_subset_cons _ (List.subset_append_left _ _))
        (List.subset_append_left _ _) (List.subset_append_left _ _)
    have hms : l.StandsIn sites path (scope :: interfaceMemberScopeIds ms) (interfaceMemberIds ms)
        (interfaceMemberSpans (interfaceMemberTrees ms)) :=
      h.mono (List.cons_subset_cons _ (List.subset_append_right _ _))
        (List.subset_append_right _ _) (List.subset_append_right _ _)
    rw [linkInterfaceMembers]
    refine (locates_linkInterfaceMember hl m scope hm).bind fun item hitem => ?_
    refine (locates_linkInterfaceMembers hl ms scope hms).bind fun items hitems => ?_
    cases item with
    | inl method =>
      exact locates_ok ⟨List.forall_mem_append.2 ⟨hitem.1 _ rfl, hitems.1⟩, hitems.2⟩
    | inr d => exact locates_ok ⟨hitems.1, List.forall_mem_append.2 ⟨hitem.2 _ rfl, hitems.2⟩⟩

end

end Loaded

end SchemaLang
