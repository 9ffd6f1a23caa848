import SchemaLang.Link.Linker
import SchemaLang.Proofs.Reordering.Values

/-!
# Linking in another order

Linking a declaration of known names and the same in another order, in two states that are the same
up to a renaming, fails in both or gives the same up to the renaming and the order:
`agree_linkDecl`.  The errors may differ, since linking stops at the first one.
-/

namespace SchemaLang.Loaded

variable {ρ : Renaming} {known : String → Prop} {l l' : Loaded}

section Parts

variable (h : l.Renamed ρ known l') (scope : ScopeId)
include h

/-! ## Annotations -/

theorem agree_argumentValue (home : ScopeId) {type : TypeRef} {literal : Option Literal}
    (htype : ∀ n ∈ type.identifiers, known n)
    (hliteral : ∀ n ∈ literal.toList.flatMap Literal.identifiers, known n) :
    AgreeBy (Option.map (Value.rename ρ)) (l.argumentValue scope home type literal)
      (l'.argumentValue (ρ.scope scope) (ρ.scope home) type literal) := by
  cases literal with
  | none => exact .ok rfl
  | some literal =>
    have hliteral := List.forall_mem_flatMap.1 hliteral literal List.mem_cons_self
    exact (agree_resolveType h home type htype).bind fun t =>
      (agree_eval h scope literal t hliteral).map fun _ => rfl

theorem agree_linkApplication (target : Target) {a : Application}
    (ha : ∀ n ∈ a.identifiers, known n) :
    AgreeBy (LinkedApplication.rename ρ) (l.linkApplication scope target a)
      (l'.linkApplication (ρ.scope scope) target a) := by
  obtain ⟨hname, hvalue⟩ := List.forall_mem_append.1 ha
  refine (agree_resolvePath h scope hname).bind fun b => ?_
  cases b with
  | unresolved =>
    refine .ok ?_
    rw [LinkedApplication.rename, Option.map_map]
    rfl
  | module | builtin => exact .error
  | decl id =>
    dsimp only [Binding.rename]
    rw [h.entries]
    cases he : l.entries[id]? with
    | none => exact .error
    | some e =>
      obtain ⟨module, parent, home, name, content⟩ := e
      cases content with
      | annotationDecl targets type =>
        dsimp only [Option.map_some, Entry.rename, EntryContent.rename]
        by_cases happlies : applies targets target
        · rw [if_pos happlies, if_pos happlies]
          exact (agree_argumentValue h scope home (h.contents id _ he) hvalue).bind
            fun _ => .ok rfl
        · rw [if_neg happlies, if_neg happlies]
          exact .error
      | _ => exact .error

theorem agree_linkApplications (target : Target) {as : List Application}
    (has : ∀ n ∈ as.flatMap Application.identifiers, known n) :
    AgreeBy (List.map (LinkedApplication.rename ρ)) (l.linkApplications scope target as)
      (l'.linkApplications (ρ.scope scope) target as) :=
  agreeBy_mapM as fun a ha =>
    agree_linkApplication h scope target (List.forall_mem_flatMap.1 has a ha)

/-! ## Parts of declarations -/

theorem agree_defaultValue (t : SchemaType) {literal : Option Literal}
    (hliteral : ∀ n ∈ literal.toList.flatMap Literal.identifiers, known n) :
    AgreeBy (Option.map (Value.rename ρ)) (l.defaultValue scope t literal)
      (l'.defaultValue (ρ.scope scope) (t.rename ρ) literal) := by
  cases literal with
  | none => exact .ok rfl
  | some literal =>
    have hliteral := List.forall_mem_flatMap.1 hliteral literal List.mem_cons_self
    exact (agree_eval h scope literal t hliteral).map fun _ => rfl

theorem agree_linkField {f : Field} (hf : ∀ n ∈ f.identifiers, known n) :
    AgreeBy (LinkedField.rename ρ) (l.linkField scope f) (l'.linkField (ρ.scope scope) f) := by
  simp only [Field.identifiers, List.forall_mem_cons, List.forall_mem_append] at hf
  obtain ⟨-, ⟨htype, hdefault⟩, has⟩ := hf
  exact (agree_resolveType h scope f.type htype).bind fun t =>
    (agree_defaultValue h scope t hdefault).bind fun _ =>
      (agree_linkApplications h scope .field has).bind fun _ => .ok rfl

theorem agree_linkParam {p : Param} (hp : ∀ n ∈ p.identifiers, known n) :
    AgreeBy (LinkedParam.rename ρ) (l.linkParam scope p) (l'.linkParam (ρ.scope scope) p) := by
  simp only [Param.identifiers, List.forall_mem_cons, List.forall_mem_append] at hp
  obtain ⟨-, ⟨htype, hdefault⟩, has⟩ := hp
  exact (agree_resolveType h scope p.type htype).bind fun t =>
    (agree_defaultValue h scope t hdefault).bind fun _ =>
      (agree_linkApplications h scope .param has).bind fun _ => .ok rfl

theorem agree_linkParams {ps : List Param}
    (hps : ∀ n ∈ ps.flatMap Param.identifiers, known n) :
    AgreeBy (List.map (LinkedParam.rename ρ)) (ps.mapM (l.linkParam scope))
      (ps.mapM (l'.linkParam (ρ.scope scope))) :=
  agreeBy_mapM ps fun p hp => agree_linkParam h scope (List.forall_mem_flatMap.1 hps p hp)

theorem agree_linkResults {results : Option (List Param)}
    (hresults : ∀ n ∈ results.toList.flatMap (List.flatMap Param.identifiers), known n) :
    AgreeBy (Option.map (List.map (LinkedParam.rename ρ))) (l.linkResults scope results)
      (l'.linkResults (ρ.scope scope) results) := by
  cases results with
  | none => exact .ok rfl
  | some ps =>
    have hps := List.forall_mem_flatMap.1 hresults ps List.mem_cons_self
    exact (agree_linkParams h scope hps).map fun _ => rfl

theorem agree_linkMethod {m : Method} (hm : ∀ n ∈ m.identifiers, known n) :
    AgreeBy (LinkedMethod.rename ρ) (l.linkMethod scope m) (l'.linkMethod (ρ.scope scope) m) := by
  simp only [Method.identifiers, List.forall_mem_cons, List.forall_mem_append] at hm
  obtain ⟨-, ⟨hparams, hresults⟩, has⟩ := hm
  exact (agree_linkResults h scope hresults).bind fun _ =>
    (agree_linkParams h scope hparams).bind fun _ =>
      (agree_linkApplications h scope .method has).bind fun _ => .ok rfl

theorem agree_linkEnumerant {e : Enumerant} (he : ∀ n ∈ e.identifiers, known n) :
    AgreeBy (LinkedEnumerant.rename ρ) (l.linkEnumerant scope e)
      (l'.linkEnumerant (ρ.scope scope) e) :=
  (agree_linkApplications h scope .enumerant (List.forall_mem_cons.1 he).2).bind fun _ => .ok rfl

theorem agree_linkConst (id : DeclId) {d : Const} (hd : ∀ n ∈ d.identifiers, known n) :
    AgreeBy (LinkedConst.rename ρ) (l.linkConst scope id d)
      (l'.linkConst (ρ.scope scope) (ρ.decl id) d) := by
  simp only [Const.identifiers, List.forall_mem_cons, List.forall_mem_append] at hd
  obtain ⟨-, ⟨htype, hvalue⟩, has⟩ := hd
  exact (agree_resolveType h scope d.type htype).bind fun t =>
    (agree_eval h scope d.value t hvalue).bind fun _ =>
      (agree_linkApplications h scope .const has).bind fun _ => .ok rfl

theorem agree_linkEnum (id : DeclId) {d : Enum} (hd : ∀ n ∈ d.identifiers, known n) :
    AgreeBy (LinkedEnum.rename ρ) (l.linkEnum scope id d)
      (l'.linkEnum (ρ.scope scope) (ρ.decl id) d) := by
  simp only [Enum.identifiers, List.forall_mem_cons, List.forall_mem_append] at hd
  obtain ⟨-, has, henumerants⟩ := hd
  have henumerants := List.forall_mem_flatMap.1 henumerants
  exact (agreeBy_mapM d.enumerants fun e he =>
      agree_linkEnumerant h scope (henumerants e he)).bind fun _ =>
    (agree_linkApplications h scope .enum has).bind fun _ => .ok rfl

theorem agree_linkAnnotationDecl (id : DeclId) {d : AnnotationDecl}
    (hd : ∀ n ∈ d.identifiers, known n) :
    AgreeBy (LinkedAnnotationDecl.rename ρ) (l.linkAnnotationDecl scope id d)
      (l'.linkAnnotationDecl (ρ.scope scope) (ρ.decl id) d) := by
  simp only [AnnotationDecl.identifiers, List.forall_mem_cons, List.forall_mem_append] at hd
  obtain ⟨-, htype, has⟩ := hd
  exact (agree_resolveType h scope d.type htype).bind fun _ =>
    (agree_linkApplications h scope .annotationDecl has).bind fun _ => .ok rfl

theorem agree_linkHead (target : Target) (id : DeclId) {head : Head}
    (hhead : ∀ n ∈ head.identifiers, known n) :
    AgreeBy (LinkedHead.rename ρ) (l.linkHead scope target id head)
      (l'.linkHead (ρ.scope scope) target (ρ.decl id) head) :=
  (agree_linkApplications h scope target (List.forall_mem_cons.1 hhead).2).bind fun _ => .ok rfl

variable (moved : Bool)

theorem agree_linkAlias {a : Alias} (ha : ∀ n ∈ a.identifiers, known n) :
    Agree (LinkedDecl.Reordered ρ moved) (l.linkAlias scope a)
      (l'.linkAlias (ρ.scope scope) a) := by
  have htarget : ∀ n ∈ (AliasTarget.path a.target).identifiers, known n :=
    (List.forall_mem_append.1 ha).2
  refine Agree.bind (agree_resolveTarget h scope _ htarget) fun b _ hb => .ok ?_
  rw [hb, Binding.reference_rename]
  exact .pathAlias

theorem agree_linkImportAlias {a : ImportAlias} (ha : ∀ n ∈ a.identifiers, known n) :
    Agree (LinkedDecl.Reordered ρ moved) (l.linkImportAlias scope a)
      (l'.linkImportAlias (ρ.scope scope) a) := by
  have hpath := (List.forall_mem_append.1 ha).2
  refine Agree.bind (agree_importedModule h scope a.source) fun module _ hmodule => ?_
  -- What a binding of the target gives.
  have halias (b : Binding) : LinkedDecl.Reordered ρ moved
      (.importAlias (a.binding.map Ident.name) module (b.reference ⟨a.span, a.path⟩))
      (.importAlias (a.binding.map Ident.name) (ρ.module module)
        ((b.rename ρ).reference ⟨a.span, a.path⟩)) := by
    rw [Binding.reference_rename]
    exact .importAlias
  rw [hmodule]
  generalize a.binding = binding at halias ⊢
  cases binding with
  | some i =>
    have htarget : ∀ n ∈ (AliasTarget.imported a.source a.path).identifiers, known n := hpath
    refine Agree.bind (agree_resolveTarget h scope i.name htarget) ?_
    exact fun b _ hb => .ok (hb ▸ halias b)
  | none =>
    refine Agree.bind (agree_resolveImported h scope a.source hpath) ?_
    exact fun b _ hb => .ok (hb ▸ halias b)

end Parts

/-! ## Declarations and members -/

theorem linkMembers_eq_mapM (l : Loaded) (scope : ScopeId) (ms : List PlacedMember) :
    l.linkMembers scope ms = ms.mapM (l.linkMember scope) := by
  induction ms with
  | nil => rfl
  | cons m ms ih => rw [linkMembers, ih, List.mapM_cons]

theorem linkInterfaceMembers_eq_mapM (l : Loaded) (scope : ScopeId)
    (ms : List PlacedInterfaceMember) :
    l.linkInterfaceMembers scope ms =
      (fun items => (items.filterMap Sum.getLeft?, items.filterMap Sum.getRight?)) <$>
        ms.mapM (l.linkInterfaceMember scope) := by
  induction ms with
  | nil => rfl
  | cons m ms ih =>
    rw [linkInterfaceMembers, ih, List.mapM_cons]
    cases l.linkInterfaceMember scope m with
    | error => rfl
    | ok item =>
      cases ms.mapM (l.linkInterfaceMember scope) with
      | error => rfl
      | ok items =>
        cases item with
        | inl => rfl
        | inr => rfl

theorem isDecl_linkMember {l : Loaded} {scope : ScopeId} {m : PlacedMember} {m' : LinkedMember}
    (h : l.linkMember scope m = .ok m') : m'.isDecl = m.isDecl := by
  cases m with
  | field | decl =>
    obtain ⟨_, -, rfl⟩ := map_eq_ok.1 h
    rfl
  | union | anonymousUnion | group =>
    obtain ⟨_, -, h⟩ := bind_eq_ok.1 h
    obtain ⟨_, -, h⟩ := bind_eq_ok.1 h
    obtain rfl := Except.ok.inj h
    rfl

theorem isRight_linkInterfaceMember {l : Loaded} {scope : ScopeId} {m : PlacedInterfaceMember}
    {item : LinkedMethod ⊕ LinkedDecl} (h : l.linkInterfaceMember scope m = .ok item) :
    item.isRight = m.isDecl := by
  cases m with
  | method | decl =>
    obtain ⟨_, -, rfl⟩ := map_eq_ok.1 h
    rfl

section Trees

variable {moved : Bool}

/-- The members of a body, once they agree one by one. -/
theorem agree_memberOrder {scope : ScopeId} {ms₁ ms' : List PlacedMember}
    {x : Link (List LinkedMember)}
    (h : Agree (List.Forall₂ (LinkedMember.Reordered ρ moved)) x (l'.linkMembers scope ms₁))
    (order : Swaps (fun m => moved && m.isDecl) ms₁ ms') :
    Agree (fun ms ms' => ∃ ms₁, List.Forall₂ (LinkedMember.Reordered ρ moved) ms ms₁ ∧
      Rearranged (fun m => moved && m.isDecl) ms₁ ms') x (l'.linkMembers scope ms') := by
  have horder : Agree (Swaps fun m : LinkedMember => moved && m.isDecl)
      (l'.linkMembers scope ms₁) (l'.linkMembers scope ms') := by
    rw [linkMembers_eq_mapM, linkMembers_eq_mapM]
    exact agree_mapM_swaps order fun m m' hm => by rw [isDecl_linkMember hm]
  exact (h.trans horder).mono fun _ _ ⟨ms₁, members, order⟩ => ⟨ms₁, members, order.rearranged⟩

/-- What an interface has in its body: the methods in the same order, what is nested in another. -/
def BodyReordered (ρ : Renaming) (moved : Bool)
    (items items' : List LinkedMethod × List LinkedDecl) : Prop :=
  items'.1 = items.1.map (LinkedMethod.rename ρ) ∧
    ∃ nested, List.Forall₂ (LinkedDecl.Reordered ρ moved) items.2 nested ∧
      Rearranged (fun _ => moved) nested items'.2

/-- An item of an interface and the same up to a renaming. -/
abbrev ItemReordered (ρ : Renaming) (moved : Bool) :
    LinkedMethod ⊕ LinkedDecl → LinkedMethod ⊕ LinkedDecl → Prop :=
  Sum.LiftRel (fun m m' => m' = m.rename ρ) (LinkedDecl.Reordered ρ moved)

theorem bodyReordered_of_items {items items₁ items' : List (LinkedMethod ⊕ LinkedDecl)}
    (members : List.Forall₂ (ItemReordered ρ moved) items items₁)
    (order : Swaps (fun item => moved && item.isRight) items₁ items') :
    BodyReordered ρ moved (items.filterMap Sum.getLeft?, items.filterMap Sum.getRight?)
      (items'.filterMap Sum.getLeft?, items'.filterMap Sum.getRight?) := by
  have hmethods : items₁.filterMap Sum.getLeft? = items'.filterMap Sum.getLeft? := by
    refine order.filterMap_eq fun item hitem => ?_
    cases item with
    | inl => simp at hitem
    | inr => rfl
  have hnested : Swaps (fun _ => moved) (items₁.filterMap Sum.getRight?)
      (items'.filterMap Sum.getRight?) := by
    refine order.filterMap fun item d hitem => ?_
    cases item with
    | inl => cases hitem
    | inr => simp
  have hitems : items₁.filterMap Sum.getLeft? =
        (items.filterMap Sum.getLeft?).map (LinkedMethod.rename ρ) ∧
      List.Forall₂ (LinkedDecl.Reordered ρ moved) (items.filterMap Sum.getRight?)
        (items₁.filterMap Sum.getRight?) := by
    clear order hmethods hnested
    induction members with
    | nil => exact ⟨rfl, .nil⟩
    | cons hitem _ ih =>
      obtain ⟨ihmethods, ihnested⟩ := ih
      cases hitem with
      | inl hm => exact ⟨List.cons_eq_cons.2 ⟨hm, ihmethods⟩, ihnested⟩
      | inr hd => exact ⟨ihmethods, .cons hd ihnested⟩
  exact ⟨hmethods.symm.trans hitems.1, _, hitems.2, hnested.rearranged⟩

/-- The items of an interface, once they agree one by one. -/
theorem agree_interfaceOrder {scope : ScopeId} {ms₁ ms' : List PlacedInterfaceMember}
    {x : Link (List (LinkedMethod ⊕ LinkedDecl))}
    (h : Agree (List.Forall₂ (ItemReordered ρ moved)) x
      (ms₁.mapM (l'.linkInterfaceMember scope)))
    (order : Swaps (fun m => moved && m.isDecl) ms₁ ms') :
    Agree (BodyReordered ρ moved)
      ((fun items => (items.filterMap Sum.getLeft?, items.filterMap Sum.getRight?)) <$> x)
      (l'.linkInterfaceMembers scope ms') := by
  have horder : Agree (Swaps fun item : LinkedMethod ⊕ LinkedDecl => moved && item.isRight)
      (ms₁.mapM (l'.linkInterfaceMember scope)) (ms'.mapM (l'.linkInterfaceMember scope)) :=
    agree_mapM_swaps order fun m item hm => by rw [isRight_linkInterfaceMember hm]
  rw [linkInterfaceMembers_eq_mapM]
  exact (h.trans horder).map fun _ _ ⟨items, members, order⟩ =>
    bodyReordered_of_items members order

mutual

theorem agree_linkDecl (h : l.Renamed ρ known l') : ∀ (d : PlacedDecl) {d' : PlacedDecl},
    d.Reordered ρ moved d' → ∀ scope, (∀ n ∈ d.tree.identifiers, known n) →
      Agree (LinkedDecl.Reordered ρ moved) (l.linkDecl scope d) (l'.linkDecl (ρ.scope scope) d')
  | .const id _, _, .const, scope, hd =>
    Agree.map (agree_linkConst h scope id hd) fun _ _ hd => hd ▸ .const
  | .struct id body head ms, _, .struct members order, scope, hd => by
    obtain ⟨hhead, hms⟩ := List.forall_mem_append.1 hd
    refine Agree.bind (agree_linkHead h scope .struct id hhead) fun head _ hhead => ?_
    refine (agree_memberOrder (agree_linkMembers h ms members body hms) order).bind ?_
    rintro ms ms' ⟨ms₁, members, order⟩
    exact .ok (hhead ▸ .struct members order)
  | .enum id _, _, .enum, scope, hd =>
    Agree.map (agree_linkEnum h scope id hd) fun _ _ hd => hd ▸ .enum
  | .interface id body head _ ms, _, .interface members order, scope, hd => by
    obtain ⟨hparts, hms⟩ := List.forall_mem_append.1 hd
    obtain ⟨hhead, -⟩ := List.forall_mem_append.1 hparts
    refine Agree.bind (agree_basesOf h id) fun bases _ hbases => ?_
    refine Agree.bind (agree_linkHead h scope .interface id hhead) fun head _ hhead => ?_
    have hbody := agree_interfaceOrder (agree_linkItems h ms members body hms) order
    rw [← linkInterfaceMembers_eq_mapM] at hbody
    refine hbody.bind ?_
    rintro ⟨methods, nested⟩ ⟨methods', nested'⟩ ⟨hmethods, nested₁, members, order⟩
    refine Agree.bind (agree_effectiveMethods h id) fun effective _ heffective => .ok ?_
    dsimp only at hmethods
    rw [hbases, hhead, hmethods, heffective]
    exact .interface members order
  | .annotationDecl id _, _, .annotationDecl, scope, hd =>
    Agree.map (agree_linkAnnotationDecl h scope id hd) fun _ _ hd => hd ▸ .annotationDecl
  | .pathAlias _, _, .pathAlias, scope, hd => agree_linkAlias h scope moved hd
  | .importAlias _, _, .importAlias, scope, hd => agree_linkImportAlias h scope moved hd

theorem agree_linkMember (h : l.Renamed ρ known l') : ∀ (m : PlacedMember) {m' : PlacedMember},
    m.Reordered ρ moved m' → ∀ scope, (∀ n ∈ m.tree.identifiers, known n) →
      Agree (LinkedMember.Reordered ρ moved) (l.linkMember scope m)
        (l'.linkMember (ρ.scope scope) m')
  | .field _, _, .field, scope, hm =>
    Agree.map (agree_linkField h scope hm) fun _ _ hf => hf ▸ .field
  | .union id body head ordinal ms, _, .union members order, scope, hm => by
    obtain ⟨hhead, hms⟩ := List.forall_mem_append.1 hm
    refine Agree.bind (agree_linkHead h scope .union id hhead) fun head _ hhead => ?_
    refine (agree_memberOrder (agree_linkMembers h ms members body hms) order).bind ?_
    rintro ms ms' ⟨ms₁, members, order⟩
    exact .ok (hhead ▸ .union members order)
  | .anonymousUnion body _ annotations ms, _, .anonymousUnion members order, scope, hm => by
    obtain ⟨has, hms⟩ := List.forall_mem_append.1 hm
    refine Agree.bind (agree_linkApplications h scope .union has) fun as _ has => ?_
    refine (agree_memberOrder (agree_linkMembers h ms members body hms) order).bind ?_
    rintro ms ms' ⟨ms₁, members, order⟩
    exact .ok (has ▸ .anonymousUnion members order)
  | .group id body head ms, _, .group members order, scope, hm => by
    obtain ⟨hhead, hms⟩ := List.forall_mem_append.1 hm
    refine Agree.bind (agree_linkHead h scope .group id hhead) fun head _ hhead => ?_
    refine (agree_memberOrder (agree_linkMembers h ms members body hms) order).bind ?_
    rintro ms ms' ⟨ms₁, members, order⟩
    exact .ok (hhead ▸ .group members order)
  | .decl d, _, .decl nested, scope, hm =>
    (agree_linkDecl h d nested scope hm).map fun _ _ hd => .decl hd

theorem agree_linkMembers (h : l.Renamed ρ known l') : ∀ (ms : List PlacedMember)
    {ms' : List PlacedMember}, List.Forall₂ (PlacedMember.Reordered ρ moved) ms ms' →
      ∀ scope, (∀ n ∈ memberIdentifiers (memberTrees ms), known n) →
      Agree (List.Forall₂ (LinkedMember.Reordered ρ moved)) (l.linkMembers scope ms)
        (l'.linkMembers (ρ.scope scope) ms')
  | [], _, .nil, _, _ => .ok .nil
  | m :: ms, _, .cons hm hms, scope, hknown =>
    have ⟨hmknown, hmsknown⟩ := List.forall_mem_append.1 hknown
    (agree_linkMember h m hm scope hmknown).bind fun _ _ hm =>
      (agree_linkMembers h ms hms scope hmsknown).bind fun _ _ hms => .ok (.cons hm hms)

theorem agree_linkInterfaceMember (h : l.Renamed ρ known l') : ∀ (m : PlacedInterfaceMember)
    {m' : PlacedInterfaceMember}, m.Reordered ρ moved m' → ∀ scope,
      (∀ n ∈ m.tree.identifiers, known n) →
      Agree (ItemReordered ρ moved) (l.linkInterfaceMember scope m)
        (l'.linkInterfaceMember (ρ.scope scope) m')
  | .method _, _, .method, scope, hm =>
    Agree.map (agree_linkMethod h scope hm) fun _ _ hm => .inl hm
  | .decl d, _, .decl nested, scope, hm =>
    (agree_linkDecl h d nested scope hm).map fun _ _ hd => .inr hd

theorem agree_linkItems (h : l.Renamed ρ known l') : ∀ (ms : List PlacedInterfaceMember)
    {ms' : List PlacedInterfaceMember},
    List.Forall₂ (PlacedInterfaceMember.Reordered ρ moved) ms ms' → ∀ scope,
      (∀ n ∈ interfaceMemberIdentifiers (interfaceMemberTrees ms), known n) →
      Agree (List.Forall₂ (ItemReordered ρ moved)) (ms.mapM (l.linkInterfaceMember scope))
        (ms'.mapM (l'.linkInterfaceMember (ρ.scope scope)))
  | [], _, .nil, _, _ => .ok .nil
  | m :: ms, m' :: ms', .cons hm hms, scope, hknown => by
    obtain ⟨hmknown, hmsknown⟩ := List.forall_mem_append.1 hknown
    rw [List.mapM_cons, List.mapM_cons]
    exact (agree_linkInterfaceMember h m hm scope hmknown).bind fun _ _ hm =>
      (agree_linkItems h ms hms scope hmsknown).bind fun _ _ hms => .ok (.cons hm hms)

end

/-- Linking the declarations of a file. -/
theorem agree_linkDecls (h : l.Renamed ρ known l') {ds ds' : List PlacedDecl}
    (hds : FileReordered ρ moved ds ds') (scope : ScopeId)
    (hknown : ∀ d ∈ ds, ∀ n ∈ d.tree.identifiers, known n) :
    Agree (fun ds ds' => ∃ ds₁, List.Forall₂ (LinkedDecl.Reordered ρ moved) ds ds₁ ∧
      Rearranged (fun _ => moved) ds₁ ds') (ds.mapM (l.linkDecl scope))
      (ds'.mapM (l'.linkDecl (ρ.scope scope))) := by
  obtain ⟨ds₁, decls, order⟩ := hds
  have hdecls : Agree (List.Forall₂ (LinkedDecl.Reordered ρ moved)) (ds.mapM (l.linkDecl scope))
      (ds₁.mapM (l'.linkDecl (ρ.scope scope))) :=
    agree_mapM (((List.forall₂_and_left ds ds₁).2 ⟨hknown, decls⟩).imp fun d _ hd =>
      agree_linkDecl h d hd.2 scope hd.1)
  have horder : Agree (Swaps fun _ : LinkedDecl => moved)
      (ds₁.mapM (l'.linkDecl (ρ.scope scope))) (ds'.mapM (l'.linkDecl (ρ.scope scope))) :=
    agree_mapM_swaps order fun _ _ _ => rfl
  exact (hdecls.trans horder).mono fun _ _ ⟨ds, decls, order⟩ => ⟨ds, decls, order.rearranged⟩

end Trees

end SchemaLang.Loaded
