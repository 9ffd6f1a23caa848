import SchemaLang.Proofs.Placing.ScopeNumbers
import SchemaLang.Proofs.Placing.Tables
import SchemaLang.Proofs.Spans.Trees
import SchemaLang.Scope.Clash

/-!
# Where the tables of a module point

All that is kept of a declaration points back into it: the spans of its imports, of its uses, of the
targets of its aliases, and of the names and types in its entries are spans of the declaration.
-/

namespace SchemaLang

/-! ## Imports -/

theorem TypeRef.span_mem_of_imports {t : TypeRef} {i : ImportPath} (h : i ∈ t.imports) :
    i.span ∈ t.spans := by
  induction t with
  | named => cases h
  | list span t ih => exact List.mem_cons_of_mem _ (ih h)
  | imported span source segments =>
    obtain rfl := List.mem_singleton.1 h
    exact List.mem_cons_of_mem _ List.mem_cons_self

theorem Param.span_mem_of_imports {x : Param} {i : ImportPath} (h : i ∈ x.type.imports) :
    i.span ∈ x.spans := by
  simp [Param.spans, x.type.span_mem_of_imports h]

theorem Method.span_mem_of_imports {m : Method} {i : ImportPath} (h : i ∈ m.imports) :
    i.span ∈ m.spans := by
  obtain ⟨x, hx, hi⟩ := List.mem_flatMap.1 h
  have hspan := Param.span_mem_of_imports hi
  rcases List.mem_append.1 hx with hx | hx
  · have hparams : i.span ∈ m.params.flatMap Param.spans := List.mem_flatMap.2 ⟨x, hx, hspan⟩
    simp [Method.spans, hparams]
  · obtain ⟨xs, hxs, hx⟩ : ∃ xs ∈ m.results, x ∈ xs := by
      cases hresults : m.results with
      | none => simp [hresults] at hx
      | some xs => exact ⟨xs, rfl, by simpa [hresults] using hx⟩
    have hresults : i.span ∈ m.results.toList.flatMap (List.flatMap Param.spans) :=
      List.mem_flatMap.2 ⟨xs, Option.mem_toList.2 hxs, List.mem_flatMap.2 ⟨x, hx, hspan⟩⟩
    simp [Method.spans, hresults]

mutual

theorem Decl.span_mem_of_imports : ∀ (d : Decl), ∀ i ∈ d.imports, i.span ∈ d.spans
  | .const d => fun i hi => by simp [Decl.spans, Const.spans, d.type.span_mem_of_imports hi]
  | .struct head ms => fun i hi =>
    List.mem_append_right _ (span_mem_of_memberImports ms i hi)
  | .enum _ => fun _ hi => absurd hi List.not_mem_nil
  | .interface head bases ms => fun i hi => by
    rcases List.mem_append.1 hi with hi | hi
    · obtain ⟨t, ht, hi⟩ := List.mem_flatMap.1 hi
      refine List.mem_append_left _ (List.mem_append_right _ ?_)
      exact List.mem_flatMap.2 ⟨t, ht, t.span_mem_of_imports hi⟩
    · exact List.mem_append_right _ (span_mem_of_interfaceMemberImports ms i hi)
  | .annotationDecl d => fun i hi => by
    simp [Decl.spans, AnnotationDecl.spans, d.type.span_mem_of_imports hi]
  | .pathAlias _ => fun _ hi => absurd hi List.not_mem_nil
  | .importAlias a => fun i hi => by
    obtain rfl := List.mem_singleton.1 hi
    simp [Decl.spans, ImportAlias.spans, ImportPath.spans]

theorem Member.span_mem_of_imports : ∀ (m : Member), ∀ i ∈ m.imports, i.span ∈ m.spans
  | .field f => fun i hi => by simp [Member.spans, Field.spans, f.type.span_mem_of_imports hi]
  | .union _ _ ms => fun i hi => List.mem_append_right _ (span_mem_of_memberImports ms i hi)
  | .anonymousUnion _ _ ms => fun i hi =>
    List.mem_cons_of_mem _ (List.mem_append_right _ (span_mem_of_memberImports ms i hi))
  | .group _ ms => fun i hi => List.mem_append_right _ (span_mem_of_memberImports ms i hi)
  | .decl d => fun i hi => d.span_mem_of_imports i hi

theorem span_mem_of_memberImports : ∀ (ms : List Member), ∀ i ∈ memberImports ms,
    i.span ∈ memberSpans ms
  | [] => fun _ hi => absurd hi List.not_mem_nil
  | m :: ms => List.forall_mem_append.2
    ⟨fun i hi => List.mem_append_left _ (m.span_mem_of_imports i hi),
      fun i hi => List.mem_append_right _ (span_mem_of_memberImports ms i hi)⟩

theorem InterfaceMember.span_mem_of_imports : ∀ (m : InterfaceMember), ∀ i ∈ m.imports,
    i.span ∈ m.spans
  | .method _ => fun _ hi => Method.span_mem_of_imports hi
  | .decl d => fun i hi => d.span_mem_of_imports i hi

theorem span_mem_of_interfaceMemberImports : ∀ (ms : List InterfaceMember),
    ∀ i ∈ interfaceMemberImports ms, i.span ∈ interfaceMemberSpans ms
  | [] => fun _ hi => absurd hi List.not_mem_nil
  | m :: ms => List.forall_mem_append.2
    ⟨fun i hi => List.mem_append_left _ (m.span_mem_of_imports i hi),
      fun i hi => List.mem_append_right _ (span_mem_of_interfaceMemberImports ms i hi)⟩

end

theorem Module.span_mem_of_imports {m : Module} {i : ImportPath} (h : i ∈ m.imports) :
    i.span ∈ m.spans := by
  obtain ⟨d, hd, hi⟩ := List.mem_flatMap.1 h
  exact List.mem_append_right _ (List.mem_flatMap.2 ⟨d, hd, d.span_mem_of_imports i hi⟩)

/-! ## Names -/

theorem Alias.binding_mem {a : Alias} {i : Ident} (h : i ∈ a.binding) : i.span ∈ a.spans := by
  rcases Option.or_eq_some_iff.1 h with h | ⟨-, h⟩
  · simp [Alias.spans, h, Ident.spans]
  · have hsegment : i.span ∈ a.target.spans :=
      List.mem_cons_of_mem _ (List.mem_flatMap.2 ⟨i, List.mem_of_getLast? h, List.mem_cons_self⟩)
    simp [Alias.spans, hsegment]

theorem ImportAlias.binding_mem {a : ImportAlias} {i : Ident} (h : i ∈ a.binding) :
    i.span ∈ a.spans := by
  rcases Option.or_eq_some_iff.1 h with h | ⟨-, h⟩
  · simp [ImportAlias.spans, h, Ident.spans]
  · have hsegment : i.span ∈ a.path.flatMap Ident.spans :=
      List.mem_flatMap.2 ⟨i, List.mem_of_getLast? h, List.mem_cons_self⟩
    simp [ImportAlias.spans, hsegment]

theorem Head.name_mem (head : Head) : head.name.span ∈ head.spans := by
  simp [Head.spans, Ident.spans]

/-! ## Uses -/

mutual

theorem span_mem_of_uses_placedDecl : ∀ (d : PlacedDecl) (home : ScopeId), ∀ u ∈ d.uses home,
    u.span ∈ d.tree.spans
  | .const _ d, home => List.forall_mem_singleton.2 (by
    simp [Use.span, PlacedDecl.tree, Decl.spans, Const.spans, Ident.spans])
  | .struct id body head ms, home => List.forall_mem_cons.2
    ⟨List.mem_append_left _ head.name_mem,
      fun u hu => List.mem_append_right _ (span_mem_of_memberUses ms id body u hu)⟩
  | .enum id d, home => List.forall_mem_append.2 ⟨fun u hu => by
      obtain ⟨e, he, rfl⟩ := List.mem_map.1 hu
      have hordinal : e.ordinal.span ∈ d.enumerants.flatMap Enumerant.spans :=
        List.mem_flatMap.2 ⟨e, he, by simp [Enumerant.spans, Ordinal.spans]⟩
      simp [Use.span, PlacedDecl.tree, Decl.spans, Enum.spans, hordinal],
    List.forall_mem_singleton.2 (by
      simp [Use.span, PlacedDecl.tree, Decl.spans, Enum.spans, Ident.spans])⟩
  | .interface id body head bases ms, home => List.forall_mem_cons.2
    ⟨List.mem_append_left _ (List.mem_append_left _ head.name_mem),
      fun u hu => List.mem_append_right _ (span_mem_of_interfaceMemberUses ms id body u hu)⟩
  | .annotationDecl _ d, home => List.forall_mem_singleton.2 (by
    simp [Use.span, PlacedDecl.tree, Decl.spans, AnnotationDecl.spans, Ident.spans])
  | .pathAlias a, home => fun u hu => by
    obtain ⟨i, hi, rfl⟩ := List.mem_map.1 hu
    exact a.binding_mem (Option.mem_toList.1 hi)
  | .importAlias a, home => fun u hu => by
    obtain ⟨i, hi, rfl⟩ := List.mem_map.1 hu
    exact a.binding_mem (Option.mem_toList.1 hi)

theorem span_mem_of_uses_placedMember : ∀ (m : PlacedMember) (space : DeclId) (home : ScopeId),
    ∀ u ∈ m.uses space home, u.span ∈ m.tree.spans
  | .field f, _, _ => List.forall_mem_singleton.2 (by
    simp [Use.span, PlacedMember.tree, Member.spans, Field.spans, Ordinal.spans])
  | .union _ body head ordinal ms, space, _ => List.forall_mem_append.2 ⟨fun u hu => by
      obtain ⟨o, ho, rfl⟩ := List.mem_map.1 hu
      refine List.mem_append_left _ (List.mem_append_right _ ?_)
      exact List.mem_flatMap.2 ⟨o, ho, List.mem_cons_self⟩,
    List.forall_mem_cons.2 ⟨List.mem_append_left _ (List.mem_append_left _ head.name_mem),
      fun u hu => List.mem_append_right _ (span_mem_of_memberUses ms space body u hu)⟩⟩
  | .anonymousUnion body _ _ ms, space, _ => fun u hu =>
    List.mem_cons_of_mem _ (List.mem_append_right _ (span_mem_of_memberUses ms space body u hu))
  | .group _ body head ms, space, _ => List.forall_mem_cons.2
    ⟨List.mem_append_left _ head.name_mem,
      fun u hu => List.mem_append_right _ (span_mem_of_memberUses ms space body u hu)⟩
  | .decl d, _, home => span_mem_of_uses_placedDecl d home

theorem span_mem_of_memberUses : ∀ (ms : List PlacedMember) (space : DeclId) (home : ScopeId),
    ∀ u ∈ memberUses space home ms, u.span ∈ memberSpans (memberTrees ms)
  | [], _, _ => fun _ hu => absurd hu List.not_mem_nil
  | m :: ms, space, home => List.forall_mem_append.2
    ⟨fun u hu => List.mem_append_left _ (span_mem_of_uses_placedMember m space home u hu),
      fun u hu => List.mem_append_right _ (span_mem_of_memberUses ms space home u hu)⟩

theorem span_mem_of_uses_placedInterfaceMember : ∀ (m : PlacedInterfaceMember) (space : DeclId)
    (home : ScopeId), ∀ u ∈ m.uses space home, u.span ∈ m.tree.spans
  | .method m, _, _ => List.forall_mem_singleton.2 (by
    simp [Use.span, PlacedInterfaceMember.tree, InterfaceMember.spans, Method.spans,
      Ordinal.spans])
  | .decl d, _, home => span_mem_of_uses_placedDecl d home

theorem span_mem_of_interfaceMemberUses : ∀ (ms : List PlacedInterfaceMember) (space : DeclId)
    (home : ScopeId), ∀ u ∈ interfaceMemberUses space home ms,
      u.span ∈ interfaceMemberSpans (interfaceMemberTrees ms)
  | [], _, _ => fun _ hu => absurd hu List.not_mem_nil
  | m :: ms, space, home => List.forall_mem_append.2
    ⟨fun u hu => List.mem_append_left _ (span_mem_of_uses_placedInterfaceMember m space home u hu),
      fun u hu => List.mem_append_right _ (span_mem_of_interfaceMemberUses ms space home u hu)⟩

end

/-! ## Scopes -/

/-- The spans of what an alias stands for. -/
def AliasTarget.spans : AliasTarget → List Span
  | .path p => p.spans
  | .imported source segments => source.spans ++ segments.flatMap Ident.spans

/-- The scope belongs to the module, and its aliases stand for what has these spans. -/
structure Scope.PointsInto (module : ModuleId) (spans : List Span) (s : Scope) : Prop where
  module : s.module = module
  aliases : ∀ x ∈ s.aliases, x.2.spans ⊆ spans

theorem Scope.PointsInto.mono {module : ModuleId} {spans spans' : List Span} {s : Scope}
    (h : s.PointsInto module spans) (hspans : spans ⊆ spans') : s.PointsInto module spans' :=
  ⟨h.module, fun x hx => List.Subset.trans (h.aliases x hx) hspans⟩

theorem PlacedDecl.aliased?_spans {d : PlacedDecl} {x : Ident × AliasTarget}
    (h : d.aliased? = some x) : x.2.spans ⊆ d.tree.spans := by
  cases d with
  | pathAlias a =>
    obtain ⟨i, -, rfl⟩ := Option.map_eq_some_iff.1 h
    exact List.subset_cons_of_subset _ (List.subset_append_right _ _)
  | importAlias a =>
    obtain ⟨i, -, rfl⟩ := Option.map_eq_some_iff.1 h
    refine List.subset_cons_of_subset _ ?_
    show _ ⊆ a.name.toList.flatMap Ident.spans ++ a.source.spans ++ a.path.flatMap Ident.spans
    rw [List.append_assoc]
    exact List.subset_append_right _ _
  | _ => cases h

theorem PlacedMember.aliased?_spans {m : PlacedMember} {x : Ident × AliasTarget}
    (h : m.aliased? = some x) : x.2.spans ⊆ m.tree.spans := by
  cases m with
  | decl d => exact PlacedDecl.aliased?_spans h
  | _ => cases h

theorem PlacedInterfaceMember.aliased?_spans {m : PlacedInterfaceMember} {x : Ident × AliasTarget}
    (h : m.aliased? = some x) : x.2.spans ⊆ m.tree.spans := by
  cases m with
  | method => cases h
  | decl d => exact PlacedDecl.aliased?_spans h

theorem spans_subset_memberSpans {m : PlacedMember} {ms : List PlacedMember} (hm : m ∈ ms) :
    m.tree.spans ⊆ memberSpans (memberTrees ms) := by
  rw [memberSpans_eq_flatMap, memberTrees_eq_map]
  exact fun span h => List.mem_flatMap.2 ⟨_, List.mem_map_of_mem hm, h⟩

theorem spans_subset_interfaceMemberSpans {m : PlacedInterfaceMember}
    {ms : List PlacedInterfaceMember} (hm : m ∈ ms) :
    m.tree.spans ⊆ interfaceMemberSpans (interfaceMemberTrees ms) := by
  rw [interfaceMemberSpans_eq_flatMap, interfaceMemberTrees_eq_map]
  exact fun span h => List.mem_flatMap.2 ⟨_, List.mem_map_of_mem hm, h⟩

section Scopes

variable (module : ModuleId)

theorem pointsInto_body (enclosing : List ScopeId) (ms : List PlacedMember) :
    (Scope.binding module enclosing (ms.filterMap (·.declared?))
      (ms.filterMap (·.aliased?))).PointsInto module (memberSpans (memberTrees ms)) := by
  refine ⟨rfl, fun x hx => ?_⟩
  obtain ⟨y, hy, rfl⟩ := List.mem_map.1 hx
  obtain ⟨m, hm, h⟩ := List.mem_filterMap.1 hy
  exact List.Subset.trans (m.aliased?_spans h) (spans_subset_memberSpans hm)

theorem pointsInto_interfaceBody (enclosing : List ScopeId) (ms : List PlacedInterfaceMember) :
    (Scope.binding module enclosing (ms.filterMap (·.declared?))
      (ms.filterMap (·.aliased?))).PointsInto module
        (interfaceMemberSpans (interfaceMemberTrees ms)) := by
  refine ⟨rfl, fun x hx => ?_⟩
  obtain ⟨y, hy, rfl⟩ := List.mem_map.1 hx
  obtain ⟨m, hm, h⟩ := List.mem_filterMap.1 hy
  exact List.Subset.trans (m.aliased?_spans h) (spans_subset_interfaceMemberSpans hm)

mutual

theorem pointsInto_scopes_placedDecl : ∀ (d : PlacedDecl) (enclosing : List ScopeId),
    ∀ s ∈ d.scopes module enclosing, s.PointsInto module d.tree.spans
  | .const _ _, _ | .enum _ _, _ | .annotationDecl _ _, _ | .pathAlias _, _ | .importAlias _, _ =>
    fun _ hs => absurd hs List.not_mem_nil
  | .struct _ body head ms, enclosing => by
    have hsub := List.subset_append_right head.spans (memberSpans (memberTrees ms))
    refine List.forall_mem_cons.2 ⟨(pointsInto_body module enclosing ms).mono hsub, ?_⟩
    exact fun s hs => (pointsInto_scopes_members ms _ s hs).mono hsub
  | .interface _ body head bases ms, enclosing => by
    have hsub := List.subset_append_right (head.spans ++ bases.flatMap TypeRef.spans)
      (interfaceMemberSpans (interfaceMemberTrees ms))
    refine List.forall_mem_cons.2 ⟨(pointsInto_interfaceBody module enclosing ms).mono hsub, ?_⟩
    exact fun s hs => (pointsInto_scopes_interfaceMembers ms _ s hs).mono hsub

theorem pointsInto_scopes_placedMember : ∀ (m : PlacedMember) (enclosing : List ScopeId),
    ∀ s ∈ m.scopes module enclosing, s.PointsInto module m.tree.spans
  | .field _, _ => fun _ hs => absurd hs List.not_mem_nil
  | .union _ body head ordinal ms, enclosing => by
    have hsub := List.subset_append_right (head.spans ++ ordinal.toList.flatMap Ordinal.spans)
      (memberSpans (memberTrees ms))
    refine List.forall_mem_cons.2 ⟨(pointsInto_body module enclosing ms).mono hsub, ?_⟩
    exact fun s hs => (pointsInto_scopes_members ms _ s hs).mono hsub
  | .anonymousUnion body span annotations ms, enclosing => by
    have hsub := List.subset_cons_of_subset span
      (List.subset_append_right (annotations.flatMap Application.spans)
        (memberSpans (memberTrees ms)))
    refine List.forall_mem_cons.2 ⟨(pointsInto_body module enclosing ms).mono hsub, ?_⟩
    exact fun s hs => (pointsInto_scopes_members ms _ s hs).mono hsub
  | .group _ body head ms, enclosing => by
    have hsub := List.subset_append_right head.spans (memberSpans (memberTrees ms))
    refine List.forall_mem_cons.2 ⟨(pointsInto_body module enclosing ms).mono hsub, ?_⟩
    exact fun s hs => (pointsInto_scopes_members ms _ s hs).mono hsub
  | .decl d, enclosing => pointsInto_scopes_placedDecl d enclosing

theorem pointsInto_scopes_members : ∀ (ms : List PlacedMember) (enclosing : List ScopeId),
    ∀ s ∈ memberScopes module enclosing ms, s.PointsInto module (memberSpans (memberTrees ms))
  | [], _ => fun _ hs => absurd hs List.not_mem_nil
  | m :: ms, enclosing => List.forall_mem_append.2
    ⟨fun s hs => (pointsInto_scopes_placedMember m enclosing s hs).mono
        (List.subset_append_left _ _),
      fun s hs => (pointsInto_scopes_members ms enclosing s hs).mono (List.subset_append_right _ _)⟩

theorem pointsInto_scopes_placedInterfaceMember : ∀ (m : PlacedInterfaceMember)
    (enclosing : List ScopeId), ∀ s ∈ m.scopes module enclosing,
      s.PointsInto module m.tree.spans
  | .method _, _ => fun _ hs => absurd hs List.not_mem_nil
  | .decl d, enclosing => pointsInto_scopes_placedDecl d enclosing

theorem pointsInto_scopes_interfaceMembers : ∀ (ms : List PlacedInterfaceMember)
    (enclosing : List ScopeId), ∀ s ∈ interfaceMemberScopes module enclosing ms,
      s.PointsInto module (interfaceMemberSpans (interfaceMemberTrees ms))
  | [], _ => fun _ hs => absurd hs List.not_mem_nil
  | m :: ms, enclosing => List.forall_mem_append.2
    ⟨fun s hs => (pointsInto_scopes_placedInterfaceMember m enclosing s hs).mono
        (List.subset_append_left _ _),
      fun s hs => (pointsInto_scopes_interfaceMembers ms enclosing s hs).mono
        (List.subset_append_right _ _)⟩

end

end Scopes

/-! ## Entries -/

/-- The type of a field, with the scope that it is written in. -/
def FieldContent.type? : FieldContent → Option (ScopeId × TypeRef)
  | .typed t home => some (home, t)
  | .nested _ => none

/-- The types that an entry holds, each with the scope that it is written in. -/
def Entry.types (e : Entry) : List (ScopeId × TypeRef) :=
  match e.content with
  | .struct _ fields | .union _ fields | .group _ fields =>
    fields.filterMap fun f => f.content.type?
  | .interface _ bases _ => bases.map fun t => (e.home, t)
  | .annotationDecl _ t => [(e.home, t)]
  | .const | .enum _ => []

/-- A type that is written in one of the scopes and has these spans. -/
def TypePointsInto (homes : List ScopeId) (spans : List Span) (x : ScopeId × TypeRef) : Prop :=
  x.1 ∈ homes ∧ x.2.spans ⊆ spans

theorem TypePointsInto.mono {homes homes' : List ScopeId} {spans spans' : List Span}
    {x : ScopeId × TypeRef} (h : TypePointsInto homes spans x) (hhomes : homes ⊆ homes')
    (hspans : spans ⊆ spans') : TypePointsInto homes' spans' x :=
  ⟨hhomes h.1, List.Subset.trans h.2 hspans⟩

/-- The entry is bound in one of the scopes, and its name and types have these spans. -/
structure Entry.PointsInto (homes : List ScopeId) (spans : List Span) (e : Entry) : Prop where
  home : e.home ∈ homes
  name : e.name.span ∈ spans
  types : ∀ x ∈ e.types, TypePointsInto homes spans x

theorem Entry.PointsInto.mono {homes homes' : List ScopeId} {spans spans' : List Span} {e : Entry}
    (h : e.PointsInto homes spans) (hhomes : homes ⊆ homes') (hspans : spans ⊆ spans') :
    e.PointsInto homes' spans' :=
  ⟨hhomes h.home, hspans h.name, fun x hx => (h.types x hx).mono hhomes hspans⟩

mutual

theorem pointsInto_fieldEntries : ∀ (m : PlacedMember) (home : ScopeId),
    ∀ x ∈ (m.fieldEntries home).filterMap fun f => f.content.type?,
      TypePointsInto (home :: m.scopeIds) m.tree.spans x
  | .field f, home => List.forall_mem_singleton.2
    ⟨List.mem_cons_self, fun span h => by simp [PlacedMember.tree, Member.spans, Field.spans, h]⟩
  | .union _ _ _ _ _, _ | .group _ _ _ _, _ | .decl _, _ =>
    fun _ hx => absurd hx List.not_mem_nil
  | .anonymousUnion body span annotations ms, home => fun x hx =>
    (pointsInto_memberFieldEntries ms body x hx).mono (List.subset_cons_self _ _)
      (List.subset_cons_of_subset _ (List.subset_append_right _ _))

theorem pointsInto_memberFieldEntries : ∀ (ms : List PlacedMember) (home : ScopeId),
    ∀ x ∈ (memberFieldEntries home ms).filterMap fun f => f.content.type?,
      TypePointsInto (home :: memberScopeIds ms) (memberSpans (memberTrees ms)) x
  | [], _ => fun _ hx => absurd hx List.not_mem_nil
  | m :: ms, home => by
    rw [memberFieldEntries, List.filterMap_append]
    refine List.forall_mem_append.2 ⟨fun x hx => ?_, fun x hx => ?_⟩
    · exact (pointsInto_fieldEntries m home x hx).mono
        (List.cons_subset_cons _ (List.subset_append_left _ _)) (List.subset_append_left _ _)
    · exact (pointsInto_memberFieldEntries ms home x hx).mono
        (List.cons_subset_cons _ (List.subset_append_right _ _)) (List.subset_append_right _ _)

end

section Entries

variable (module : ModuleId)

mutual

theorem pointsInto_entries_placedDecl : ∀ (d : PlacedDecl) (parent : Option DeclId)
    (home : ScopeId), ∀ e ∈ d.entries module parent home,
      e.PointsInto (home :: d.scopeIds) d.tree.spans
  | .const _ d, _, _ => List.forall_mem_singleton.2 ⟨List.mem_cons_self, by
      simp [PlacedDecl.tree, Decl.spans, Const.spans, Ident.spans], nofun⟩
  | .enum _ d, _, _ => List.forall_mem_singleton.2 ⟨List.mem_cons_self, by
      simp [PlacedDecl.tree, Decl.spans, Enum.spans, Ident.spans], nofun⟩
  | .annotationDecl _ d, _, _ => List.forall_mem_singleton.2 ⟨List.mem_cons_self, by
      simp [PlacedDecl.tree, Decl.spans, AnnotationDecl.spans, Ident.spans],
      List.forall_mem_singleton.2 ⟨List.mem_cons_self, fun span h => by
        simp [PlacedDecl.tree, Decl.spans, AnnotationDecl.spans, h]⟩⟩
  | .pathAlias _, _, _ | .importAlias _, _, _ => fun _ h => absurd h List.not_mem_nil
  | .struct id body head ms, _, home => by
    have hsub := List.subset_append_right head.spans (memberSpans (memberTrees ms))
    have hhomes := List.subset_cons_self home (body :: memberScopeIds ms)
    refine List.forall_mem_cons.2 ⟨⟨List.mem_cons_self, List.mem_append_left _ head.name_mem,
      fun x hx => (pointsInto_memberFieldEntries ms body x hx).mono hhomes hsub⟩, fun e he => ?_⟩
    exact (pointsInto_memberEntries ms (some id) body e he).mono hhomes hsub
  | .interface id body head bases ms, _, home => by
    have hsub := List.subset_append_right (head.spans ++ bases.flatMap TypeRef.spans)
      (interfaceMemberSpans (interfaceMemberTrees ms))
    have hhomes := List.subset_cons_self home (body :: interfaceMemberScopeIds ms)
    refine List.forall_mem_cons.2 ⟨⟨List.mem_cons_self,
      List.mem_append_left _ (List.mem_append_left _ head.name_mem), fun x hx => ?_⟩,
      fun e he => (pointsInto_interfaceMemberEntries ms (some id) body e he).mono hhomes hsub⟩
    obtain ⟨t, ht, rfl⟩ := List.mem_map.1 hx
    refine ⟨List.mem_cons_self, fun span h => List.mem_append_left _ (List.mem_append_right _ ?_)⟩
    exact List.mem_flatMap.2 ⟨t, ht, h⟩

theorem pointsInto_entries_placedMember : ∀ (m : PlacedMember) (parent : Option DeclId)
    (home : ScopeId), ∀ e ∈ m.entries module parent home,
      e.PointsInto (home :: m.scopeIds) m.tree.spans
  | .field _, _, _ => fun _ h => absurd h List.not_mem_nil
  | .union id body head ordinal ms, _, home => by
    have hsub := List.subset_append_right (head.spans ++ ordinal.toList.flatMap Ordinal.spans)
      (memberSpans (memberTrees ms))
    have hhomes := List.subset_cons_self home (body :: memberScopeIds ms)
    refine List.forall_mem_cons.2 ⟨⟨List.mem_cons_self,
      List.mem_append_left _ (List.mem_append_left _ head.name_mem),
      fun x hx => (pointsInto_memberFieldEntries ms body x hx).mono hhomes hsub⟩, fun e he => ?_⟩
    exact (pointsInto_memberEntries ms (some id) body e he).mono hhomes hsub
  | .anonymousUnion body span annotations ms, parent, home => fun e he =>
    (pointsInto_memberEntries ms parent body e he).mono (List.subset_cons_self _ _)
      (List.subset_cons_of_subset _ (List.subset_append_right _ _))
  | .group id body head ms, _, home => by
    have hsub := List.subset_append_right head.spans (memberSpans (memberTrees ms))
    have hhomes := List.subset_cons_self home (body :: memberScopeIds ms)
    refine List.forall_mem_cons.2 ⟨⟨List.mem_cons_self, List.mem_append_left _ head.name_mem,
      fun x hx => (pointsInto_memberFieldEntries ms body x hx).mono hhomes hsub⟩, fun e he => ?_⟩
    exact (pointsInto_memberEntries ms (some id) body e he).mono hhomes hsub
  | .decl d, parent, home => pointsInto_entries_placedDecl d parent home

theorem pointsInto_memberEntries : ∀ (ms : List PlacedMember) (parent : Option DeclId)
    (home : ScopeId), ∀ e ∈ memberEntries module parent home ms,
      e.PointsInto (home :: memberScopeIds ms) (memberSpans (memberTrees ms))
  | [], _, _ => fun _ h => absurd h List.not_mem_nil
  | m :: ms, parent, home => List.forall_mem_append.2
    ⟨fun e he => (pointsInto_entries_placedMember m parent home e he).mono
        (List.cons_subset_cons _ (List.subset_append_left _ _)) (List.subset_append_left _ _),
      fun e he => (pointsInto_memberEntries ms parent home e he).mono
        (List.cons_subset_cons _ (List.subset_append_right _ _)) (List.subset_append_right _ _)⟩

theorem pointsInto_entries_placedInterfaceMember : ∀ (m : PlacedInterfaceMember)
    (parent : Option DeclId) (home : ScopeId), ∀ e ∈ m.entries module parent home,
      e.PointsInto (home :: m.scopeIds) m.tree.spans
  | .method _, _, _ => fun _ h => absurd h List.not_mem_nil
  | .decl d, parent, home => pointsInto_entries_placedDecl d parent home

theorem pointsInto_interfaceMemberEntries : ∀ (ms : List PlacedInterfaceMember)
    (parent : Option DeclId) (home : ScopeId), ∀ e ∈ interfaceMemberEntries module parent home ms,
      e.PointsInto (home :: interfaceMemberScopeIds ms)
        (interfaceMemberSpans (interfaceMemberTrees ms))
  | [], _, _ => fun _ h => absurd h List.not_mem_nil
  | m :: ms, parent, home => List.forall_mem_append.2
    ⟨fun e he => (pointsInto_entries_placedInterfaceMember m parent home e he).mono
        (List.cons_subset_cons _ (List.subset_append_left _ _)) (List.subset_append_left _ _),
      fun e he => (pointsInto_interfaceMemberEntries ms parent home e he).mono
        (List.cons_subset_cons _ (List.subset_append_right _ _)) (List.subset_append_right _ _)⟩

end

end Entries

end SchemaLang
