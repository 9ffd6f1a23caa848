import SchemaLang.Import.Mentioned

/-!
# Where imports occur

`Module.Mentions m i` says that the import `i` stands somewhere in the module `m`, with one rule for
each place where a `using` form or a type may stand.  `mem_imports_iff` shows that `Module.imports`
lists exactly these imports.
-/

namespace SchemaLang

/-! ## The rules -/

/-- The import stands in the type. -/
inductive TypeRef.Mentions (i : ImportPath) : TypeRef → Prop
  | list {span : Span} {t : TypeRef} (element : t.Mentions i) : (TypeRef.list span t).Mentions i
  | imported {span : Span} {segments : List Ident} : (TypeRef.imported span i segments).Mentions i

/-- The import stands in the type of a parameter or a result. -/
inductive Method.Mentions (i : ImportPath) (m : Method) : Prop
  | param {p : Param} (isParam : p ∈ m.params) (type : p.type.Mentions i) : m.Mentions i
  | result {ps : List Param} {p : Param} (results : m.results = some ps) (isResult : p ∈ ps)
      (type : p.type.Mentions i) : m.Mentions i

mutual

/-- The import stands in the declaration. -/
inductive Decl.Mentions (i : ImportPath) : Decl → Prop
  | const {d : Const} (type : d.type.Mentions i) : (Decl.const d).Mentions i
  | struct {head : Head} {ms : List Member} {m : Member} (isMember : m ∈ ms)
      (member : m.Mentions i) : (Decl.struct head ms).Mentions i
  | base {head : Head} {bases : List TypeRef} {ms : List InterfaceMember} {t : TypeRef}
      (isBase : t ∈ bases) (type : t.Mentions i) : (Decl.interface head bases ms).Mentions i
  | item {head : Head} {bases : List TypeRef} {ms : List InterfaceMember} {m : InterfaceMember}
      (isItem : m ∈ ms) (item : m.Mentions i) : (Decl.interface head bases ms).Mentions i
  | annotationDecl {d : AnnotationDecl} (type : d.type.Mentions i) :
      (Decl.annotationDecl d).Mentions i
  | usingImport {a : ImportAlias} (source : a.source = i) : (Decl.importAlias a).Mentions i

/-- The import stands in the member. -/
inductive Member.Mentions (i : ImportPath) : Member → Prop
  | field {f : Field} (type : f.type.Mentions i) : (Member.field f).Mentions i
  | union {head : Head} {o : Option Ordinal} {ms : List Member} {m : Member} (isMember : m ∈ ms)
      (member : m.Mentions i) : (Member.union head o ms).Mentions i
  | anonymousUnion {span : Span} {as : List Application} {ms : List Member} {m : Member}
      (isMember : m ∈ ms) (member : m.Mentions i) : (Member.anonymousUnion span as ms).Mentions i
  | group {head : Head} {ms : List Member} {m : Member} (isMember : m ∈ ms)
      (member : m.Mentions i) : (Member.group head ms).Mentions i
  | decl {d : Decl} (decl : d.Mentions i) : (Member.decl d).Mentions i

/-- The import stands in the item of an interface. -/
inductive InterfaceMember.Mentions (i : ImportPath) : InterfaceMember → Prop
  | method {m : Method} (method : m.Mentions i) : (InterfaceMember.method m).Mentions i
  | decl {d : Decl} (decl : d.Mentions i) : (InterfaceMember.decl d).Mentions i

end

/-- The import stands in the module. -/
def Module.Mentions (m : Module) (i : ImportPath) : Prop := ∃ d ∈ m.decls, d.Mentions i

/-! ## The listed imports -/

variable {i : ImportPath}

theorem memberImports_eq_flatMap (ms : List Member) :
    memberImports ms = ms.flatMap Member.imports := by
  induction ms with
  | nil => rfl
  | cons m ms ih => rw [memberImports, ih, List.flatMap_cons]

theorem interfaceMemberImports_eq_flatMap (ms : List InterfaceMember) :
    interfaceMemberImports ms = ms.flatMap InterfaceMember.imports := by
  induction ms with
  | nil => rfl
  | cons m ms ih => rw [interfaceMemberImports, ih, List.flatMap_cons]

theorem TypeRef.mem_imports_iff {t : TypeRef} : i ∈ t.imports ↔ t.Mentions i := by
  induction t with
  | named p => exact ⟨fun h => absurd h (by simp [imports]), nofun⟩
  | list span t ih =>
    rw [imports, ih]
    exact ⟨.list, fun h => by cases h; assumption⟩
  | imported span source segments =>
    rw [imports, List.mem_singleton]
    constructor
    · rintro rfl
      exact .imported
    · intro h
      cases h
      rfl

theorem Method.mem_imports_iff {m : Method} : i ∈ m.imports ↔ m.Mentions i := by
  rw [imports, List.mem_flatMap]
  constructor
  · rintro ⟨p, hp, hi⟩
    have htype := TypeRef.mem_imports_iff.1 hi
    rcases List.mem_append.1 hp with hp | hp
    · exact .param hp htype
    · cases hresults : m.results with
      | none => simp [hresults] at hp
      | some ps => exact .result hresults (by simpa [hresults] using hp) htype
  · rintro (⟨hp, htype⟩ | ⟨hresults, hp, htype⟩)
    · exact ⟨_, List.mem_append_left _ hp, TypeRef.mem_imports_iff.2 htype⟩
    · exact ⟨_, List.mem_append_right _ (by simpa [hresults] using hp),
        TypeRef.mem_imports_iff.2 htype⟩

mutual

theorem Decl.mem_imports_iff : ∀ d : Decl, i ∈ d.imports ↔ d.Mentions i
  | .const d => by
    rw [Decl.imports, TypeRef.mem_imports_iff]
    exact ⟨.const, fun h => by cases h; assumption⟩
  | .struct head ms => by
    rw [Decl.imports, memberImports_eq_flatMap, exists_mentions_iff ms]
    exact ⟨fun ⟨m, hm, h⟩ => .struct hm h,
      fun h => by cases h with | struct hm h => exact ⟨_, hm, h⟩⟩
  | .enum d => ⟨fun h => absurd h (by simp [Decl.imports]), nofun⟩
  | .interface head bases ms => by
    rw [Decl.imports, List.mem_append, List.mem_flatMap, interfaceMemberImports_eq_flatMap,
      exists_item_mentions_iff ms]
    constructor
    · rintro (⟨t, ht, h⟩ | ⟨m, hm, h⟩)
      · exact .base ht (TypeRef.mem_imports_iff.1 h)
      · exact .item hm h
    · intro h
      cases h with
      | base ht h => exact .inl ⟨_, ht, TypeRef.mem_imports_iff.2 h⟩
      | item hm h => exact .inr ⟨_, hm, h⟩
  | .annotationDecl d => by
    rw [Decl.imports, TypeRef.mem_imports_iff]
    exact ⟨.annotationDecl, fun h => by cases h; assumption⟩
  | .pathAlias a => ⟨fun h => absurd h (by simp [Decl.imports]), nofun⟩
  | .importAlias a => by
    rw [Decl.imports, List.mem_singleton]
    exact ⟨fun h => .usingImport h.symm, fun h => by cases h with | usingImport h => exact h.symm⟩

theorem Member.mem_imports_iff : ∀ m : Member, i ∈ m.imports ↔ m.Mentions i
  | .field f => by
    rw [Member.imports, TypeRef.mem_imports_iff]
    exact ⟨.field, fun h => by cases h; assumption⟩
  | .union head o ms => by
    rw [Member.imports, memberImports_eq_flatMap, exists_mentions_iff ms]
    exact ⟨fun ⟨m, hm, h⟩ => .union hm h, fun h => by cases h with | union hm h => exact ⟨_, hm, h⟩⟩
  | .anonymousUnion span as ms => by
    rw [Member.imports, memberImports_eq_flatMap, exists_mentions_iff ms]
    exact ⟨fun ⟨m, hm, h⟩ => .anonymousUnion hm h,
      fun h => by cases h with | anonymousUnion hm h => exact ⟨_, hm, h⟩⟩
  | .group head ms => by
    rw [Member.imports, memberImports_eq_flatMap, exists_mentions_iff ms]
    exact ⟨fun ⟨m, hm, h⟩ => .group hm h, fun h => by cases h with | group hm h => exact ⟨_, hm, h⟩⟩
  | .decl d => by
    rw [Member.imports, Decl.mem_imports_iff d]
    exact ⟨.decl, fun h => by cases h; assumption⟩

theorem exists_mentions_iff : ∀ ms : List Member,
    i ∈ ms.flatMap Member.imports ↔ ∃ m ∈ ms, m.Mentions i
  | [] => by simp
  | m :: ms => by
    rw [List.flatMap_cons, List.mem_append, Member.mem_imports_iff m, exists_mentions_iff ms]
    simp only [List.mem_cons, exists_eq_or_imp]

theorem InterfaceMember.mem_imports_iff : ∀ m : InterfaceMember, i ∈ m.imports ↔ m.Mentions i
  | .method m => by
    rw [InterfaceMember.imports, Method.mem_imports_iff]
    exact ⟨.method, fun h => by cases h; assumption⟩
  | .decl d => by
    rw [InterfaceMember.imports, Decl.mem_imports_iff d]
    exact ⟨.decl, fun h => by cases h; assumption⟩

theorem exists_item_mentions_iff : ∀ ms : List InterfaceMember,
    i ∈ ms.flatMap InterfaceMember.imports ↔ ∃ m ∈ ms, m.Mentions i
  | [] => by simp
  | m :: ms => by
    rw [List.flatMap_cons, List.mem_append, InterfaceMember.mem_imports_iff m,
      exists_item_mentions_iff ms]
    simp only [List.mem_cons, exists_eq_or_imp]

end

/-- The imports of a module are those that stand in it, at whatever place. -/
theorem Module.mem_imports_iff {m : Module} : i ∈ m.imports ↔ m.Mentions i := by
  rw [Module.imports, List.mem_flatMap]
  exact exists_congr fun d => and_congr_right fun _ => Decl.mem_imports_iff d

end SchemaLang
