import SchemaLang.Proofs.Placing.Tables
import SchemaLang.Proofs.Printing.RoundTrip

/-!
# Names without dots

The name of a declaration that was read from a text has no dot, so the dots of a dotted name stand
only between names: `dotless_of_parse`.
-/

namespace SchemaLang

/-! ## The names of declarations -/

mutual

/-- The names of a declaration and of those nested in it that get an id. -/
def Decl.declNames : Decl → List String
  | .const d => [d.name.name]
  | .struct head ms => head.name.name :: memberDeclNames ms
  | .enum d => [d.name.name]
  | .interface head _ ms => head.name.name :: interfaceMemberDeclNames ms
  | .annotationDecl d => [d.name.name]
  | .pathAlias _ | .importAlias _ => []

/-- The names in a member that get an id. -/
def Member.declNames : Member → List String
  | .field _ => []
  | .union head _ ms => head.name.name :: memberDeclNames ms
  | .anonymousUnion _ _ ms => memberDeclNames ms
  | .group head ms => head.name.name :: memberDeclNames ms
  | .decl d => d.declNames

/-- The names in a body that get an id. -/
def memberDeclNames : List Member → List String
  | [] => []
  | m :: ms => m.declNames ++ memberDeclNames ms

/-- The names in an item of an interface that get an id. -/
def InterfaceMember.declNames : InterfaceMember → List String
  | .method _ => []
  | .decl d => d.declNames

/-- The names in the items of an interface that get an id. -/
def interfaceMemberDeclNames : List InterfaceMember → List String
  | [] => []
  | m :: ms => m.declNames ++ interfaceMemberDeclNames ms

end

/-- No name of a declaration has a dot. -/
def Module.Dotless (m : Module) : Prop :=
  ∀ d ∈ m.decls, ∀ name ∈ d.declNames, '.' ∉ name.toList

section Entries

variable (module : ModuleId)

mutual

theorem names_entries_decl : ∀ (d : PlacedDecl) (parent : Option DeclId) (home : ScopeId),
    (d.entries module parent home).map (·.name.name) = d.tree.declNames
  | .const _ _, _, _ | .enum _ _, _, _ | .annotationDecl _ _, _, _ => rfl
  | .pathAlias _, _, _ | .importAlias _, _, _ => rfl
  | .struct _ _ _ ms, _, _ => congrArg _ (names_entries_members ms _ _)
  | .interface _ _ _ _ ms, _, _ => congrArg _ (names_entries_interfaceMembers ms _ _)

theorem names_entries_member : ∀ (m : PlacedMember) (parent : Option DeclId) (home : ScopeId),
    (m.entries module parent home).map (·.name.name) = m.tree.declNames
  | .field _, _, _ => rfl
  | .union _ _ _ _ ms, _, _ => congrArg _ (names_entries_members ms _ _)
  | .anonymousUnion _ _ _ ms, _, _ => names_entries_members ms _ _
  | .group _ _ _ ms, _, _ => congrArg _ (names_entries_members ms _ _)
  | .decl d, parent, home => names_entries_decl d parent home

theorem names_entries_members : ∀ (ms : List PlacedMember) (parent : Option DeclId)
    (home : ScopeId), (memberEntries module parent home ms).map (·.name.name) =
      memberDeclNames (memberTrees ms)
  | [], _, _ => rfl
  | m :: ms, parent, home => by
    rw [memberEntries, List.map_append, names_entries_member m, names_entries_members ms]
    rfl

theorem names_entries_interfaceMember : ∀ (m : PlacedInterfaceMember) (parent : Option DeclId)
    (home : ScopeId), (m.entries module parent home).map (·.name.name) = m.tree.declNames
  | .method _, _, _ => rfl
  | .decl d, parent, home => names_entries_decl d parent home

theorem names_entries_interfaceMembers : ∀ (ms : List PlacedInterfaceMember)
    (parent : Option DeclId) (home : ScopeId),
      (interfaceMemberEntries module parent home ms).map (·.name.name) =
        interfaceMemberDeclNames (interfaceMemberTrees ms)
  | [], _, _ => rfl
  | m :: ms, parent, home => by
    rw [interfaceMemberEntries, List.map_append, names_entries_interfaceMember m,
      names_entries_interfaceMembers ms]
    rfl

end

end Entries

/-! ## Names that are read -/

theorem IsName.dotless {s : String} (h : IsName s) : '.' ∉ s.toList := by
  obtain ⟨c, cs, hs, hc, hcs, -⟩ := h
  rw [hs]
  intro hmem
  rcases List.mem_cons.1 hmem with rfl | hmem
  · exact absurd hc (by decide)
  · exact absurd (hcs _ hmem) (by decide)

open Grammar

mutual

theorem isName_decl : ∀ (d : Decl) {ls : List Lexeme}, IsDecl ls d → Genuine ls →
    ∀ name ∈ d.declNames, IsName name
  | .const d, _, h, hg => by
    cases h with
    | usingForm h => cases h
    | const h =>
      cases h
      simp only [genuine_cons, genuine_append] at hg
      exact List.forall_mem_singleton.2 (isName_of_isGenuine hg.2.1)
  | .struct head ms, _, h, hg => by
    cases h with
    | usingForm h => cases h
    | struct start name areApplied isBody =>
      simp only [genuine_cons, genuine_append] at hg
      exact List.forall_mem_cons.2 ⟨isName_of_isGenuine hg.2.1,
        isName_members ms (isBody.forall_genuine hg.2.2.2)⟩
  | .enum d, _, h, hg => by
    cases h with
    | usingForm h => cases h
    | enum h =>
      cases h
      simp only [genuine_cons, genuine_append] at hg
      exact List.forall_mem_singleton.2 (isName_of_isGenuine hg.2.1)
  | .interface head ts ms, _, h, hg => by
    cases h with
    | usingForm h => cases h
    | interface start opening closing name areBases areApplied areMembers =>
      simp only [genuine_cons, genuine_append] at hg
      exact List.forall_mem_cons.2 ⟨isName_of_isGenuine hg.2.1,
        isName_interfaceMembers ms (areMembers.forall_genuine hg.2.2.2.2.2.1)⟩
  | .annotationDecl d, _, h, hg => by
    cases h with
    | usingForm h => cases h
    | annotationDecl h =>
      cases h
      simp only [genuine_cons, genuine_append] at hg
      exact List.forall_mem_singleton.2 (isName_of_isGenuine hg.2.1)
  | .pathAlias _, _, _, _ | .importAlias _, _, _, _ => nofun

theorem isName_member : ∀ (m : Member) {ls : List Lexeme}, IsMember ls m → Genuine ls →
    ∀ name ∈ m.declNames, IsName name
  | .field _, _, _, _ => nofun
  | .union head _ ms, _, h, hg => by
    cases h with
    | union colon kw name areApplied isBody =>
      simp only [genuine_cons, genuine_append] at hg
      exact List.forall_mem_cons.2 ⟨isName_of_isGenuine hg.1,
        isName_members ms (isBody.forall_genuine hg.2.2.2.2)⟩
    | numberedUnion colon kw name isOrdinal areApplied isBody =>
      simp only [genuine_cons, genuine_append] at hg
      exact List.forall_mem_cons.2 ⟨isName_of_isGenuine hg.1,
        isName_members ms (isBody.forall_genuine hg.2.2.2.2.2)⟩
  | .anonymousUnion _ _ ms, _, h, hg => by
    cases h with
    | anonymousUnion kw areApplied isBody =>
      simp only [genuine_cons, genuine_append] at hg
      exact isName_members ms (isBody.forall_genuine hg.2.2)
  | .group head ms, _, h, hg => by
    cases h with
    | group colon kw name areApplied isBody =>
      simp only [genuine_cons, genuine_append] at hg
      exact List.forall_mem_cons.2 ⟨isName_of_isGenuine hg.1,
        isName_members ms (isBody.forall_genuine hg.2.2.2.2)⟩
  | .decl d, _, h, hg => by
    cases h with
    | decl h => exact isName_decl d h hg

theorem isName_members : ∀ ms : List Member, (∀ m ∈ ms, ∃ ls, IsMember ls m ∧ Genuine ls) →
    ∀ name ∈ memberDeclNames ms, IsName name
  | [], _ => nofun
  | m :: ms, h => by
    obtain ⟨⟨ls, hm, hg⟩, hms⟩ := List.forall_mem_cons.1 h
    exact List.forall_mem_append.2 ⟨isName_member m hm hg, isName_members ms hms⟩

theorem isName_interfaceMember : ∀ (m : InterfaceMember) {ls : List Lexeme},
    IsInterfaceMember ls m → Genuine ls → ∀ name ∈ m.declNames, IsName name
  | .method _, _, _, _ => nofun
  | .decl d, _, h, hg => by
    cases h with
    | decl h => exact isName_decl d h hg

theorem isName_interfaceMembers : ∀ ms : List InterfaceMember,
    (∀ m ∈ ms, ∃ ls, IsInterfaceMember ls m ∧ Genuine ls) →
      ∀ name ∈ interfaceMemberDeclNames ms, IsName name
  | [], _ => nofun
  | m :: ms, h => by
    obtain ⟨⟨ls, hm, hg⟩, hms⟩ := List.forall_mem_cons.1 h
    exact List.forall_mem_append.2 ⟨isName_interfaceMember m hm hg, isName_interfaceMembers ms hms⟩

end

theorem dotless_of_isModule {m : Module} {ls : List Lexeme} (h : IsModule ls m)
    (hg : Genuine ls) : m.Dotless := by
  cases h with
  | mk start number stop decoded areItems =>
  simp only [genuine_cons] at hg
  intro d hd name hname
  obtain ⟨item, hitem, hright⟩ := List.mem_filterMap.1 hd
  obtain rfl := Sum.getRight?_eq_some_iff.1 hright
  obtain ⟨ls, hls, hg⟩ := areItems.forall_genuine hg.2.2.2 _ hitem
  cases hls with
  | decl h => exact (isName_decl d h hg name hname).dotless

/-- No name of a declaration that was read from a text has a dot. -/
theorem dotless_of_parse {source : String} {m : Module} (h : Module.parse source = .ok m) :
    m.Dotless :=
  dotless_of_isModule (parse_eq_ok_iff.1 h).2 (isGenuine_of_walk source.toList 0 0)

end SchemaLang
