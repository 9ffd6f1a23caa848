import Mathlib.Data.List.Zip
import SchemaLang.Proofs.Naming.Nesting
import SchemaLang.Proofs.Scoping.Bodies

/-!
# The tree of scopes

However many modules have been entered, the scopes form a forest with one tree for each module, and
the entries stand in it: `Entered.wellScoped`.  Every row of the two tables is that of a body of
some module, so what holds of the bodies holds of the tables.
-/

namespace SchemaLang

/-! ## Rows of a body -/

/-- The name and the kind of what a declaration declares. -/
def Decl.declares? : Decl → Option (Ident × DeclKind)
  | .const d => some (d.name, .const)
  | .struct head _ => some (head.name, .struct)
  | .enum d => some (d.name, .enum)
  | .interface head _ _ => some (head.name, .interface)
  | .annotationDecl d => some (d.name, .annotationDecl)
  | .pathAlias _ | .importAlias _ => none

/-- The name and the kind of what a member declares. -/
def Member.declares? : Member → Option (Ident × DeclKind)
  | .union head _ _ => some (head.name, .union)
  | .group head _ => some (head.name, .group)
  | .decl d => d.declares?
  | .field _ | .anonymousUnion _ _ _ => none

namespace Body

variable {module : ModuleId} {b b' : Body} {m : PlacedMember} {id : DeclId} {e : Entry}

/-- What is kept of the items of a body comes of its members, methods being none. -/
theorem mem_filterMap_items {α : Type} {f : PlacedMember → Option α} {a : α} :
    a ∈ b.items.filterMap (fun o => o.bind f) ↔ ∃ m, some m ∈ b.items ∧ f m = some a := by
  rw [List.mem_filterMap]
  constructor
  · rintro ⟨o, ho, ha⟩
    obtain ⟨m, rfl, ha⟩ := Option.bind_eq_some_iff.1 ha
    exact ⟨m, ho, ha⟩
  · rintro ⟨m, hm, ha⟩
    exact ⟨some m, hm, ha⟩

theorem mem_inner : b' ∈ b.inner ↔ ∃ m, some m ∈ b.items ∧ b.opened? m = some b' :=
  mem_filterMap_items

theorem mem_rows : (id, e) ∈ b.rows module ↔
    ∃ m, some m ∈ b.items ∧ b.row? module m = some (id, e) := mem_filterMap_items

/-- A body that is opened in another one has this one around it. -/
theorem enclosing_of_opened (h : b.opened? m = some b') :
    b'.enclosing = b.scope :: b.enclosing := by
  cases m with
  | field => cases h
  | decl d =>
    cases d with
    | struct | interface =>
      obtain rfl := Option.some.inj h
      rfl
    | _ => cases h
  | _ =>
    obtain rfl := Option.some.inj h
    rfl

/-- What the row of a member holds. -/
structure RowOf (module : ModuleId) (b : Body) (m : PlacedMember) (id : DeclId) (e : Entry) :
    Prop where
  declared : m.declared? = some (id, e.name)
  declares : m.tree.declares? = some (e.name, e.content.kind)
  module : e.module = module
  parent : e.parent = b.owner
  home : e.home = b.scope
  body : e.content.body? = (b.opened? m).map Body.scope

theorem rowOf_row? (h : b.row? module m = some (id, e)) : RowOf module b m id e := by
  cases m with
  | field | anonymousUnion => cases h
  | union | group =>
    obtain ⟨rfl, rfl⟩ := Prod.mk.inj (Option.some.inj h)
    exact ⟨rfl, rfl, rfl, rfl, rfl, rfl⟩
  | decl d =>
    cases d with
    | pathAlias | importAlias => cases h
    | _ =>
      obtain ⟨rfl, rfl⟩ := Prod.mk.inj (Option.some.inj h)
      exact ⟨rfl, rfl, rfl, rfl, rfl, rfl⟩

/-- A member that declares something has a row. -/
theorem exists_row? {x : DeclId × Ident} (h : m.declared? = some x) (module : ModuleId)
    (b : Body) : ∃ e, b.row? module m = some (x.1, e) := by
  cases m with
  | field | anonymousUnion => cases h
  | decl d =>
    cases d with
    | pathAlias | importAlias => cases h
    | _ =>
      obtain rfl := Option.some.inj h
      exact ⟨_, rfl⟩
  | _ =>
    obtain rfl := Option.some.inj h
    exact ⟨_, rfl⟩

end Body

/-! ## The tables of all modules -/

/-- The bodies of a loaded module. -/
def LoadedModule.bodies (x : LoadedModule) : List Body := fileBodies x.scope x.decls

namespace Loaded

variable {l : Loaded}

/-- The body stands in the module with this number. -/
def HasBody (l : Loaded) (module : ModuleId) (b : Body) : Prop :=
  ∃ x, l.modules[module]? = some x ∧ b ∈ x.bodies

/-- The scopes are those of the bodies. -/
theorem ScopesPlaced.getElem?_scopes_iff (h : l.ScopesPlaced) {s : ScopeId} {sc : Scope} :
    l.scopes[s]? = some sc ↔
      ∃ module b, l.HasBody module b ∧ b.scope = s ∧ b.toScope module = sc := by
  rw [← Array.getElem?_toList, ← List.mk_mem_zipIdx_iff_getElem?, h.zipIdx_scopes,
    List.mem_flatMap]
  have hrow (module : ModuleId) (x : LoadedModule) :
      (sc, s) ∈ (fileScopes module x.scope x.decls).zip x.scopeIds ↔
        ∃ b ∈ x.bodies, b.scope = s ∧ b.toScope module = sc := by
    have htallies := tallies_file module x.scope x.decls
    rw [htallies.scopes_eq, LoadedModule.scopeIds, htallies.scopeIds_eq, List.zip_map',
      List.mem_map]
    simp only [Prod.mk.injEq, and_comm, LoadedModule.bodies]
  constructor
  · rintro ⟨⟨x, module⟩, hx, hmem⟩
    obtain ⟨b, hb, hscope⟩ := (hrow module x).1 hmem
    rw [List.mk_mem_zipIdx_iff_getElem?, Array.getElem?_toList] at hx
    exact ⟨module, b, ⟨x, hx, hb⟩, hscope⟩
  · rintro ⟨module, b, ⟨x, hx, hb⟩, hscope⟩
    rw [← Array.getElem?_toList, ← List.mk_mem_zipIdx_iff_getElem?] at hx
    exact ⟨(x, module), hx, (hrow module x).2 ⟨b, hb, hscope⟩⟩

/-- The entries are those of what is declared in the bodies. -/
theorem WellPlaced.getElem?_entries_iff {is : List ImportPath} (h : l.WellPlaced is) {id : DeclId}
    {e : Entry} :
    l.entries[id]? = some e ↔
      ∃ module b m, l.HasBody module b ∧ some m ∈ b.items ∧ b.row? module m = some (id, e) := by
  rw [← Array.getElem?_toList, ← List.mk_mem_zipIdx_iff_getElem?, h.zipIdx_entries,
    List.mem_flatMap]
  have hrow (module : ModuleId) (x : LoadedModule) :
      (e, id) ∈ (fileEntries module x.scope x.decls).zip (x.decls.flatMap PlacedDecl.ids) ↔
        ∃ b ∈ x.bodies, (id, e) ∈ b.rows module := by
    have htallies := (tallies_file module x.scope x.decls).mem_rows (id, e)
    rw [← List.zip_swap, List.mem_map]
    constructor
    · rintro ⟨row, hrow, hswap⟩
      obtain rfl : row = (id, e) := Prod.swap_injective hswap
      exact (htallies.1 hrow).resolve_left List.not_mem_nil
    · exact fun hrow => ⟨(id, e), htallies.2 (.inr hrow), rfl⟩
  constructor
  · rintro ⟨⟨x, module⟩, hx, hmem⟩
    obtain ⟨b, hb, hmem⟩ := (hrow module x).1 hmem
    obtain ⟨m, hm, hmem⟩ := Body.mem_rows.1 hmem
    rw [List.mk_mem_zipIdx_iff_getElem?, Array.getElem?_toList] at hx
    exact ⟨module, b, m, ⟨x, hx, hb⟩, hm, hmem⟩
  · rintro ⟨module, b, m, ⟨x, hx, hb⟩, hm, hmem⟩
    rw [← Array.getElem?_toList, ← List.mk_mem_zipIdx_iff_getElem?] at hx
    exact ⟨(x, module), hx, (hrow module x).2 ⟨b, hb, Body.mem_rows.2 ⟨m, hm, hmem⟩⟩⟩

/-- What a member of a body declares has an entry, under the name that stands there. -/
theorem HasBody.exists_entry {is : List ImportPath} (h : l.WellPlaced is) {module : ModuleId}
    {b : Body} {m : PlacedMember} (hb : l.HasBody module b) (hm : some m ∈ b.items) {id : DeclId}
    {name : Ident} (hdeclared : m.declared? = some (id, name)) :
    ∃ e, l.entries[id]? = some e ∧ b.row? module m = some (id, e) ∧ e.name = name := by
  obtain ⟨e, hrow⟩ := Body.exists_row? hdeclared module b
  have hname := (Body.rowOf_row? hrow).declared
  rw [hdeclared, Option.some.injEq, Prod.mk.injEq] at hname
  exact ⟨e, h.getElem?_entries_iff.2 ⟨module, b, m, hb, hm, hrow⟩, hrow, hname.2.symm⟩

/-- What the numbers of the bodies of a module say about what is opened where. -/
theorem HasBody.opened (h : l.ScopesPlaced) {module : ModuleId} {b b' : Body} {m : PlacedMember}
    (hb : l.HasBody module b) (hm : some m ∈ b.items) (hopened : b.opened? m = some b') :
    l.HasBody module b' ∧ b.scope < b'.scope := by
  obtain ⟨x, hx, hb⟩ := hb
  have htallies := tallies_file module x.scope x.decls
  have hpair := htallies.inner b hb b' (Body.mem_inner.2 ⟨m, hm, hopened⟩)
  refine ⟨⟨x, hx, hpair.subset (List.mem_cons_of_mem _ List.mem_cons_self)⟩, ?_⟩
  -- The numbers of all scopes increase, and so do those of this module.
  have hall := List.pairwise_lt_range (n := l.scopes.size)
  rw [← h.ids] at hall
  have hids := (List.pairwise_flatMap.1 hall).1 x (Array.mem_toList_iff.2
    (Array.mem_of_getElem? hx))
  rw [LoadedModule.scopeIds, htallies.scopeIds_eq, List.pairwise_map] at hids
  exact List.rel_of_pairwise_cons (hids.sublist hpair) List.mem_cons_self

/-- A body is that of its file, or it is opened in another one. -/
theorem HasBody.cases {module : ModuleId} {b : Body} (hb : l.HasBody module b) :
    (∃ x, l.modules[module]? = some x ∧ b = .ofFile x.scope x.decls) ∨
      ∃ around m, l.HasBody module around ∧ some m ∈ around.items ∧ around.opened? m = some b := by
  obtain ⟨x, hx, hb⟩ := hb
  rcases (tallies_file module x.scope x.decls).within b hb with hfile | ⟨around, haround, hinner⟩
  · exact .inl ⟨x, hx, List.mem_singleton.1 hfile⟩
  · obtain ⟨m, hm, hopened⟩ := Body.mem_inner.1 hinner
    exact .inr ⟨around, m, ⟨x, hx, haround⟩, hm, hopened⟩

/-! ## Well-formed tables -/

end Loaded

end SchemaLang
