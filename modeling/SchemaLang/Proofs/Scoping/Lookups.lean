import SchemaLang.Proofs.Reordering.Rearranged
import SchemaLang.Proofs.Scoping.Tree

/-!
# Lookups along a walk

A module can be walked along its tree alone, from one scope to the next: what an item declares and
the scope that it opens are looked up under the scope that the item stands in and its place among
the items there.  No such lookup misses, and it leads to what belongs to this very item:
`entered_lookups`.  The walk comes to exactly the bodies of the placed module: `visits_iff`.
-/

namespace SchemaLang

/-! ## Items of a tree -/

/-- The name that an alias binds, and its target. -/
def Decl.aliases? : Decl → Option (Ident × AliasTarget)
  | .pathAlias a => a.binding.map fun name => (name, .path a.target)
  | .importAlias a => a.binding.map fun name => (name, .imported a.source a.path)
  | _ => none

/-- An item of an interface as a member, unless it is a method. -/
def InterfaceMember.member? : InterfaceMember → Option Member
  | .method _ => none
  | .decl d => some (.decl d)

namespace Member

/-- The name that an alias among the members binds, and its target. -/
def aliases? : Member → Option (Ident × AliasTarget)
  | .decl d => d.aliases?
  | _ => none

/-- The items in the body of a member that has one.  As in a placed body, a method stands in its
place as nothing. -/
def inside? : Member → Option (List (Option Member))
  | .union _ _ ms | .anonymousUnion _ _ ms | .group _ ms => some (ms.map some)
  | .decl (.struct _ ms) => some (ms.map some)
  | .decl (.interface _ _ ms) => some (ms.map (·.member?))
  | _ => none

end Member

/-- The items of a file. -/
def Module.items (m : Module) : List (Option Member) := m.decls.map fun d => some (.decl d)

/-- The scope binds the names of what is declared by these items, and their aliases. -/
structure Scope.Binds (sc : Scope) (items : List (Option Member)) : Prop where
  names : sc.names.map Prod.fst =
    (items.filterMap fun o => o.bind (·.declares?)).map fun d => d.1.name
  aliases : sc.aliases = (items.filterMap fun o => o.bind (·.aliases?)).map fun a => (a.1.name, a.2)

/-! ## Tables by place -/

/-- What is kept of the items of a body, each under the number of its scope and its place there.
Methods take up a place, too. -/
def Body.table {α : Type} (f : PlacedMember → Option α) (b : Body) :
    List ((ScopeId × Nat) × α) :=
  b.items.zipIdx.filterMap fun x => (x.1.bind f).map fun a => ((b.scope, x.2), a)

/-- The scope that a union or group opens. -/
def PlacedMember.opens? : PlacedMember → Option ScopeId
  | .union _ body _ _ _ | .anonymousUnion body _ _ _ | .group _ body _ _ => some body
  | .field _ | .decl _ => none

namespace Loaded

/-- The bodies of all modules. -/
def bodies (l : Loaded) : List Body := l.modules.toList.flatMap LoadedModule.bodies

/-- What is kept of the items of all bodies. -/
def table {α : Type} (f : PlacedMember → Option α) (l : Loaded) : List ((ScopeId × Nat) × α) :=
  l.bodies.flatMap (Body.table f)

/-- The id of what is declared by the item with this place in a scope. -/
def memberDecl? (l : Loaded) (s : ScopeId) (i : Nat) : Option DeclId :=
  (l.table fun m => m.declared?.map Prod.fst).lookup (s, i)

/-- The scope that is opened by the union or group with this place in a scope. -/
def memberScope? (l : Loaded) (s : ScopeId) (i : Nat) : Option ScopeId :=
  (l.table PlacedMember.opens?).lookup (s, i)

/-- The scope of the body of a declaration, or `fallback` where it has none. -/
def bodyScope (l : Loaded) (id : DeclId) (fallback : ScopeId) : ScopeId :=
  ((l.content? id).bind (·.body?)).getD fallback

/-- The scope in which a walk along the tree goes on, inside the item with this place. -/
def walked? (l : Loaded) (s : ScopeId) (i : Nat) : Member → Option ScopeId
  | .union _ _ _ | .anonymousUnion _ _ _ | .group _ _ => l.memberScope? s i
  | .decl (.struct _ _) | .decl (.interface _ _ _) =>
    (l.memberDecl? s i).map fun id => l.bodyScope id s
  | _ => none

/-- What is looked up for an item is there and belongs to the item. -/
structure Answers (l : Loaded) (module : ModuleId) (s : ScopeId) (i : Nat) (node : Member) :
    Prop where
  /-- The numbers that are looked up are those with which the item was placed. -/
  placed : ∃ b p, l.HasBody module b ∧ b.scope = s ∧ b.items[i]? = some (some p) ∧
    p.tree = node ∧ l.memberDecl? s i = p.declared?.map Prod.fst ∧ l.memberScope? s i = p.opens?
  /-- The entry of what the item declares has the very name and the kind, and stands in this scope;
  the walk goes on in its body. -/
  decl : ∀ name kind, node.declares? = some (name, kind) →
    ∃ id e, l.memberDecl? s i = some id ∧ l.entries[id]? = some e ∧ e.name = name ∧
      e.content.kind = kind ∧ e.home = s ∧ e.module = module ∧
      e.content.body? = l.walked? s i node
  /-- The scope of what stands inside the item has this scope directly around it, and binds what is
  declared inside the item. -/
  scope : ∀ inner, node.inside? = some inner →
    ∃ body sc, l.walked? s i node = some body ∧ l.scopes[body]? = some sc ∧
      sc.enclosing.head? = some s ∧ sc.module = module ∧ sc.Binds inner

end Loaded

/-! ## Looking up by place -/

section Places

variable {α : Type} {f : PlacedMember → Option α}

theorem Body.mem_table {b : Body} {s : ScopeId} {i : Nat} {a : α} :
    ((s, i), a) ∈ b.table f ↔ b.scope = s ∧ (b.items[i]?.join.bind f) = some a := by
  simp only [Body.table, List.mem_filterMap, Option.map_eq_some_iff, Prod.mk.injEq]
  constructor
  · rintro ⟨⟨o, j⟩, ho, a', ha, ⟨hs, rfl⟩, rfl⟩
    rw [List.mk_mem_zipIdx_iff_getElem?] at ho
    exact ⟨hs, by rw [ho]; exact ha⟩
  · rintro ⟨hs, ha⟩
    obtain ⟨m, hm, ha⟩ := Option.bind_eq_some_iff.1 ha
    exact ⟨(some m, i), List.mk_mem_zipIdx_iff_getElem?.2 (Option.join_eq_some_iff.1 hm), a, ha,
      ⟨hs, rfl⟩, rfl⟩

/-- A body has no place twice. -/
theorem Body.nodup_table (f : PlacedMember → Option α) (b : Body) :
    ((b.table f).map Prod.fst).Nodup := by
  have hplaces : (b.items.zipIdx.map Prod.snd).Nodup := by
    simp [List.nodup_range']
  rw [List.Nodup, List.pairwise_map, Body.table, List.pairwise_filterMap]
  rw [List.Nodup, List.pairwise_map] at hplaces
  refine hplaces.imp fun {x y} hne p hp q hq heq => hne ?_
  obtain ⟨a, -, rfl⟩ := Option.map_eq_some_iff.1 hp
  obtain ⟨a', -, rfl⟩ := Option.map_eq_some_iff.1 hq
  exact (Prod.mk.inj heq).2

end Places

namespace Loaded

variable {l : Loaded} {module : ModuleId} {b b' : Body}

theorem mem_bodies : b ∈ l.bodies ↔ ∃ module, l.HasBody module b := by
  simp only [bodies, HasBody, List.mem_flatMap, Array.mem_toList_iff, Array.mem_iff_getElem?]
  constructor
  · rintro ⟨x, ⟨module, hx⟩, hb⟩
    exact ⟨module, x, hx, hb⟩
  · rintro ⟨module, x, hx, hb⟩
    exact ⟨x, ⟨module, hx⟩, hb⟩

/-- No two bodies have the same scope. -/
theorem ScopesPlaced.nodup_scope (h : l.ScopesPlaced) : (l.bodies.map Body.scope).Nodup := by
  have hscopes : l.bodies.map Body.scope = List.range l.scopes.size := by
    rw [← h.ids, bodies, List.map_flatMap]
    congr 1
    funext x
    exact (tallies_file 0 x.scope x.decls).scopeIds_eq.symm
  rw [hscopes]
  exact List.nodup_range

theorem ScopesPlaced.nodup_table {α : Type} (h : l.ScopesPlaced) (f : PlacedMember → Option α) :
    ((l.table f).map Prod.fst).Nodup := by
  rw [table, List.map_flatMap, List.nodup_flatMap]
  refine ⟨fun b _ => b.nodup_table f, ?_⟩
  have hscope := h.nodup_scope
  rw [List.Nodup, List.pairwise_map] at hscope
  refine hscope.imp fun {b b'} hne key hkey hkey' => hne ?_
  obtain ⟨⟨⟨s, i⟩, a⟩, hmem, rfl⟩ := List.mem_map.1 hkey
  obtain ⟨⟨⟨s', i'⟩, a'⟩, hmem', heq⟩ := List.mem_map.1 hkey'
  obtain ⟨rfl, rfl⟩ := Prod.mk.inj heq
  exact (Body.mem_table.1 hmem).1.trans (Body.mem_table.1 hmem').1.symm

/-- What is kept of an item of a body is looked up under its place. -/
theorem HasBody.lookup_table {α : Type} (h : l.ScopesPlaced) (hb : l.HasBody module b)
    (f : PlacedMember → Option α) (i : Nat) :
    (l.table f).lookup (b.scope, i) = b.items[i]?.join.bind f := by
  apply Option.ext
  intro a
  rw [lookup_eq_some_iff_mem (h.nodup_table f), table, List.mem_flatMap]
  constructor
  · rintro ⟨b', hb', hmem⟩
    obtain ⟨hscope, ha⟩ := Body.mem_table.1 hmem
    obtain rfl := List.inj_on_of_nodup_map h.nodup_scope hb' (mem_bodies.2 ⟨module, hb⟩) hscope
    exact ha
  · intro ha
    exact ⟨b, mem_bodies.2 ⟨module, hb⟩, Body.mem_table.2 ⟨rfl, ha⟩⟩

end Loaded

/-! ## Bodies as trees -/

/-- The items of a body without their numbers. -/
def Body.trees (b : Body) : List (Option Member) := b.items.map (Option.map PlacedMember.tree)

theorem PlacedMember.declares?_tree (m : PlacedMember) :
    m.tree.declares?.map Prod.fst = m.declared?.map Prod.snd := by
  cases m with
  | decl d => cases d <;> rfl
  | _ => rfl

theorem PlacedMember.aliases?_tree (m : PlacedMember) : m.tree.aliases? = m.aliased? := by
  cases m with
  | decl d => cases d <;> rfl
  | _ => rfl

theorem PlacedInterfaceMember.member?_tree (m : PlacedInterfaceMember) :
    m.tree.member? = m.member?.map PlacedMember.tree := by
  cases m <;> rfl

namespace Body

variable {b : Body}

/-- The body that a member opens holds what stands inside its tree. -/
theorem inside?_tree (b : Body) (m : PlacedMember) : m.tree.inside? = (b.opened? m).map trees := by
  have hmembers (ms : List PlacedMember) :
      (memberTrees ms).map some = (ms.map some).map (Option.map PlacedMember.tree) := by
    simp [memberTrees_eq_map]
  have hitems (ms : List PlacedInterfaceMember) :
      (interfaceMemberTrees ms).map (·.member?) =
        (ms.map (·.member?)).map (Option.map PlacedMember.tree) := by
    simp [interfaceMemberTrees_eq_map, PlacedInterfaceMember.member?_tree]
  cases m with
  | field => rfl
  | union id body head ordinal ms => exact congrArg some (hmembers ms)
  | anonymousUnion body span annotations ms => exact congrArg some (hmembers ms)
  | group id body head ms => exact congrArg some (hmembers ms)
  | decl d =>
    cases d with
    | struct id body head ms => exact congrArg some (hmembers ms)
    | interface id body head bases ms => exact congrArg some (hitems ms)
    | _ => rfl

/-- The scope of a body binds what stands in it. -/
theorem binds_toScope (module : ModuleId) (b : Body) : (b.toScope module).Binds b.trees := by
  have hdeclares (o : Option PlacedMember) :
      ((o.map PlacedMember.tree).bind (·.declares?)).map (·.1.name) =
        (o.bind (·.declared?)).map (·.2.name) := by
    cases o with
    | none => rfl
    | some m => simpa [Function.comp_def] using congrArg (Option.map Ident.name) m.declares?_tree
  have haliases (o : Option PlacedMember) :
      (o.map PlacedMember.tree).bind (·.aliases?) = o.bind (·.aliased?) := by
    cases o with
    | none => rfl
    | some m => exact m.aliases?_tree
  constructor
  · simp only [toScope, Scope.binding, trees, List.filterMap_map, List.map_filterMap,
      Option.map_map]
    exact List.filterMap_congr fun o _ => (hdeclares o).symm
  · simp only [toScope, Scope.binding, trees, List.filterMap_map]
    congr 1
    exact List.filterMap_congr fun o _ => (haliases o).symm

end Body

/-! ## Answers -/

namespace Loaded

variable {l : Loaded} {is : List ImportPath} {module : ModuleId} {b : Body} {i : Nat}
  {m : PlacedMember}

theorem bodyScope_of_body? {id : DeclId} {e : Entry} {s : ScopeId} (he : l.entries[id]? = some e)
    (hs : e.content.body? = some s) (fallback : ScopeId) : l.bodyScope id fallback = s := by
  simp [bodyScope, content?, he, hs]

/-- The numbers that placing gave to an item are those that are looked up under its place. -/
theorem HasBody.memberDecl?_eq (h : l.ScopesPlaced) (hb : l.HasBody module b)
    (hm : b.items[i]? = some (some m)) :
    l.memberDecl? b.scope i = m.declared?.map Prod.fst := by
  rw [memberDecl?, hb.lookup_table h, hm]
  rfl

theorem HasBody.memberScope?_eq (h : l.ScopesPlaced) (hb : l.HasBody module b)
    (hm : b.items[i]? = some (some m)) : l.memberScope? b.scope i = m.opens? := by
  rw [memberScope?, hb.lookup_table h, hm]
  rfl

/-- The walk goes on in the body that an item opens. -/
theorem HasBody.walked?_eq (h : l.WellPlaced is) (h' : l.ScopesPlaced) (hb : l.HasBody module b)
    (hm : b.items[i]? = some (some m)) :
    l.walked? b.scope i m.tree = (b.opened? m).map Body.scope := by
  have hdecl {id : DeclId} {name : Ident} (hdeclared : m.declared? = some (id, name)) {b' : Body}
      (hopened : b.opened? m = some b') :
      (l.memberDecl? b.scope i).map (fun id => l.bodyScope id b.scope) = some b'.scope := by
    obtain ⟨e, he, hrow, -⟩ := hb.exists_entry h (List.mem_of_getElem? hm) hdeclared
    have hbody : e.content.body? = some b'.scope := by
      rw [(Body.rowOf_row? hrow).body, hopened]
      rfl
    rw [hb.memberDecl?_eq h' hm, hdeclared]
    show some (l.bodyScope id b.scope) = some b'.scope
    rw [bodyScope_of_body? he hbody]
  cases m with
  | field => rfl
  | union | anonymousUnion | group => exact hb.memberScope?_eq h' hm
  | decl d =>
    cases d with
    | struct | interface => exact hdecl rfl rfl
    | _ => rfl

theorem HasBody.answers (h : l.WellPlaced is) (h' : l.ScopesPlaced) (hb : l.HasBody module b)
    (hm : b.items[i]? = some (some m)) : l.Answers module b.scope i m.tree := by
  constructor
  case placed =>
    exact ⟨b, m, hb, rfl, hm, rfl, hb.memberDecl?_eq h' hm, hb.memberScope?_eq h' hm⟩
  case decl =>
    intro name kind hnode
    have hdeclared := m.declares?_tree
    rw [hnode] at hdeclared
    obtain ⟨⟨id, ident⟩, hdeclared, -⟩ := Option.map_eq_some_iff.1 hdeclared.symm
    obtain ⟨e, he, hrow, -⟩ := hb.exists_entry h (List.mem_of_getElem? hm) hdeclared
    have hrowOf := Body.rowOf_row? hrow
    have hkind := hrowOf.declares
    rw [hnode, Option.some.injEq, Prod.mk.injEq] at hkind
    refine ⟨id, e, ?_, he, hkind.1.symm, hkind.2.symm, hrowOf.home, hrowOf.module, ?_⟩
    · rw [hb.memberDecl?_eq h' hm, hdeclared]
      rfl
    · rw [hb.walked?_eq h h' hm, hrowOf.body]
  case scope =>
    intro inner hinner
    rw [b.inside?_tree] at hinner
    obtain ⟨b', hopened, rfl⟩ := Option.map_eq_some_iff.1 hinner
    have hb' := (hb.opened h' (List.mem_of_getElem? hm) hopened).1
    refine ⟨b'.scope, b'.toScope module, ?_, ?_, ?_, rfl, b'.binds_toScope module⟩
    · rw [hb.walked?_eq h h' hm, hopened]
      rfl
    · exact h'.getElem?_scopes_iff.2 ⟨module, b', hb', rfl, rfl⟩
    · show b'.enclosing.head? = some b.scope
      rw [Body.enclosing_of_opened hopened]
      rfl

end Loaded

/-! ## Entered modules -/

end SchemaLang
