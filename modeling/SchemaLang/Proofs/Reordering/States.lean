import Mathlib.Algebra.Ring.Nat
import SchemaLang.Proofs.Linking.Nodes
import SchemaLang.Proofs.Reordering.Clashes
import SchemaLang.Proofs.Reordering.Lookup

/-!
# States in another order

Two states that hold the same modules, one of them with its declarations in another order, are the
same up to a renaming: `exists_reordered`.  What can be looked up in them is then the same, up to
the renaming: `Loaded.Reordered.renamed`.
-/

namespace SchemaLang

/-! ## What is read off related options -/

section Rel

variable {α β γ : Type} {R : α → β → Prop} {o : Option α} {o' : Option β}

theorem map_eq_of_rel {f : α → γ} {g : β → γ} (h : Option.Rel R o o')
    (hfg : ∀ a b, R a b → g b = f a) : o'.map g = o.map f := by
  cases h with
  | none => rfl
  | some hab => exact congrArg some (hfg _ _ hab)

theorem bind_eq_of_rel {f : α → Option γ} {g : β → Option γ} (h : Option.Rel R o o')
    (hfg : ∀ a b, R a b → g b = f a) : o'.bind g = o.bind f := by
  cases h with
  | none => rfl
  | some hab => exact hfg _ _ hab

end Rel

/-! ## Scopes that bind no name twice -/

section Scope

variable {ρ : Renaming} {s s' : Scope}

theorem Scope.Renamed.name? (h : s.Renamed ρ s') (hs : s.Distinct) (name : String) :
    s'.name? name = (s.name? name).map ρ.decl := by
  have hnodup : ((s.names.map (Prod.map id ρ.decl)).map Prod.fst).Nodup := by
    rw [List.map_map]
    exact hs.names
  rw [Scope.name?, Scope.name?, ← lookup_eq_of_perm hnodup h.names, lookup_map_snd]

theorem Scope.Renamed.alias? (h : s.Renamed ρ s') (hs : s.Distinct) (name : String) :
    s'.alias? name = s.alias? name := (lookup_eq_of_perm hs.aliases h.aliases name).symm

end Scope

/-! ## Tables by their numbers -/

/-- The numbers of the scopes in a loaded module, that of the file first. -/
def LoadedModule.scopeIds (x : LoadedModule) : List ScopeId :=
  x.scope :: x.decls.flatMap PlacedDecl.scopeIds

/-- The scopes are numbered and tabled in step with the modules, and none binds a name twice. -/
structure Loaded.ScopesPlaced (l : Loaded) : Prop where
  ids : l.modules.toList.flatMap LoadedModule.scopeIds = List.range l.scopes.size
  scopes : l.scopes.toList =
    l.modules.toList.zipIdx.flatMap fun x => fileScopes x.2 x.1.scope x.1.decls
  distinct : ∀ s ∈ l.scopes, s.Distinct

theorem length_fileScopes (module : ModuleId) (scope : ScopeId) (ds : List PlacedDecl) :
    (fileScopes module scope ds).length = (scope :: ds.flatMap PlacedDecl.scopeIds).length := by
  simp only [fileScopes, List.length_cons, List.length_flatMap, length_scopes_placedDecl]

/-- Each scope with its number, module by module. -/
theorem Loaded.ScopesPlaced.zipIdx_scopes {l : Loaded} (h : l.ScopesPlaced) :
    l.scopes.toList.zipIdx = l.modules.toList.zipIdx.flatMap fun x =>
      (fileScopes x.2 x.1.scope x.1.decls).zip x.1.scopeIds := by
  have hids : l.modules.toList.zipIdx.flatMap (fun x => x.1.scopeIds) =
      List.range l.scopes.size := (flatMap_zipIdx_fst _ _).trans h.ids
  rw [List.zipIdx_eq_zip_range', ← List.range_eq_range', Array.length_toList, ← hids,
    h.scopes, zip_flatMap]
  exact fun x => length_fileScopes _ _ _

/-- Each entry with its number, module by module. -/
theorem Loaded.WellPlaced.zipIdx_entries {l : Loaded} {is : List ImportPath}
    (h : l.WellPlaced is) :
    l.entries.toList.zipIdx = l.modules.toList.zipIdx.flatMap fun x =>
      (fileEntries x.2 x.1.scope x.1.decls).zip (x.1.decls.flatMap PlacedDecl.ids) := by
  have hids : l.modules.toList.zipIdx.flatMap (fun x => x.1.decls.flatMap PlacedDecl.ids) =
      List.range l.entries.size := (flatMap_zipIdx_fst _ _).trans h.ids
  rw [List.zipIdx_eq_zip_range', ← List.range_eq_range', Array.length_toList, ← hids,
    h.entries, zip_flatMap]
  exact fun x => length_fileEntries _ _ _

namespace Entered

variable {ms : List (String × Module)} {l : Loaded}

theorem range_size_scopes_enter (l : Loaded) (m : Module) :
    List.range (l.scopes ++ fileScopes l.modules.size l.scopes.size (l.place m)).size =
      List.range l.scopes.size ++
        l.scopes.size :: (l.place m).flatMap PlacedDecl.scopeIds := by
  have hconsecutive : Consecutive l.scopes.size
      (l.scopes.size :: (l.place m).flatMap PlacedDecl.scopeIds) _ :=
    (consecutive_scopes_placeDecls m.decls _).cons
  have happend := List.range'_append_1 (s := 0) (m := l.scopes.size)
    (n := (l.scopes.size :: (l.place m).flatMap PlacedDecl.scopeIds).length)
  rw [Nat.zero_add, ← hconsecutive.1] at happend
  rw [← Array.length_toList, Array.toList_appendList, List.length_append, length_fileScopes,
    Array.length_toList, List.range_eq_range', List.range_eq_range', happend]

theorem scopesPlaced (h : Entered ms l) : l.ScopesPlaced := by
  induction h with
  | nothing => exact ⟨rfl, rfl, nofun⟩
  | @snoc ms l l' path m before entered ih =>
    have hclashless := exists_enter.1 ⟨l', entered⟩
    obtain rfl := Loaded.eq_of_enter entered
    constructor
    case ids =>
      rw [range_size_scopes_enter, Array.toList_push, List.flatMap_append, ih.ids,
        List.flatMap_singleton, LoadedModule.scopeIds]
    case scopes =>
      rw [Array.toList_appendList, ih.scopes, Array.toList_push, List.zipIdx_append,
        List.flatMap_append]
      simp
    case distinct =>
      intro s hs
      rcases mem_appendList.1 hs with hs | hs
      · exact ih.distinct s hs
      · exact distinct_fileScopes _ hclashless s hs

end Entered

/-! ## States that are the same up to a renaming -/

/-- A loaded module and the same with other numbers, and with its declarations in another order if
`moved` is set. -/
structure LoadedModule.Reordered (ρ : Renaming) (moved : Bool) (x x' : LoadedModule) : Prop where
  path : x'.path = x.path
  fileId : x'.fileId = x.fileId
  annotations : x'.annotations = x.annotations
  scope : x'.scope = ρ.scope x.scope
  decls : FileReordered ρ moved x.decls x'.decls

/-- Rows of modules that are the same up to the renaming, the root also up to the order of its
declarations. -/
abbrev ModuleRows (ρ : Renaming) : LoadedModule × ModuleId → LoadedModule × ModuleId → Prop :=
  Rows (fun x x' => x.Reordered ρ (x.path = Load.rootPath) x') ρ.module

/-- A state and the same with other numbers, and with the declarations of the root in another
order. -/
structure Loaded.Reordered (ρ : Renaming) (l l' : Loaded) : Prop where
  moduleInjective : Function.Injective ρ.module
  declInjective : Function.Injective ρ.decl
  scopeInjective : Function.Injective ρ.scope
  modules : Paired (ModuleRows ρ) l.modules.toList.zipIdx l'.modules.toList.zipIdx

/-- A state in which the modules, the entries and the scopes are numbered in step. -/
structure Loaded.Tabled (l : Loaded) : Prop where
  wellPlaced : ∃ is, l.WellPlaced is
  scopesPlaced : l.ScopesPlaced
  nodup : l.paths.Nodup
  root : l.paths[0]? = some Load.rootPath

/-! ### Paths -/

theorem Loaded.getElem?_paths (l : Loaded) (id : ModuleId) :
    l.paths[id]? = l.modules[id]?.map LoadedModule.path := by
  rw [paths, List.getElem?_map, Array.getElem?_toList]

/-- A path that is not repeated leads to the module that has it. -/
theorem Loaded.moduleOf?_eq_some_iff {l : Loaded} (h : l.paths.Nodup) {path : String}
    {id : ModuleId} : l.moduleOf? path = some id ↔ l.paths[id]? = some path := by
  rw [moduleOf?, Array.findIdx?_eq_some_iff_getElem, getElem?_paths]
  constructor
  · rintro ⟨hid, hpath, -⟩
    rw [Array.getElem?_eq_getElem hid]
    exact congrArg some (of_decide_eq_true hpath)
  · intro hpath
    obtain ⟨x, hx, rfl⟩ := Option.map_eq_some_iff.1 hpath
    obtain ⟨hid, rfl⟩ := Array.getElem?_eq_some_iff.1 hx
    refine ⟨hid, decide_eq_true rfl, fun j hj hsame => Nat.ne_of_lt hj ?_⟩
    have hlength : j < l.paths.length := by
      rw [paths, List.length_map, Array.length_toList]
      exact hj.trans hid
    refine (List.getElem?_inj hlength h).1 ?_
    rw [getElem?_paths, getElem?_paths, hpath, Array.getElem?_eq_getElem (hj.trans hid)]
    exact congrArg some (of_decide_eq_true hsame)

namespace Loaded.Reordered

variable {ρ : Renaming} {l l' : Loaded} (h : l.Reordered ρ l')
include h

theorem rel_modules (id : ModuleId) :
    Option.Rel (fun x x' => x.Reordered ρ (x.path = Load.rootPath) x')
      l.modules[id]? l'.modules[ρ.module id]? := by
  have hrel := Paired.rel_getElem? h.moduleInjective h.modules id
  rwa [Array.getElem?_toList, Array.getElem?_toList] at hrel

theorem getElem?_paths (id : ModuleId) : l'.paths[ρ.module id]? = l.paths[id]? := by
  rw [Loaded.getElem?_paths, Loaded.getElem?_paths]
  exact map_eq_of_rel (h.rel_modules id) fun _ _ hx => hx.path

theorem paths_subset : l'.paths ⊆ l.paths := by
  intro path hpath
  obtain ⟨x', hx', rfl⟩ := List.mem_map.1 hpath
  obtain ⟨x, hx, hrel⟩ := h.modules.of_rows.exists_left hx'
  exact hrel.path ▸ List.mem_map_of_mem hx

theorem moduleOf? (hl : l.paths.Nodup) (hl' : l'.paths.Nodup) (path : String) :
    l'.moduleOf? path = (l.moduleOf? path).map ρ.module := by
  cases hid : l.moduleOf? path with
  | some id =>
    rw [moduleOf?_eq_some_iff hl, ← h.getElem?_paths] at hid
    exact (moduleOf?_eq_some_iff hl').2 hid
  | none =>
    rw [← Option.not_isSome_iff_eq_none, isSome_moduleOf?_iff] at hid
    rw [Option.map_none, ← Option.not_isSome_iff_eq_none, isSome_moduleOf?_iff]
    exact fun hpath => hid (h.paths_subset hpath)

/-- The root is first in both states. -/
theorem module_root (hl : l.Tabled) (hl' : l'.Tabled) : ρ.module 0 = 0 := by
  have hroot : l'.paths[ρ.module 0]? = l'.paths[0]? := by
    rw [h.getElem?_paths, hl.root, hl'.root]
  have hlength := (List.getElem?_eq_some_iff.1 hl'.root).1
  exact ((List.getElem?_inj hlength hl'.nodup).1 hroot.symm).symm

/-- The entries are the same, each under its other number. -/
theorem paired_entries (hl : l.Tabled) (hl' : l'.Tabled) :
    Paired (EntryRows ρ) l.entries.toList.zipIdx l'.entries.toList.zipIdx := by
  obtain ⟨is, hplaced⟩ := hl.wellPlaced
  obtain ⟨is', hplaced'⟩ := hl'.wellPlaced
  rw [hplaced.zipIdx_entries, hplaced'.zipIdx_entries]
  refine h.modules.flatMap ?_
  rintro ⟨x, i⟩ ⟨x', i'⟩ ⟨hx, rfl⟩
  dsimp only
  rw [hx.scope]
  exact paired_fileEntries i hx.decls x.scope

/-- The scopes are the same, each under its other number. -/
theorem paired_scopes (hl : l.Tabled) (hl' : l'.Tabled) :
    Paired (ScopeRows ρ) l.scopes.toList.zipIdx l'.scopes.toList.zipIdx := by
  rw [hl.scopesPlaced.zipIdx_scopes, hl'.scopesPlaced.zipIdx_scopes]
  refine h.modules.flatMap ?_
  rintro ⟨x, i⟩ ⟨x', i'⟩ ⟨hx, rfl⟩
  dsimp only [LoadedModule.scopeIds]
  rw [hx.scope]
  exact paired_fileScopes i hx.decls x.scope

/-! ### Tables -/

theorem getElem?_entries (hl : l.Tabled) (hl' : l'.Tabled) (id : DeclId) :
    l'.entries[ρ.decl id]? = l.entries[id]?.map (Entry.rename ρ) := by
  have hrel := Paired.rel_getElem? h.declInjective (h.paired_entries hl hl') id
  rw [Array.getElem?_toList, Array.getElem?_toList] at hrel
  rw [← Option.map_id_apply (x := l'.entries[ρ.decl id]?)]
  exact map_eq_of_rel hrel fun _ _ he => he

theorem rel_scopes (hl : l.Tabled) (hl' : l'.Tabled) (scope : ScopeId) :
    Option.Rel (fun s s' => s.Distinct ∧ s.Renamed ρ s') l.scopes[scope]?
      l'.scopes[ρ.scope scope]? := by
  have hpaired : Paired (Rows (fun s s' => s.Distinct ∧ s.Renamed ρ s') ρ.scope)
      l.scopes.toList.zipIdx l'.scopes.toList.zipIdx :=
    (h.paired_scopes hl hl').imp_mem fun x hx _ _ hrow =>
      have hmem := Array.mem_toList_iff.1 (List.fst_mem_of_mem_zipIdx hx)
      ⟨⟨hl.scopesPlaced.distinct x.1 hmem, hrow.1⟩, hrow.2⟩
  have hrel := hpaired.rel_getElem? h.scopeInjective scope
  rwa [Array.getElem?_toList, Array.getElem?_toList] at hrel

omit h in
theorem aliasCount_eq_sum (l : Loaded) :
    l.aliasCount = (l.scopes.toList.map fun s => s.aliases.length).sum := by
  rw [aliasCount, ← Array.foldl_toList, List.sum_eq_foldl, List.foldl_map]

theorem aliasCount (hl : l.Tabled) (hl' : l'.Tabled) : l'.aliasCount = l.aliasCount := by
  have hlengths : (l.scopes.toList.map fun s => s.aliases.length).Perm
      (l'.scopes.toList.map fun s => s.aliases.length) := by
    rw [← List.zipIdx_map_fst 0 l.scopes.toList, ← List.zipIdx_map_fst 0 l'.scopes.toList,
      List.map_map, List.map_map]
    exact (h.paired_scopes hl hl').map_perm fun _ _ hs => hs.1.aliases.length_eq.symm
  rw [aliasCount_eq_sum, aliasCount_eq_sum, hlengths.sum_nat]

theorem renamed (hl : l.Tabled) (hl' : l'.Tabled) : l.Renamed ρ (fun _ => True) l' where
  declInjective := h.declInjective
  scopeInjective := h.scopeInjective
  moduleOf? := h.moduleOf? hl.nodup hl'.nodup
  fileScope id := by
    rw [Option.map_map]
    exact map_eq_of_rel (h.rel_modules id) fun _ _ hx => hx.scope
  enclosing scope := by
    rw [Option.map_map]
    exact map_eq_of_rel (h.rel_scopes hl hl' scope) fun _ _ hs => hs.2.enclosing
  name? scope name _ := by
    rw [Option.map_bind]
    exact bind_eq_of_rel (h.rel_scopes hl hl' scope) fun _ _ hs => hs.2.name? hs.1 name
  alias? scope name _ :=
    bind_eq_of_rel (h.rel_scopes hl hl' scope) fun _ _ hs => hs.2.alias? hs.1 name
  aliasTargets _ _ _ _ _ _ := trivial
  aliasCount := (h.aliasCount hl hl').ge
  entries := h.getElem?_entries hl hl'
  contents _ _ _ _ _ := trivial
  size := by
    have hlength := (h.paired_entries hl hl').length_eq
    rw [List.length_zipIdx, List.length_zipIdx, Array.length_toList, Array.length_toList] at hlength
    exact hlength.le

end Loaded.Reordered

/-! ## States that hold the same modules -/

/-- The loaded modules are placed from the same module, for the second one in another order. -/
def LoadedModule.Corresponds (moved : Bool) (x x' : LoadedModule) : Prop :=
  ∃ m m' : Module, x.Holds x.path m ∧ x'.Holds x.path m' ∧ m.Reordered moved m'

theorem LoadedModule.Corresponds.matches {moved : Bool} {x x' : LoadedModule}
    (h : x.Corresponds moved x') :
    Matches (x.decls.flatMap PlacedDecl.ids) (x'.decls.flatMap PlacedDecl.ids) x.scopeIds
      x'.scopeIds fun ρ => x.Reordered ρ moved x' := by
  obtain ⟨m, m', hx, hx', hm⟩ := h
  refine (matches_module hx.decls hx'.decls hm x.scope x'.scope).mono ?_
  rintro ρ ⟨hscope, hfile⟩
  refine ⟨hx'.path, ?_, ?_, hscope.symm, hfile⟩
  · rw [hx'.fileId, hx.fileId, hm.id]
  · rw [hx'.annotations, hx.annotations, hm.annotations]

/-- States whose modules correspond are the same up to some renaming. -/
theorem exists_reordered {l l' : Loaded} (hl : l.Tabled) (hl' : l'.Tabled)
    (h : Paired (fun x x' => x.Corresponds (x.path = Load.rootPath) x') l.modules.toList
      l'.modules.toList) : ∃ ρ, l.Reordered ρ l' := by
  obtain ⟨f, hf, ys, hys, hperm⟩ := h.exists_positions
  have hmatches : Matches
      (l.modules.toList.zipIdx.flatMap fun x => x.1.decls.flatMap PlacedDecl.ids)
      (l'.modules.toList.zipIdx.flatMap fun x => x.1.decls.flatMap PlacedDecl.ids)
      (l.modules.toList.zipIdx.flatMap fun x => x.1.scopeIds)
      (l'.modules.toList.zipIdx.flatMap fun x => x.1.scopeIds)
      fun ρ => List.Forall₂
        (Rows (fun x x' => x.Reordered ρ (x.path = Load.rootPath) x') f)
        l.modules.toList.zipIdx ys := by
    refine Matches.perm (matches_flatMap (hys.imp fun x x' hx => ?_)) (hperm.flatMap_right _)
      (hperm.flatMap_right _)
    exact hx.1.matches.mono fun ρ hρ => ⟨hρ, hx.2⟩
  have hids {l : Loaded} (hl : l.Tabled) :
      (l.modules.toList.zipIdx.flatMap fun x => x.1.decls.flatMap PlacedDecl.ids).Nodup := by
    obtain ⟨is, hplaced⟩ := hl.wellPlaced
    rw [Loaded.flatMap_zipIdx_fst fun x : LoadedModule => x.decls.flatMap PlacedDecl.ids,
      hplaced.ids]
    exact List.nodup_range
  have hscopes {l : Loaded} (hl : l.Tabled) :
      (l.modules.toList.zipIdx.flatMap fun x => x.1.scopeIds).Nodup := by
    rw [Loaded.flatMap_zipIdx_fst LoadedModule.scopeIds, hl.scopesPlaced.ids]
    exact List.nodup_range
  obtain ⟨ρ, hrows, hmodule, hdecl, hscope⟩ :=
    hmatches.exists_renaming (hids hl) (hids hl') (hscopes hl) (hscopes hl') f
  subst hmodule
  exact ⟨ρ, hf, hdecl, hscope, ys, hrows, hperm⟩

end SchemaLang
