import Mathlib.Data.List.Forall2
import SchemaLang.Proofs.Loading.Closure
import SchemaLang.Proofs.Placing.Tables

/-!
# What was entered

`Entered ms l` says that `l` holds the modules `ms`, each under its path, entered one after another.
Entering keeps the numbers and the tables of all modules in step: `Entered.wellPlaced`.  After a
load with success every import in them leads to a module: `LoadsRoot.linkable`.
-/

namespace SchemaLang

/-! ## Entering a module -/

/-- The declarations of a module, with the numbers that are free. -/
def Loaded.place (l : Loaded) (m : Module) : List PlacedDecl :=
  (placeDecls ⟨l.entries.size, l.scopes.size + 1⟩ m.decls).1

theorem Loaded.eq_of_enter {l l' : Loaded} {path : String} {m : Module}
    (h : l.enter path m = .ok l') :
    l' = ⟨l.modules.push ⟨path, m.id.value, l.scopes.size, m.annotations, l.place m⟩,
      l.scopes ++ fileScopes l.modules.size l.scopes.size (l.place m),
      l.entries ++ fileEntries l.modules.size l.scopes.size (l.place m)⟩ := by
  unfold enter at h
  dsimp only at h
  split at h
  · cases h
  · exact (Except.ok.inj h).symm

/-- The loaded module is this module under its path. -/
structure LoadedModule.Holds (x : LoadedModule) (path : String) (m : Module) : Prop where
  path : x.path = path
  fileId : x.fileId = m.id.value
  annotations : x.annotations = m.annotations
  decls : x.decls.map PlacedDecl.tree = m.decls

/-- The modules, each under its path, were entered one after another. -/
inductive Entered : List (String × Module) → Loaded → Prop
  | nothing : Entered [] .empty
  | snoc {ms : List (String × Module)} {l l' : Loaded} {path : String} {m : Module}
      (before : Entered ms l) (entered : l.enter path m = .ok l') : Entered (ms ++ [(path, m)]) l'

/-- The modules are numbered and tabled in step: their ids are those of the entries, and the tables
hold no import but those in `is`. -/
structure Loaded.WellPlaced (is : List ImportPath) (l : Loaded) : Prop where
  ids : l.modules.toList.flatMap (fun x => x.decls.flatMap PlacedDecl.ids) =
    List.range l.entries.size
  entries : l.entries.toList =
    l.modules.toList.zipIdx.flatMap fun x => fileEntries x.2 x.1.scope x.1.decls
  scopes : ∀ s ∈ l.scopes, s.Within (List.range l.entries.size) is
  contents : ∀ e ∈ l.entries, e.content.imports ⊆ is
  decls : ∀ x ∈ l.modules, ∀ d ∈ x.decls, d.tree.imports ⊆ is

namespace Entered

variable {ms : List (String × Module)} {l : Loaded}

theorem paths (h : Entered ms l) : l.paths = ms.map Prod.fst := by
  induction h with
  | nothing => rfl
  | snoc _ entered ih => rw [Loaded.paths_enter entered, ih, List.map_append, List.map_singleton]

/-- What was entered is there, in the same order. -/
theorem holds (h : Entered ms l) :
    List.Forall₂ (fun p x => LoadedModule.Holds x p.1 p.2) ms l.modules.toList := by
  induction h with
  | nothing => exact .nil
  | snoc _ entered ih =>
    obtain rfl := Loaded.eq_of_enter entered
    rw [Array.toList_push]
    exact List.rel_append ih (.cons ⟨rfl, rfl, rfl, trees_placeDecls _ _⟩ .nil)

/-- The ids of a module that is entered follow those of the entries. -/
theorem ids_place (l : Loaded) (m : Module) :
    (l.place m).flatMap PlacedDecl.ids =
      List.range' l.entries.size ((l.place m).flatMap PlacedDecl.ids).length :=
  (consecutive_placeDecls m.decls _).1

theorem imports_place (l : Loaded) (m : Module) :
    ((l.place m).flatMap fun d => d.tree.imports) = m.imports := by
  have htrees := trees_placeDecls m.decls ⟨l.entries.size, l.scopes.size + 1⟩
  rw [Module.imports, ← htrees, List.flatMap_map]
  rfl

theorem size_entries_enter (l : Loaded) (m : Module) :
    (l.entries ++ fileEntries l.modules.size l.scopes.size (l.place m)).size =
      l.entries.size + ((l.place m).flatMap PlacedDecl.ids).length := by
  rw [← Array.length_toList, Array.toList_appendList, List.length_append, length_fileEntries,
    Array.length_toList]

theorem range_size_enter (l : Loaded) (m : Module) :
    List.range (l.entries ++ fileEntries l.modules.size l.scopes.size (l.place m)).size =
      List.range l.entries.size ++ (l.place m).flatMap PlacedDecl.ids := by
  have happend := List.range'_append_1 (s := 0) (m := l.entries.size)
    (n := ((l.place m).flatMap PlacedDecl.ids).length)
  rw [Nat.zero_add, ← ids_place] at happend
  rw [size_entries_enter, List.range_eq_range', List.range_eq_range', happend]

theorem mem_appendList {α : Type} {xs : Array α} {ys : List α} {a : α} :
    a ∈ xs ++ ys ↔ a ∈ xs ∨ a ∈ ys := by
  rw [← Array.mem_toList_iff, Array.toList_appendList, List.mem_append, Array.mem_toList_iff]

/-- What is entered extends all tables in step. -/
theorem wellPlaced (h : Entered ms l) : l.WellPlaced (ms.flatMap fun x => x.2.imports) := by
  induction h with
  | nothing => exact ⟨rfl, rfl, nofun, nofun, nofun⟩
  | @snoc ms l l' path m before entered ih =>
    obtain rfl := Loaded.eq_of_enter entered
    have himports : (ms ++ [(path, m)]).flatMap (fun x => x.2.imports) =
        ms.flatMap (fun x => x.2.imports) ++ m.imports := by simp
    have hsub : ms.flatMap (fun x => x.2.imports) ⊆
        (ms ++ [(path, m)]).flatMap fun x => x.2.imports := himports ▸ List.subset_append_left _ _
    have hplaced : ((l.place m).flatMap fun d => d.tree.imports) ⊆
        (ms ++ [(path, m)]).flatMap fun x => x.2.imports := by
      rw [imports_place, himports]
      exact List.subset_append_right _ _
    constructor
    case ids =>
      rw [range_size_enter, Array.toList_push, List.flatMap_append, ih.ids, List.flatMap_singleton]
    case entries =>
      rw [Array.toList_appendList, ih.entries, Array.toList_push, List.zipIdx_append,
        List.flatMap_append]
      simp
    case scopes =>
      intro s hs
      rw [range_size_enter]
      rcases mem_appendList.1 hs with hs | hs
      · exact (ih.scopes s hs).mono (List.subset_append_left _ _) hsub
      · exact (within_fileScopes _ _ _ s hs).mono (List.subset_append_right _ _) hplaced
    case contents =>
      intro e he
      rcases mem_appendList.1 he with he | he
      · exact List.Subset.trans (ih.contents e he) hsub
      · exact List.Subset.trans (imports_fileEntries _ _ _ e he) hplaced
    case decls =>
      intro x hx d hd
      rcases Array.mem_push.1 hx with hx | rfl
      · exact List.Subset.trans (ih.decls x hx d hd) hsub
      · exact List.Subset.trans (fun i hi => List.mem_flatMap.2 ⟨d, hd, hi⟩) hplaced

theorem eq_empty (h : Entered [] l) : l = .empty := by
  generalize hms : ([] : List (String × Module)) = ms at h
  cases h with
  | nothing => rfl
  | snoc => simp at hms

/-- The module that is entered first keeps the first number. -/
theorem modules_zero {path : String} {m : Module} (h : Entered ((path, m) :: ms) l) :
    l.modules[0]? = some ⟨path, m.id.value, 0, m.annotations, Loaded.place .empty m⟩ := by
  generalize hall : (path, m) :: ms = all at h
  induction h generalizing ms with
  | nothing => cases hall
  | @snoc ms₀ l₀ l' path' m' before entered ih =>
    obtain rfl := Loaded.eq_of_enter entered
    cases ms₀ with
    | nil =>
      obtain ⟨e, -⟩ := List.cons.inj hall
      obtain ⟨rfl, rfl⟩ := Prod.mk.inj e
      obtain rfl := before.eq_empty
      rfl
    | cons x rest =>
      obtain ⟨rfl, -⟩ := List.cons.inj hall
      have hzero := ih rfl
      obtain ⟨hsize, -⟩ := Array.getElem?_eq_some_iff.1 hzero
      rw [Array.getElem?_push_lt hsize, ← hzero]
      simp [hsize]

end Entered

/-! ## What a run enters -/

variable {read : Option (String → Option String)}

/-- Following imports only adds modules, each one at the path that it was read from. -/
theorem Loads.entered (root : Module) {importer : String} {is : List ImportPath} {s s' : LoadState}
    {r : Except SchemaError Unit} (h : Loads read importer is s r s')
    (hroot : Load.rootPath ∈ s.loaded.paths) {ms : List (String × Module)}
    (hs : Entered ms s.loaded) :
    ∃ more, Entered (ms ++ more) s'.loaded ∧ ∀ x ∈ more, moduleAt? read root x.1 = some x.2 := by
  have hfound {f : String → Option String} {m : Module} {path : String} {l : Loaded}
      (hroot : Load.rootPath ∈ l.paths) (hnew : path ∉ l.paths) (hsource : read = some f)
      (hfetched : fetch f path = .ok m) : moduleAt? read root path = some m := by
    have hne : path ≠ Load.rootPath := fun e => hnew (e ▸ hroot)
    rw [moduleAt?, if_neg hne, hsource, Option.bind_some, hfetched]
    rfl
  induction h generalizing ms with
  | done | noSource | refused | clash =>
    exact ⟨[], by rwa [List.append_nil], List.forall_mem_nil _⟩
  | known _ _ ih => exact ih hroot hs
  | failed isNew source fetched entered _ ih =>
    have hroot' := Loaded.paths_enter entered ▸ List.mem_append_left _ hroot
    obtain ⟨more, hmore, hat⟩ := ih hroot' (hs.snoc entered)
    rw [List.append_assoc] at hmore
    exact ⟨_, hmore, List.forall_mem_cons.2 ⟨hfound hroot isNew source fetched, hat⟩⟩
  | loaded isNew source fetched entered imports _ ih ihrest =>
    have hroot' := Loaded.paths_enter entered ▸ List.mem_append_left _ hroot
    obtain ⟨more, hmore, hat⟩ := ih hroot' (hs.snoc entered)
    obtain ⟨more', hmore', hat'⟩ := ihrest (imports.paths_subset hroot') hmore
    rw [List.append_assoc, List.append_assoc] at hmore'
    refine ⟨_, hmore', List.forall_mem_append.2 ⟨?_, List.forall_mem_append.2 ⟨hat, hat'⟩⟩⟩
    exact List.forall_mem_singleton.2 (hfound hroot isNew source fetched)

variable {root : Module}

/-- A load with success enters the root first, and each other module at the path that it was read
from. -/
theorem LoadsRoot.modules {s : LoadState} (h : LoadsRoot read root (.ok ()) s) :
    ∃ more, Entered ((Load.rootPath, root) :: more) s.loaded ∧
      ∀ x ∈ (Load.rootPath, root) :: more, moduleAt? read root x.1 = some x.2 := by
  cases h with
  | entered entered imports =>
    have hroot := Loaded.paths_enter entered ▸ List.mem_append_right _ List.mem_cons_self
    obtain ⟨more, hmore, hat⟩ := imports.entered root hroot (Entered.nothing.snoc entered)
    exact ⟨more, hmore, List.forall_mem_cons.2 ⟨if_pos rfl, hat⟩⟩

/-! ## What linking relies on -/

/-- The names in the scopes are bound to declarations that exist, and every import in the modules
and in their tables leads to a module. -/
structure Loaded.Linkable (l : Loaded) : Prop where
  names : ∀ s ∈ l.scopes, ∀ x ∈ s.names, x.2 < l.entries.size
  aliases : ∀ s ∈ l.scopes, ∀ x ∈ s.aliases, ∀ source path, x.2 = .imported source path →
    source.path ∈ l.paths
  contents : ∀ e ∈ l.entries, ∀ i ∈ e.content.imports, i.path ∈ l.paths
  decls : ∀ x ∈ l.modules, ∀ d ∈ x.decls, ∀ i ∈ d.tree.imports, i.path ∈ l.paths

theorem LoadsRoot.linkable {s : LoadState} (h : LoadsRoot read root (.ok ()) s) :
    s.loaded.Linkable := by
  obtain ⟨more, hentered, hat⟩ := h.modules
  have hplaced := hentered.wellPlaced
  have hknown : ∀ i ∈ ((Load.rootPath, root) :: more).flatMap fun x => x.2.imports,
      i.path ∈ s.loaded.paths := by
    intro i hi
    obtain ⟨x, hx, hi⟩ := List.mem_flatMap.1 hi
    have hpath : x.1 ∈ s.loaded.paths := hentered.paths ▸ List.mem_map_of_mem hx
    rw [h.mem_paths_iff] at hpath ⊢
    exact .step hpath (hat x hx) (Module.mem_imports_iff.1 hi)
  refine ⟨fun t ht x hx => ?_, fun t ht x hx source path e => ?_, ?_, ?_⟩
  · exact List.mem_range.1 ((hplaced.scopes t ht).names x hx)
  · exact hknown _ ((hplaced.scopes t ht).aliases x hx source path e)
  · exact fun e he i hi => hknown i (hplaced.contents e he hi)
  · exact fun x hx d hd i hi => hknown i (hplaced.decls x hx d hd hi)

end SchemaLang
