import SchemaLang.Proofs.Reordering.States

/-!
# Loading in another order

A module that loads with success does so in every other order of its declarations, since the paths
that it reaches through imports are the same: `LoadsRoot.exists_reordered`.  The modules are then
loaded in another order, but those that are loaded correspond: `LoadsRoot.corresponds`.
-/

namespace SchemaLang

variable {read : Option (String → Option String)}

/-! ## Paths that can be loaded -/

/-- Each of the paths, except that of the root, is answered with a module that can be entered and
that imports no others. -/
def Loadable (read : Option (String → Option String)) (paths : List String) : Prop :=
  ∀ path ∈ paths, path ≠ Load.rootPath → ∃ f m, read = some f ∧ fetch f path = .ok m ∧
    (∀ l : Loaded, ∃ l', l.enter path m = .ok l') ∧ ∀ i ∈ m.imports, i.path ∈ paths

/-- Imports of paths that can be loaded are followed with success.  The outer induction is on the
number of paths that are not loaded yet. -/
theorem Loadable.exists_loads {paths : List String} (h : Loadable read paths) (n : Nat) :
    ∀ (importer : String) (is : List ImportPath) (s : LoadState), s.room paths < n →
      Load.rootPath ∈ s.loaded.paths → (∀ i ∈ is, i.path ∈ paths) →
      ∃ s', Loads read importer is s (.ok ()) s' := by
  induction n with
  | zero => exact fun _ _ _ hroom => absurd hroom (Nat.not_lt_zero _)
  | succ n ih =>
    intro importer is
    induction is with
    | nil => exact fun s _ _ _ => ⟨s, .done⟩
    | cons i is ihrest =>
      intro s hroom hroot hpaths
      obtain ⟨hi, his⟩ := List.forall_mem_cons.1 hpaths
      by_cases hknown : i.path ∈ s.loaded.paths
      · obtain ⟨s', hs'⟩ := ihrest s hroom hroot his
        exact ⟨s', .known hknown hs'⟩
      · have hne : i.path ≠ Load.rootPath := fun e => hknown (e ▸ hroot)
        obtain ⟨f, m, hread, hfetch, hm, himports⟩ := h i.path hi hne
        obtain ⟨l, hl⟩ := hm s.loaded
        have hentered := Loaded.paths_enter hl
        have hless : LoadState.room paths ⟨l, s.requested.push i.path⟩ < s.room paths :=
          LoadState.room_lt_of_mem hi hknown hentered
        have hroot' : Load.rootPath ∈ l.paths := hentered ▸ List.mem_append_left _ hroot
        obtain ⟨s₁, hs₁⟩ :=
          ih i.path m.imports ⟨l, s.requested.push i.path⟩ (by omega) hroot' himports
        have hroom₁ := LoadState.room_le_of_subset paths hs₁.paths_subset
        obtain ⟨s', hs'⟩ := ihrest s₁ (by omega) (hs₁.paths_subset hroot') his
        exact ⟨s', .loaded hknown hread hfetch hl hs₁ hs'⟩

theorem Entered.exists_enter {ms : List (String × Module)} {l : Loaded} (h : Entered ms l) :
    ∀ x ∈ ms, ∃ l₀ l₁ : Loaded, l₀.enter x.1 x.2 = .ok l₁ := by
  induction h with
  | nothing => exact nofun
  | snoc _ entered ih =>
    exact List.forall_mem_append.2 ⟨ih, List.forall_mem_singleton.2 ⟨_, _, entered⟩⟩

section Loaded

variable {m : Module} {s : LoadState} (h : LoadsRoot read m (.ok ()) s)
include h

/-- What is loaded under a path is the module at this path. -/
theorem LoadsRoot.exists_moduleAt : ∀ x ∈ s.loaded.modules.toList,
    ∃ m₀, moduleAt? read m x.path = some m₀ ∧ x.Holds x.path m₀ := by
  obtain ⟨more, hentered, hat⟩ := h.modules
  intro x hx
  obtain ⟨p, hp, hholds⟩ := (paired_of_forall₂ hentered.holds).exists_left hx
  rw [hholds.path]
  exact ⟨p.2, hat p hp, hholds⟩

/-- What was loaded with success can be loaded. -/
theorem LoadsRoot.loadable : Loadable read s.loaded.paths := by
  obtain ⟨more, hentered, hat⟩ := h.modules
  intro path hpath hne
  have hmem := hentered.paths ▸ hpath
  obtain ⟨p, hp, rfl⟩ := List.mem_map.1 hmem
  have hmodule := hat p hp
  rw [moduleAt?, if_neg hne] at hmodule
  obtain ⟨f, hread, hfetch⟩ := Option.bind_eq_some_iff.1 hmodule
  refine ⟨f, p.2, hread, ok_of_toOption hfetch, fun l => ?_, fun i hi => ?_⟩
  · obtain ⟨l₀, henter⟩ := hentered.exists_enter p hp
    exact (exists_enter_iff (reordered_module false p.2) l₀ l p.1 p.1).1 henter
  · rw [h.mem_paths_iff] at hpath ⊢
    exact .step hpath (hat p hp) (Module.mem_imports_iff.1 hi)

theorem LoadsRoot.tabled : s.loaded.Tabled := by
  obtain ⟨more, hentered, -⟩ := h.modules
  have hpaths := h.paths
  refine ⟨⟨_, hentered.wellPlaced⟩, hentered.scopesPlaced, ?_, ?_⟩
  · rw [hpaths]
    exact h.requested_nodup
  · rw [hpaths]
    rfl

end Loaded

/-! ## The root in another order -/

section Root

variable {m m' : Module} {s s' : LoadState}

/-- A root that imports no other paths than one that loads does itself load if it can be entered. -/
theorem LoadsRoot.exists_of_imports (h : LoadsRoot read m (.ok ()) s)
    (himports : m'.imports ⊆ m.imports)
    (henter : ∃ l, Loaded.empty.enter Load.rootPath m' = .ok l) :
    ∃ s', LoadsRoot read m' (.ok ()) s' := by
  obtain ⟨l, hl⟩ := henter
  have hroot : Load.rootPath ∈ l.paths :=
    Loaded.paths_enter hl ▸ List.mem_append_right _ List.mem_cons_self
  have hpaths : ∀ i ∈ m'.imports, i.path ∈ s.loaded.paths := fun i hi =>
    h.mem_paths_iff.2 (.step .root (if_pos rfl) (Module.mem_imports_iff.1 (himports hi)))
  obtain ⟨s', hs'⟩ := h.loadable.exists_loads _ Load.rootPath m'.imports ⟨l, #[]⟩
    (Nat.lt_succ_self _) hroot hpaths
  exact ⟨s', .entered hl hs'⟩

theorem LoadsRoot.exists_enter (h : LoadsRoot read m (.ok ()) s) :
    ∃ l, Loaded.empty.enter Load.rootPath m = .ok l := by
  cases h with
  | entered entered => exact ⟨_, entered⟩

/-- A root loads in every order of its declarations or in none. -/
theorem exists_loadsRoot_iff (hm : m.Reordered true m') :
    (∃ s, LoadsRoot read m (.ok ()) s) ↔ ∃ s', LoadsRoot read m' (.ok ()) s' := by
  have himports := imports_perm hm
  have henter := exists_enter_iff hm .empty .empty Load.rootPath Load.rootPath
  constructor
  · rintro ⟨s, h⟩
    exact h.exists_of_imports himports.symm.subset (henter.1 h.exists_enter)
  · rintro ⟨s', h'⟩
    exact h'.exists_of_imports himports.subset (henter.2 h'.exists_enter)

/-- Roots that import the same reach the same paths. -/
theorem Reached.of_imports {path : String} (h : Reached read m path)
    (himports : m.imports ⊆ m'.imports) : Reached read m' path := by
  induction h with
  | root => exact .root
  | @step path m₀ i _ found mentioned ih =>
    by_cases hpath : path = Load.rootPath
    · rw [moduleAt?, if_pos hpath] at found
      obtain rfl := Option.some.inj found
      exact .step .root (if_pos rfl)
        (Module.mem_imports_iff.1 (himports (Module.mem_imports_iff.2 mentioned)))
    · rw [moduleAt?, if_neg hpath] at found
      exact .step ih (by rw [moduleAt?, if_neg hpath, found]) mentioned

/-- The modules that are loaded correspond, and only those of the roots differ in their order. -/
theorem LoadsRoot.corresponds (h : LoadsRoot read m (.ok ()) s)
    (h' : LoadsRoot read m' (.ok ()) s') (hm : m.Reordered true m') :
    Paired (fun x x' => x.Corresponds (x.path = Load.rootPath) x') s.loaded.modules.toList
      s'.loaded.modules.toList := by
  have himports := imports_perm hm
  have hpaths : s.loaded.paths.Perm s'.loaded.paths := by
    refine (List.perm_ext_iff_of_nodup h.tabled.nodup h'.tabled.nodup).2 fun path => ?_
    rw [h.mem_paths_iff, h'.mem_paths_iff]
    exact ⟨fun hpath => hpath.of_imports himports.subset,
      fun hpath => hpath.of_imports himports.symm.subset⟩
  refine (paired_of_map_perm hpaths).imp_mem fun x hx x' hx' hpath => ?_
  obtain ⟨m₀, hat, hholds⟩ := h.exists_moduleAt x hx
  obtain ⟨m₀', hat', hholds'⟩ := h'.exists_moduleAt x' hx'
  rw [hpath] at hat' hholds'
  refine ⟨m₀, m₀', hholds, hholds', ?_⟩
  by_cases hroot : x.path = Load.rootPath
  · rw [moduleAt?, if_pos hroot] at hat hat'
    obtain rfl := Option.some.inj hat
    obtain rfl := Option.some.inj hat'
    rwa [decide_eq_true hroot]
  · rw [moduleAt?, if_neg hroot] at hat hat'
    obtain rfl := Option.some.inj (hat.symm.trans hat')
    exact reordered_module _ m₀

end Root

end SchemaLang
