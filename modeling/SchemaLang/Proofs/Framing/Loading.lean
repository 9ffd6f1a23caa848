import SchemaLang.Proofs.Framing.Identifiers
import SchemaLang.Proofs.Reordering.Agreement
import SchemaLang.Proofs.Reordering.Clashes

/-!
# Loading in step

Two loaders that started with different modules under the same paths, and that follow the same
imports, ask for the same paths and enter the same modules, or both of them fail:
`keepsStep_importWithin`.  So do those that start with a root and with the same and one more
declaration that imports nothing: `exists_perform_root`.
-/

namespace SchemaLang

/-! ## States that are in step -/

/-- The states hold what was entered first, which differs, and then the same modules, all of which
have the property `P`.  The same paths were asked for. -/
structure LoadState.InStep (P : Module → Prop) (ms ms' : List (String × Module))
    (s s' : LoadState) : Prop where
  entered : ∃ more, Entered (ms ++ more) s.loaded ∧ Entered (ms' ++ more) s'.loaded ∧
    ∀ x ∈ more, P x.2
  requested : s'.requested = s.requested

section InStep

variable {P : Module → Prop} {ms ms' : List (String × Module)} {s s' : LoadState}

theorem LoadState.InStep.paths (h : s.InStep P ms ms' s')
    (hms : ms'.map Prod.fst = ms.map Prod.fst) : s'.loaded.paths = s.loaded.paths := by
  obtain ⟨more, hentered, hentered', -⟩ := h.entered
  rw [hentered.paths, hentered'.paths, List.map_append, List.map_append, hms]

/-- States stay in step when the same module is asked for and entered. -/
theorem LoadState.InStep.enter (h : s.InStep P ms ms' s') {path : String} {m : Module} (hm : P m)
    {l l' : Loaded} (hl : s.loaded.enter path m = .ok l) (hl' : s'.loaded.enter path m = .ok l') :
    LoadState.InStep P ms ms' ⟨l, s.requested.push path⟩ ⟨l', s'.requested.push path⟩ := by
  obtain ⟨more, hentered, hentered', hmore⟩ := h.entered
  refine ⟨⟨more ++ [(path, m)], ?_, ?_, ?_⟩, ?_⟩
  · rw [← List.append_assoc]
    exact hentered.snoc hl
  · rw [← List.append_assoc]
    exact hentered'.snoc hl'
  · exact List.forall_mem_append.2 ⟨hmore, List.forall_mem_singleton.2 hm⟩
  · rw [h.requested]

end InStep

/-! ## Steps of loading -/

/-- From states in step, the step leads to states in step or fails in both. -/
def Load.KeepsStep (P : Module → Prop) (ms ms' : List (String × Module)) (x : Load Unit) : Prop :=
  ∀ s s' : LoadState, s.InStep P ms ms' s' →
    Agree (fun _ _ => (x.perform s).2.InStep P ms ms' (x.perform s').2) (x.perform s).1
      (x.perform s').1

section KeepsStep

variable {P : Module → Prop} {ms ms' : List (String × Module)}

theorem keepsStep_forM {f : ImportPath → Load Unit} (hf : ∀ i, (f i).KeepsStep P ms ms')
    (is : List ImportPath) : Load.KeepsStep P ms ms' (is.forM f) := by
  induction is with
  | nil => exact fun s s' h => .ok h
  | cons i is ih =>
    intro s s' h
    have hi := hf i s s' h
    rw [Load.perform_forM_cons, Load.perform_forM_cons]
    generalize (f i).perform s = o, (f i).perform s' = o' at hi
    obtain ⟨r, s₁⟩ := o
    obtain ⟨r', s₁'⟩ := o'
    cases hi with
    | error => exact .error
    | ok h => exact ih s₁ s₁' h

variable (hms : ms'.map Prod.fst = ms.map Prod.fst)
include hms

theorem keepsStep_importWith {read : Option (String → Option String)}
    {follow : String → ImportPath → Load Unit}
    (hread : ∀ f ∈ read, ∀ path m, fetch f path = .ok m → P m)
    (hfollow : ∀ path i, (follow path i).KeepsStep P ms ms') (importer : String) (i : ImportPath) :
    (Load.importWith read follow importer i).KeepsStep P ms ms' := by
  intro s s' h
  rw [Load.perform_importWith, Load.perform_importWith, h.paths hms]
  by_cases hknown : i.path ∈ s.loaded.paths
  · rw [if_pos hknown, if_pos hknown]
    exact .ok h
  · rw [if_neg hknown, if_neg hknown]
    cases read with
    | none => exact .error
    | some f =>
      dsimp only
      cases hfetch : fetch f i.path with
      | error => exact .error
      | ok m =>
        dsimp only
        -- Whether a module can be entered does not depend on the numbers that are free.
        have henter := exists_enter_iff (reordered_module false m) s.loaded s'.loaded i.path i.path
        cases hl : s.loaded.enter i.path m with
        | error =>
          cases hl' : s'.loaded.enter i.path m with
          | error => exact .error
          | ok l' =>
            obtain ⟨l, hl₁⟩ := henter.2 ⟨l', hl'⟩
            exact absurd (hl.symm.trans hl₁) nofun
        | ok l =>
          obtain ⟨l', hl'⟩ := henter.1 ⟨l, hl⟩
          rw [hl']
          exact keepsStep_forM (hfollow i.path) m.imports _ _
            (h.enter (hread f rfl i.path m hfetch) hl hl')

/-- Following an import keeps states in step, whatever the bound is. -/
theorem keepsStep_importWithin {read : Option (String → Option String)}
    (hread : ∀ f ∈ read, ∀ path m, fetch f path = .ok m → P m) (depth : Nat) :
    ∀ importer i, (Load.importWithin read depth importer i).KeepsStep P ms ms' := by
  induction depth with
  | zero =>
    refine keepsStep_importWith hms (fun f hf path m hfetch => ?_) fun _ _ s s' h => .ok h
    obtain ⟨_, -, rfl⟩ := Option.map_eq_some_iff.1 hf
    cases hfetch
  | succ depth ih => exact keepsStep_importWith hms hread ih

end KeepsStep

/-! ## One more declaration -/

/-- The module with one more declaration at the end. -/
def Module.add (m : Module) (d : Decl) : Module := { m with decls := m.decls ++ [d] }

theorem Module.imports_add {m : Module} {d : Decl} (hd : d.imports = []) :
    (m.add d).imports = m.imports := by
  rw [add, imports, List.flatMap_append, List.flatMap_singleton, hd, List.append_nil]
  rfl

theorem placeDecls_append (ds ds' : List Decl) : ∀ next : Supply,
    (placeDecls next (ds ++ ds')).1 =
      (placeDecls next ds).1 ++ (placeDecls (placeDecls next ds).2 ds').1 := by
  induction ds with
  | nil => exact fun _ => rfl
  | cons d ds ih =>
    intro next
    rw [List.cons_append, placeDecls, placeDecls, List.cons_append, ← ih]

/-- What can be entered with one more declaration can be entered without it. -/
theorem exists_enter_of_add {l : Loaded} {path : String} {m : Module} {d : Decl}
    (h : ∃ l₁, l.enter path (m.add d) = .ok l₁) : ∃ l₁, l.enter path m = .ok l₁ := by
  rw [exists_enter] at h ⊢
  refine h.sublist ?_
  have hplace : l.place (m.add d) = l.place m ++
      (placeDecls (placeDecls ⟨l.entries.size, l.scopes.size + 1⟩ m.decls).2 [d]).1 :=
    placeDecls_append m.decls [d] _
  rw [hplace, fileUses, fileUses, List.flatMap_append]
  exact List.sublist_append_left _ _

/-- If a root loads with one more declaration, which imports nothing, it loads without it, and in
step. -/
theorem exists_perform_root {P : Module → Prop} {source : Option ImportSource} {m : Module}
    {d : Decl} {s' : LoadState} (hd : d.imports = [])
    (hsource : ∀ x ∈ source, ∀ path m, fetch x.read path = .ok m → P m)
    (h : (Load.root source (m.add d)).perform ⟨.empty, #[]⟩ = (.ok (), s')) :
    ∃ s, (Load.root source m).perform ⟨.empty, #[]⟩ = (.ok (), s) ∧
      s.InStep P [(Load.rootPath, m)] [(Load.rootPath, m.add d)] s' := by
  rw [Load.root, Load.perform_bind, Load.perform_enter] at h
  cases hl' : Loaded.empty.enter Load.rootPath (m.add d) with
  | error => simp [hl'] at h
  | ok l' =>
    obtain ⟨l, hl⟩ := exists_enter_of_add ⟨l', hl'⟩
    simp only [hl', Module.imports_add hd] at h
    have hstep : LoadState.InStep P [(Load.rootPath, m)] [(Load.rootPath, m.add d)] ⟨l, #[]⟩
        ⟨l', #[]⟩ :=
      ⟨⟨[], Entered.nothing.snoc hl, Entered.nothing.snoc hl', List.forall_mem_nil _⟩, rfl⟩
    have hread : ∀ f ∈ source.map (·.read), ∀ path m, fetch f path = .ok m → P m := by
      intro f hf
      obtain ⟨x, hx, rfl⟩ := Option.map_eq_some_iff.1 hf
      exact hsource x hx
    have hmap : [(Load.rootPath, m.add d)].map Prod.fst = [(Load.rootPath, m)].map Prod.fst := rfl
    have hkeeps := keepsStep_forM (keepsStep_importWithin hmap hread
      ((source.map (·.depth)).getD 0) Load.rootPath) m.imports _ _ hstep
    rw [h] at hkeeps
    rw [Load.root, Load.perform_bind, Load.perform_enter]
    simp only [hl]
    generalize Load.perform _ _ = o at hkeeps ⊢
    obtain ⟨r, s⟩ := o
    cases hkeeps with
    | ok hkeeps => exact ⟨s, rfl, hkeeps⟩

end SchemaLang
