import SchemaLang.Import.Load
import SchemaLang.Proofs.Outcome

/-!
# Loading without a bound

`Loads read importer is s r s'` says that following the imports `is` of the module at `importer`
from the state `s` ends with the outcome `r` in the state `s'`.  Its rules know no bound on how deep
imports may be followed.  `loads_of_perform` shows that the bounded loader does what the rules say
once its bound counts the paths that are answered, and `Loads.unique` that the rules leave no
choice.
-/

namespace SchemaLang

/-! ## Paths -/

/-- The paths of the modules that have been loaded, in the order of their numbers. -/
def Loaded.paths (l : Loaded) : List String := l.modules.toList.map LoadedModule.path

theorem Loaded.isSome_moduleOf?_iff {l : Loaded} {path : String} :
    (l.moduleOf? path).isSome ↔ path ∈ l.paths := by
  rw [moduleOf?, Array.findIdx?_isSome, Array.any_eq_true', paths, List.mem_map]
  simp only [decide_eq_true_eq, Array.mem_toList_iff]

/-- What is entered comes last. -/
theorem Loaded.paths_enter {l l' : Loaded} {path : String} {m : Module}
    (h : l.enter path m = .ok l') : l'.paths = l.paths ++ [path] := by
  unfold enter at h
  dsimp only at h
  split at h
  · cases h
  · obtain rfl := Except.ok.inj h
    simp [paths]

/-- The state after a path was asked for. -/
def LoadState.request (s : LoadState) (path : String) : LoadState :=
  { s with requested := s.requested.push path }

/-- What a source answers to a path, read as a module. -/
def fetch (read : String → Option String) (path : String) : Except ImportCause Module :=
  match read path with
  | none => .error .notFound
  | some text => (Module.parse text).mapError .parse

theorem parse_of_fetch {f : String → Option String} {path : String} {m : Module}
    (h : fetch f path = .ok m) : ∃ text, f path = some text ∧ Module.parse text = .ok m := by
  rw [fetch] at h
  cases htext : f path with
  | none =>
    rw [htext] at h
    cases h
  | some text =>
    rw [htext] at h
    dsimp only at h
    cases hparse : Module.parse text with
    | error e =>
      rw [hparse] at h
      cases h
    | ok m' =>
      rw [hparse] at h
      have hsome : (.ok m' : Except ImportCause Module) = .ok m := h
      exact ⟨text, rfl, hparse.trans (congrArg _ (Except.ok.inj hsome))⟩

theorem isSome_of_fetch {f : String → Option String} {path : String} {m : Module}
    (h : fetch f path = .ok m) : (f path).isSome := by
  obtain ⟨text, htext, -⟩ := parse_of_fetch h
  rw [htext]
  rfl

/-- What a list finds by a key is in the list with this key. -/
theorem mem_of_lookup {α : Type} {ps : List (String × α)} {key : String} {a : α}
    (h : ps.lookup key = some a) : (key, a) ∈ ps := by
  obtain ⟨before, after, rfl, -⟩ := List.lookup_eq_some_iff.1 h
  exact List.mem_append_right _ List.mem_cons_self

/-! ## The rules -/

section Rules

variable (read : Option (String → Option String))

/-- Following the imports of the module at a path, one after another.  A path that is not known yet
is asked for, and the module that it is answered with is entered before its own imports are
followed. -/
inductive Loads : String → List ImportPath → LoadState → Except SchemaError Unit → LoadState → Prop
  | done {importer : String} {s : LoadState} : Loads importer [] s (.ok ()) s
  | known {importer : String} {i : ImportPath} {is : List ImportPath} {s s' : LoadState}
      {r : Except SchemaError Unit} (isKnown : i.path ∈ s.loaded.paths)
      (rest : Loads importer is s r s') : Loads importer (i :: is) s r s'
  | noSource {importer : String} {i : ImportPath} {is : List ImportPath} {s : LoadState}
      (isNew : i.path ∉ s.loaded.paths) (source : read = none) :
      Loads importer (i :: is) s (.error (.importing ⟨importer, i.span, i.path, .noSource⟩)) s
  | refused {importer : String} {i : ImportPath} {is : List ImportPath} {s : LoadState}
      {f : String → Option String} {cause : ImportCause} (isNew : i.path ∉ s.loaded.paths)
      (source : read = some f) (fetched : fetch f i.path = .error cause) :
      Loads importer (i :: is) s (.error (.importing ⟨importer, i.span, i.path, cause⟩))
        (s.request i.path)
  | clash {importer : String} {i : ImportPath} {is : List ImportPath} {s : LoadState}
      {f : String → Option String} {m : Module} {e : SchemaError}
      (isNew : i.path ∉ s.loaded.paths) (source : read = some f)
      (fetched : fetch f i.path = .ok m) (entered : s.loaded.enter i.path m = .error e) :
      Loads importer (i :: is) s (.error e) (s.request i.path)
  | failed {importer : String} {i : ImportPath} {is : List ImportPath} {s s' : LoadState}
      {f : String → Option String} {m : Module} {l : Loaded} {e : SchemaError}
      (isNew : i.path ∉ s.loaded.paths) (source : read = some f)
      (fetched : fetch f i.path = .ok m) (entered : s.loaded.enter i.path m = .ok l)
      (imports : Loads i.path m.imports ⟨l, s.requested.push i.path⟩ (.error e) s') :
      Loads importer (i :: is) s (.error e) s'
  | loaded {importer : String} {i : ImportPath} {is : List ImportPath} {s s₁ s' : LoadState}
      {f : String → Option String} {m : Module} {l : Loaded} {r : Except SchemaError Unit}
      (isNew : i.path ∉ s.loaded.paths) (source : read = some f)
      (fetched : fetch f i.path = .ok m) (entered : s.loaded.enter i.path m = .ok l)
      (imports : Loads i.path m.imports ⟨l, s.requested.push i.path⟩ (.ok ()) s₁)
      (rest : Loads importer is s₁ r s') : Loads importer (i :: is) s r s'

/-- Loading a root module: it is entered under a path of its own, and its imports are followed. -/
inductive LoadsRoot (m : Module) : Except SchemaError Unit → LoadState → Prop
  | clash {e : SchemaError} (entered : Loaded.empty.enter Load.rootPath m = .error e) :
      LoadsRoot m (.error e) ⟨.empty, #[]⟩
  | entered {l : Loaded} {s : LoadState} {r : Except SchemaError Unit}
      (entered : Loaded.empty.enter Load.rootPath m = .ok l)
      (imports : Loads read Load.rootPath m.imports ⟨l, #[]⟩ r s) : LoadsRoot m r s

end Rules

variable {read : Option (String → Option String)}

theorem fetch_unique {f f' : String → Option String} {path : String}
    {x x' : Except ImportCause Module} (source : read = some f) (source' : read = some f')
    (fetched : fetch f path = x) (fetched' : fetch f' path = x') : x = x' := by
  obtain rfl := Option.some.inj (source.symm.trans source')
  exact fetched.symm.trans fetched'

/-- The rules leave no choice. -/
theorem Loads.unique {importer : String} {is : List ImportPath} {s s₁ s₂ : LoadState}
    {r₁ r₂ : Except SchemaError Unit} (h₁ : Loads read importer is s r₁ s₁)
    (h₂ : Loads read importer is s r₂ s₂) : r₁ = r₂ ∧ s₁ = s₂ := by
  induction h₁ generalizing r₂ s₂ with
  | done =>
    cases h₂
    exact ⟨rfl, rfl⟩
  | known isKnown _ ih =>
    cases h₂ with
    | known _ rest => exact ih rest
    | _ => contradiction
  | noSource isNew source =>
    cases h₂ with
    | known => contradiction
    | noSource => exact ⟨rfl, rfl⟩
    | _ => simp_all
  | refused isNew source fetched =>
    cases h₂ with
    | refused _ source' fetched' =>
      obtain rfl := Except.error.inj (fetch_unique source source' fetched fetched')
      exact ⟨rfl, rfl⟩
    | _ => simp_all
  | clash isNew source fetched entered =>
    cases h₂ with
    | clash _ source' fetched' entered' =>
      obtain rfl := Except.ok.inj (fetch_unique source source' fetched fetched')
      obtain rfl := Except.error.inj (entered.symm.trans entered')
      exact ⟨rfl, rfl⟩
    | _ => simp_all
  | failed isNew source fetched entered _ ih =>
    cases h₂ with
    | failed _ source' fetched' entered' imports =>
      obtain rfl := Except.ok.inj (fetch_unique source source' fetched fetched')
      obtain rfl := Except.ok.inj (entered.symm.trans entered')
      exact ih imports
    | loaded _ source' fetched' entered' imports =>
      obtain rfl := Except.ok.inj (fetch_unique source source' fetched fetched')
      obtain rfl := Except.ok.inj (entered.symm.trans entered')
      exact absurd (ih imports).1 nofun
    | _ => simp_all
  | loaded isNew source fetched entered _ _ ih ihrest =>
    cases h₂ with
    | failed _ source' fetched' entered' imports =>
      obtain rfl := Except.ok.inj (fetch_unique source source' fetched fetched')
      obtain rfl := Except.ok.inj (entered.symm.trans entered')
      exact absurd (ih imports).1 nofun
    | loaded _ source' fetched' entered' imports rest =>
      obtain rfl := Except.ok.inj (fetch_unique source source' fetched fetched')
      obtain rfl := Except.ok.inj (entered.symm.trans entered')
      obtain ⟨-, rfl⟩ := ih imports
      exact ihrest rest
    | _ => simp_all

/-- Following imports never takes away a module. -/
theorem Loads.paths_subset {importer : String} {is : List ImportPath} {s s' : LoadState}
    {r : Except SchemaError Unit} (h : Loads read importer is s r s') :
    s.loaded.paths ⊆ s'.loaded.paths := by
  induction h with
  | done | noSource | refused | clash => exact List.Subset.refl _
  | known _ _ ih => exact ih
  | failed _ _ _ entered _ ih =>
    rw [Loaded.paths_enter entered] at ih
    exact List.Subset.trans (List.subset_append_left _ _) ih
  | loaded _ _ _ entered _ _ ih ihrest =>
    rw [Loaded.paths_enter entered] at ih
    exact List.Subset.trans (List.Subset.trans (List.subset_append_left _ _) ih) ihrest

/-! ## The bounded loader -/

namespace Load

/-- What a step of loading comes to. -/
def perform {α : Type} (x : Load α) (s : LoadState) : Except SchemaError α × LoadState :=
  x.run.run s

section Perform

variable {α β : Type} {s : LoadState}

theorem perform_pure (a : α) : (pure a : Load α).perform s = (.ok a, s) := rfl

theorem perform_get : (get : Load LoadState).perform s = (.ok s, s) := rfl

theorem perform_modify (f : LoadState → LoadState) :
    (modify f : Load Unit).perform s = (.ok (), f s) := rfl

theorem perform_bind (x : Load α) (f : α → Load β) :
    (x >>= f).perform s = match x.perform s with
      | (.ok a, s) => (f a).perform s
      | (.error e, s) => (.error e, s) := by
  unfold perform
  rw [ExceptT.run_bind, StateT.run_bind]
  generalize x.run.run s = outcome
  obtain ⟨_ | a, s'⟩ := outcome <;> rfl

theorem perform_forM_cons (f : ImportPath → Load Unit) (i : ImportPath) (is : List ImportPath) :
    ((i :: is).forM f : Load Unit).perform s = match (f i).perform s with
      | (.ok (), s) => (is.forM f : Load Unit).perform s
      | (.error e, s) => (.error e, s) := by
  refine (perform_bind (f i) fun _ => is.forM f).trans ?_
  generalize (f i).perform s = outcome
  obtain ⟨_ | _, s'⟩ := outcome <;> rfl

theorem perform_enter (path : String) (m : Module) :
    (enter path m).perform s = match s.loaded.enter path m with
      | .ok l => (.ok (), { s with loaded := l })
      | .error e => (.error e, s) := by
  rw [enter, perform_bind, perform_get]
  dsimp only
  cases s.loaded.enter path m <;> rfl

/-- One step of following imports: a path is asked for if it is new, and then what was read is
entered and its imports are followed. -/
theorem perform_importWith (read : Option (String → Option String))
    (follow : String → ImportPath → Load Unit) (importer : String) (i : ImportPath) :
    (importWith read follow importer i).perform s =
      if i.path ∈ s.loaded.paths then (.ok (), s) else match read with
      | none => (.error (.importing ⟨importer, i.span, i.path, .noSource⟩), s)
      | some f => match fetch f i.path with
        | .error cause => (.error (.importing ⟨importer, i.span, i.path, cause⟩), s.request i.path)
        | .ok m => match s.loaded.enter i.path m with
          | .error e => (.error e, s.request i.path)
          | .ok l => (m.imports.forM (follow i.path) : Load Unit).perform
              ⟨l, s.requested.push i.path⟩ := by
  rw [importWith, perform_bind, perform_get]
  dsimp only
  by_cases h : i.path ∈ s.loaded.paths
  · rw [if_pos h, if_pos (Loaded.isSome_moduleOf?_iff.2 h), perform_pure]
  · rw [if_neg h, if_neg (mt Loaded.isSome_moduleOf?_iff.1 h)]
    cases read with
    | none => rfl
    | some f =>
      dsimp only
      rw [perform_bind, perform_modify, fetch]
      dsimp only
      cases f i.path with
      | none => rfl
      | some text =>
        dsimp only
        cases Module.parse text with
        | error e => rfl
        | ok m =>
          dsimp only [Except.mapError]
          rw [perform_bind, perform_enter]
          dsimp only
          cases s.loaded.enter i.path m <;> rfl

end Perform

end Load

/-! ## The bound is enough -/

/-- How many of the paths have not been loaded. -/
def LoadState.room (answers : List String) (s : LoadState) : Nat :=
  answers.countP fun path => path ∉ s.loaded.paths

theorem LoadState.room_le_of_subset (answers : List String) {s s' : LoadState}
    (h : s.loaded.paths ⊆ s'.loaded.paths) : s'.room answers ≤ s.room answers := by
  refine List.countP_mono_left fun path _ hpath => ?_
  simp only [decide_eq_true_eq] at hpath ⊢
  exact fun hmem => hpath (h hmem)

/-- Entering an answered path that is new leaves less room. -/
theorem LoadState.room_lt_of_mem {answers : List String} {s s' : LoadState} {path : String}
    (hanswer : path ∈ answers) (hnew : path ∉ s.loaded.paths)
    (h : s'.loaded.paths = s.loaded.paths ++ [path]) : s'.room answers < s.room answers := by
  obtain ⟨before, after, rfl⟩ := List.append_of_mem hanswer
  have hsub : s.loaded.paths ⊆ s'.loaded.paths := by
    rw [h]
    exact List.subset_append_left _ _
  have hbefore := room_le_of_subset before hsub
  have hafter := room_le_of_subset after hsub
  have hmem : path ∈ s'.loaded.paths := by simp [h]
  unfold room at *
  simp only [List.countP_append, List.countP_cons, hmem, hnew, not_true_eq_false, not_false_eq_true,
    decide_false, decide_true, Bool.false_eq_true, if_false, if_true]
  omega

theorem LoadState.not_mem_of_room {answers : List String} {s : LoadState} {path : String}
    (h : s.room answers = 0) (hnew : path ∉ s.loaded.paths) : path ∉ answers := by
  intro hmem
  have := List.countP_eq_zero.1 h path hmem
  simp [hnew] at this

/-- The source answers no path outside the list. -/
def AnswersWithin (answers : List String) (read : Option (String → Option String)) : Prop :=
  ∀ f ∈ read, ∀ path, (f path).isSome → path ∈ answers

/-- What a loader does follows the rules where what it does below a module does: always when it
succeeds, and else in states that are `enough`, which stay so as more is loaded. -/
theorem loads_of_importWith {read : Option (String → Option String)}
    {follow : String → ImportPath → Load Unit} (enough : LoadState → Prop)
    (hgrow : ∀ s s' : LoadState, s.loaded.paths ⊆ s'.loaded.paths → enough s → enough s')
    (hfollow : ∀ (path : String) (m : Module) (l : Loaded) (s s' : LoadState)
      (r : Except SchemaError Unit), path ∉ s.loaded.paths →
      (∃ f ∈ read, fetch f path = .ok m) → s.loaded.enter path m = .ok l →
      (m.imports.forM (follow path) : Load Unit).perform ⟨l, s.requested.push path⟩ = (r, s') →
      (r = .ok () ∨ enough s) → Loads read path m.imports ⟨l, s.requested.push path⟩ r s')
    (importer : String) (is : List ImportPath) :
    ∀ (s s' : LoadState) (r : Except SchemaError Unit),
      (is.forM (Load.importWith read follow importer) : Load Unit).perform s = (r, s') →
      (r = .ok () ∨ enough s) → Loads read importer is s r s' := by
  induction is with
  | nil =>
    intro s s' r h _
    obtain ⟨rfl, rfl⟩ := Prod.mk.inj h
    exact .done
  | cons i is ih =>
    intro s s' r h henough
    rw [Load.perform_forM_cons, Load.perform_importWith] at h
    by_cases hknown : i.path ∈ s.loaded.paths
    · rw [if_pos hknown] at h
      exact .known hknown (ih s s' r h henough)
    · rw [if_neg hknown] at h
      cases read with
      | none =>
        obtain ⟨rfl, rfl⟩ := Prod.mk.inj h
        exact .noSource hknown rfl
      | some f =>
        dsimp only at h
        cases hfetch : fetch f i.path with
        | error cause =>
          rw [hfetch] at h
          obtain ⟨rfl, rfl⟩ := Prod.mk.inj h
          exact .refused hknown rfl hfetch
        | ok m =>
          rw [hfetch] at h
          dsimp only at h
          cases henter : s.loaded.enter i.path m with
          | error e =>
            rw [henter] at h
            obtain ⟨rfl, rfl⟩ := Prod.mk.inj h
            exact .clash hknown rfl hfetch henter
          | ok l =>
            rw [henter] at h
            dsimp only at h
            have hbelow := hfollow i.path m l s
            generalize Load.perform _ _ = outcome at h hbelow
            obtain ⟨e | _, s₁⟩ := outcome
            · obtain ⟨rfl, rfl⟩ := Prod.mk.inj h
              have himports := hbelow _ _ hknown ⟨f, rfl, hfetch⟩ henter rfl henough
              exact .failed hknown rfl hfetch henter himports
            · have himports := hbelow _ _ hknown ⟨f, rfl, hfetch⟩ henter rfl (.inl rfl)
              have hsub := himports.paths_subset
              rw [Loaded.paths_enter henter] at hsub
              have hsub := List.Subset.trans (List.subset_append_left _ _) hsub
              have hrest := ih s₁ s' r h (henough.imp_right (hgrow s s₁ hsub))
              exact .loaded hknown rfl hfetch henter himports hrest

/-- What happens without any answer happens with a source that answers no more than is loaded. -/
theorem Loads.of_unanswered {read : Option (String → Option String)} {importer : String}
    {is : List ImportPath} {s s' : LoadState} {r : Except SchemaError Unit}
    (h : Loads (read.map fun _ _ => none) importer is s r s')
    (hr : r = .ok () ∨ ∀ f ∈ read, ∀ path, (f path).isSome → path ∈ s.loaded.paths) :
    Loads read importer is s r s' := by
  have hnever {f : String → Option String} {path : String} {m : Module}
      (source : (read.map fun _ _ => none) = some f) (fetched : fetch f path = .ok m) : False := by
    obtain ⟨_, -, rfl⟩ := Option.map_eq_some_iff.1 source
    cases fetched
  induction h with
  | done => exact .done
  | known isKnown _ ih => exact .known isKnown (ih hr)
  | noSource isNew source => exact .noSource isNew (Option.map_eq_none_iff.1 source)
  | @refused importer i is s f cause isNew source fetched =>
    obtain ⟨g, hg, rfl⟩ := Option.map_eq_some_iff.1 source
    obtain rfl := Except.error.inj fetched
    have hnone : g i.path = none := by
      rw [← Option.not_isSome_iff_eq_none]
      exact fun hsome => isNew (hr.resolve_left nofun g hg i.path hsome)
    exact .refused isNew hg (by rw [fetch, hnone])
  | clash _ source fetched => exact (hnever source fetched).elim
  | failed _ source fetched => exact (hnever source fetched).elim
  | loaded _ source fetched => exact (hnever source fetched).elim

/-- What the bounded loader does follows the rules, if it succeeds or if it has room for every path
that is answered. -/
theorem loads_of_perform {read : Option (String → Option String)} (d : Nat) :
    ∀ (importer : String) (is : List ImportPath) (s s' : LoadState) (r : Except SchemaError Unit),
      (is.forM (Load.importWithin read d importer) : Load Unit).perform s = (r, s') →
      (r = .ok () ∨ ∃ answers, AnswersWithin answers read ∧ s.room answers ≤ d) →
      Loads read importer is s r s' := by
  induction d with
  | zero =>
    intro importer is s s' r h hroom
    have hloads : Loads (read.map fun _ _ => none) importer is s r s' := by
      refine loads_of_importWith (fun _ => True) (fun _ _ _ _ => trivial) ?_ _ _ _ _ _ h
        (.inr trivial)
      rintro path m l s s' r - ⟨f, hf, hfetch⟩
      obtain ⟨_, -, rfl⟩ := Option.map_eq_some_iff.1 hf
      cases hfetch
    refine hloads.of_unanswered (hroom.imp_right ?_)
    rintro ⟨answers, hanswers, hroom⟩ f hf path hpath
    refine Decidable.byContradiction fun hnew => ?_
    exact LoadState.not_mem_of_room (Nat.le_zero.1 hroom) hnew (hanswers f hf path hpath)
  | succ d ih =>
    intro importer is s s' r h
    refine loads_of_importWith (fun s => ∃ answers, AnswersWithin answers read ∧
      s.room answers ≤ d + 1) (fun s s' hsub => ?_) ?_ _ _ _ _ _ h
    · rintro ⟨answers, hanswers, hroom⟩
      exact ⟨answers, hanswers, Nat.le_trans (LoadState.room_le_of_subset answers hsub) hroom⟩
    · rintro path m l s s' r hnew ⟨f, hf, hfetch⟩ henter hfollow hroom
      refine ih _ _ _ _ _ hfollow (hroom.imp_right ?_)
      rintro ⟨answers, hanswers, hroom⟩
      have hanswer := hanswers f hf path (isSome_of_fetch hfetch)
      have hless : LoadState.room answers ⟨l, s.requested.push path⟩ < s.room answers :=
        LoadState.room_lt_of_mem hanswer hnew (Loaded.paths_enter henter)
      exact ⟨answers, hanswers, by omega⟩

theorem Load.perform_importWithin_known {s : LoadState} {i : ImportPath}
    (h : i.path ∈ s.loaded.paths) (d : Nat) (importer : String) :
    (importWithin read d importer i).perform s = (.ok (), s) := by
  cases d with
  | zero => rw [importWithin, perform_importWith, if_pos h]
  | succ d => rw [importWithin, perform_importWith, if_pos h]

/-- What succeeds by the rules succeeds in the bounded loader, once its bound is large enough. -/
theorem Loads.exists_perform {importer : String} {is : List ImportPath} {s s' : LoadState}
    (h : Loads read importer is s (.ok ()) s') :
    ∃ d, ∀ d' ≥ d, (is.forM (Load.importWithin read d' importer) : Load Unit).perform s =
      (.ok (), s') := by
  generalize hr : (Except.ok () : Except SchemaError Unit) = r at h
  induction h with
  | done => exact ⟨0, fun _ _ => Load.perform_pure ()⟩
  | known isKnown _ ih =>
    obtain ⟨d, hd⟩ := ih hr
    refine ⟨d, fun d' hd' => ?_⟩
    rw [Load.perform_forM_cons, Load.perform_importWithin_known isKnown]
    exact hd d' hd'
  | loaded isNew source fetched entered _ _ ih ihrest =>
    obtain ⟨d, hd⟩ := ih rfl
    obtain ⟨drest, hdrest⟩ := ihrest hr
    refine ⟨max (d + 1) drest, fun d' hd' => ?_⟩
    obtain ⟨d', rfl⟩ : ∃ n, d' = n + 1 := ⟨d' - 1, by omega⟩
    subst source
    rw [Load.perform_forM_cons, Load.importWithin, Load.perform_importWith, if_neg isNew]
    simp only [fetched, entered]
    rw [hd d' (by omega)]
    exact hdrest (d' + 1) (by omega)
  | _ => cases hr

/-! ## The root -/

/-- The source answers finitely many paths, and its bound counts them all. -/
def ImportSource.Bounded (source : ImportSource) : Prop :=
  ∃ answers : List String, answers.length ≤ source.depth ∧ AnswersWithin answers (some source.read)

/-- A list of files is a source with a bound that is enough. -/
theorem ImportSource.bounded_ofList (files : List (String × String)) :
    (ImportSource.ofList files).Bounded := by
  refine ⟨files.map Prod.fst, by simp [ofList], ?_⟩
  rintro f hf path hpath
  obtain rfl := Option.some.inj hf
  obtain ⟨text, htext⟩ := Option.isSome_iff_exists.1 hpath
  exact List.mem_map_of_mem (mem_of_lookup htext)

/-- Loading a root module follows the rules, if it succeeds or if the bound of its source is
enough. -/
theorem loadsRoot_of_perform {source : Option ImportSource} {m : Module} {s : LoadState}
    {r : Except SchemaError Unit} (h : (Load.root source m).perform ⟨.empty, #[]⟩ = (r, s))
    (hsource : r = .ok () ∨ ∀ x ∈ source, x.Bounded) :
    LoadsRoot (source.map ImportSource.read) m r s := by
  rw [Load.root, Load.perform_bind, Load.perform_enter] at h
  dsimp only at h
  cases henter : Loaded.empty.enter Load.rootPath m with
  | error e =>
    rw [henter] at h
    obtain ⟨rfl, rfl⟩ := Prod.mk.inj h
    exact .clash henter
  | ok l =>
    rw [henter] at h
    refine .entered henter (loads_of_perform _ _ _ _ _ _ h (hsource.imp_right fun hbounded => ?_))
    cases source with
    | none => exact ⟨[], nofun, Nat.zero_le _⟩
    | some x =>
      obtain ⟨answers, hlength, hanswers⟩ := hbounded x rfl
      exact ⟨answers, hanswers, Nat.le_trans List.countP_le_length hlength⟩

/-- Loading a root module with success by the rules succeeds in the bounded loader, once its bound
is large enough. -/
theorem LoadsRoot.exists_perform {m : Module} {s : LoadState} (h : LoadsRoot read m (.ok ()) s) :
    ∃ d, ∀ d' ≥ d, (Load.root (read.map fun f => ⟨f, d'⟩) m).perform ⟨.empty, #[]⟩ =
      (.ok (), s) := by
  cases h with
  | entered entered imports =>
    obtain ⟨d, hd⟩ := imports.exists_perform
    refine ⟨d, fun d' hd' => ?_⟩
    rw [Load.root, Load.perform_bind, Load.perform_enter]
    simp only [entered]
    cases read with
    | some f => exact hd d' hd'
    | none =>
      -- Without a source nothing is followed, whatever the bound is.
      have hsame : Load.importWithin none d' = Load.importWithin none 0 := by cases d' <;> rfl
      have hperform := hd d' hd'
      rwa [hsame] at hperform

theorem LoadsRoot.unique {m : Module} {s₁ s₂ : LoadState} {r₁ r₂ : Except SchemaError Unit}
    (h₁ : LoadsRoot read m r₁ s₁) (h₂ : LoadsRoot read m r₂ s₂) : r₁ = r₂ ∧ s₁ = s₂ := by
  cases h₁ with
  | clash entered =>
    cases h₂ with
    | clash entered' =>
      obtain rfl := Except.error.inj (entered.symm.trans entered')
      exact ⟨rfl, rfl⟩
    | entered entered' => exact absurd (entered.symm.trans entered') nofun
  | entered entered imports =>
    cases h₂ with
    | clash entered' => exact absurd (entered.symm.trans entered') nofun
    | entered entered' imports' =>
      obtain rfl := Except.ok.inj (entered.symm.trans entered')
      exact imports.unique imports'

end SchemaLang
