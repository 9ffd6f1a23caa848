import Mathlib.Data.List.Nodup
import SchemaLang.Proofs.Loading.Mentioned
import SchemaLang.Proofs.Loading.Run

/-!
# What is loaded

The paths that are loaded are those that the root reaches through imports, in the order of a depth
first walk that enters a path before those that it leads to: `LoadsRoot.preorder`.  `Reached` is the
least set of paths that contains the path of the root and every import of a module in the set.
-/

namespace SchemaLang

/-! ## Walks in preorder -/

section Preorder

variable {next : String → List String}

/-- A depth first walk through the paths `ps` when the paths `met` were met before: each path is
met before those that it leads to, and no path twice. -/
inductive Preorder (next : String → List String) : List String → List String → List String → Prop
  | done {met : List String} : Preorder next met [] met
  | skip {p : String} {ps met met' : List String} (isMet : p ∈ met)
      (rest : Preorder next met ps met') : Preorder next met (p :: ps) met'
  | visit {p : String} {ps met met₁ met' : List String} (isNew : p ∉ met)
      (below : Preorder next (met ++ [p]) (next p) met₁) (rest : Preorder next met₁ ps met') :
      Preorder next met (p :: ps) met'

namespace Preorder

variable {ps met met' : List String}

theorem met_subset (h : Preorder next met ps met') : met ⊆ met' := by
  induction h with
  | done => exact List.Subset.refl _
  | skip _ _ ih => exact ih
  | visit _ _ _ ih ihrest =>
    exact List.Subset.trans (List.Subset.trans (List.subset_append_left _ _) ih) ihrest

/-- All the paths of the walk are met. -/
theorem subset (h : Preorder next met ps met') : ps ⊆ met' := by
  induction h with
  | done => exact List.nil_subset _
  | skip isMet rest ih => exact List.cons_subset.2 ⟨rest.met_subset isMet, ih⟩
  | visit _ below rest _ ihrest =>
    have hmem := rest.met_subset (below.met_subset (List.mem_append_right _ List.mem_cons_self))
    exact List.cons_subset.2 ⟨hmem, ihrest⟩

/-- No path is met twice. -/
theorem nodup (h : Preorder next met ps met') (hmet : met.Nodup) : met'.Nodup := by
  induction h with
  | done => exact hmet
  | skip _ _ ih => exact ih hmet
  | visit isNew _ _ ih ihrest =>
    have hvisit := hmet.concat isNew
    rw [List.concat_eq_append] at hvisit
    exact ihrest (ih hvisit)

/-- Where a path that was met newly leads to is met as well. -/
theorem closed (h : Preorder next met ps met') : ∀ p ∈ met', p ∈ met ∨ next p ⊆ met' := by
  induction h with
  | done => exact fun p hp => .inl hp
  | skip _ _ ih => exact ih
  | @visit p ps met met₁ met' isNew below rest ih ihrest =>
    intro q hq
    rcases ihrest q hq with hq | hq
    · rcases ih q hq with hq | hq
      · rcases List.mem_append.1 hq with hq | hq
        · exact .inl hq
        · obtain rfl := List.mem_singleton.1 hq
          exact .inr (List.Subset.trans below.subset rest.met_subset)
      · exact .inr (List.Subset.trans hq rest.met_subset)
    · exact .inr hq

/-- A walk does not leave a set that is closed under steps. -/
theorem within {P : String → Prop} (h : Preorder next met ps met')
    (hnext : ∀ p, P p → ∀ q ∈ next p, P q) (hps : ∀ p ∈ ps, P p) (hmet : ∀ p ∈ met, P p) :
    ∀ p ∈ met', P p := by
  induction h with
  | done => exact hmet
  | skip _ _ ih => exact ih (fun p hp => hps p (List.mem_cons_of_mem _ hp)) hmet
  | @visit p ps met met₁ met' isNew below rest ih ihrest =>
    have hp := hps p List.mem_cons_self
    refine ihrest (fun q hq => hps q (List.mem_cons_of_mem _ hq)) (ih (hnext p hp) fun q hq => ?_)
    rcases List.mem_append.1 hq with hq | hq
    · exact hmet q hq
    · exact List.mem_singleton.1 hq ▸ hp

end Preorder

end Preorder

/-! ## Reachable paths -/

section Reached

variable (read : Option (String → Option String)) (root : Module)

/-- The module at a path: the root module at its own path, and elsewhere what the source answers. -/
def moduleAt? (path : String) : Option Module :=
  if path = Load.rootPath then some root else read.bind fun f => (fetch f path).toOption

/-- The paths that the module at a path imports, in the order of the source. -/
def importsAt (path : String) : List String :=
  ((moduleAt? read root path).map fun m => m.imports.map ImportPath.path).getD []

/-- The paths that the root reaches through imports. -/
inductive Reached : String → Prop
  | root : Reached Load.rootPath
  | step {path : String} {m : Module} {i : ImportPath} (isReached : Reached path)
      (found : moduleAt? read root path = some m) (mentioned : m.Mentions i) : Reached i.path

variable {read root}

theorem mem_importsAt {path path' : String} :
    path' ∈ importsAt read root path ↔
      ∃ m i, moduleAt? read root path = some m ∧ m.Mentions i ∧ i.path = path' := by
  unfold importsAt
  cases moduleAt? read root path with
  | none => simp
  | some m => simp [Module.mem_imports_iff]

end Reached

/-! ## Runs of the loader -/

variable {read : Option (String → Option String)}

/-- Following imports with success walks through their paths. -/
theorem Loads.preorder (root : Module) {importer : String} {is : List ImportPath} {s s' : LoadState}
    (h : Loads read importer is s (.ok ()) s') (hroot : Load.rootPath ∈ s.loaded.paths) :
    Preorder (importsAt read root) s.loaded.paths (is.map ImportPath.path) s'.loaded.paths := by
  generalize hr : (Except.ok () : Except SchemaError Unit) = r at h
  induction h with
  | done => exact .done
  | known isKnown _ ih => exact .skip isKnown (ih hroot hr)
  | @loaded importer i is s s₁ s' f m l r isNew source fetched entered imports _ ih ihrest =>
    have hpaths := Loaded.paths_enter entered
    have hne : i.path ≠ Load.rootPath := fun e => isNew (e ▸ hroot)
    have hnext : importsAt read root i.path = m.imports.map ImportPath.path := by
      rw [importsAt, moduleAt?, if_neg hne, source, Option.bind_some, fetched]
      rfl
    have hroot' : Load.rootPath ∈ l.paths := hpaths ▸ List.mem_append_left _ hroot
    have hbelow := ih hroot' rfl
    rw [← hnext, hpaths] at hbelow
    exact .visit isNew hbelow (ihrest (imports.paths_subset hroot') hr)
  | _ => cases hr

/-- What was asked for is what was loaded after the root, and no path was asked for twice. -/
theorem Loads.requested {importer : String} {is : List ImportPath} {s s' : LoadState}
    {r : Except SchemaError Unit} (h : Loads read importer is s r s')
    (hs : s.loaded.paths = Load.rootPath :: s.requested.toList) (hnodup : s.loaded.paths.Nodup) :
    (Load.rootPath :: s'.requested.toList).Nodup ∧
      (r = .ok () → s'.loaded.paths = Load.rootPath :: s'.requested.toList) := by
  -- A new path is not among the paths that were loaded, so not among those that were asked for.
  have hpush {s : LoadState} {path : String}
      (hs : s.loaded.paths = Load.rootPath :: s.requested.toList)
      (hnodup : s.loaded.paths.Nodup) (hnew : path ∉ s.loaded.paths) :
      s.loaded.paths ++ [path] = Load.rootPath :: (s.requested.push path).toList ∧
        (s.loaded.paths ++ [path]).Nodup := by
    refine ⟨by rw [hs, Array.toList_push, List.cons_append], ?_⟩
    have hconcat := hnodup.concat hnew
    rwa [List.concat_eq_append] at hconcat
  induction h with
  | done => exact ⟨hs ▸ hnodup, fun _ => hs⟩
  | known _ _ ih => exact ih hs hnodup
  | noSource => exact ⟨hs ▸ hnodup, nofun⟩
  | refused isNew | clash isNew =>
    obtain ⟨hcons, hnodup'⟩ := hpush hs hnodup isNew
    exact ⟨hcons ▸ hnodup', nofun⟩
  | failed isNew source fetched entered _ ih =>
    obtain ⟨hcons, hnodup'⟩ := hpush hs hnodup isNew
    rw [← Loaded.paths_enter entered] at hcons hnodup'
    exact ih hcons hnodup'
  | loaded isNew source fetched entered _ _ ih ihrest =>
    obtain ⟨hcons, hnodup'⟩ := hpush hs hnodup isNew
    rw [← Loaded.paths_enter entered] at hcons hnodup'
    obtain ⟨hnodup₁, hpaths₁⟩ := ih hcons hnodup'
    have hs₁ := hpaths₁ rfl
    exact ihrest hs₁ (hs₁ ▸ hnodup₁)

/-! ## From the root -/

variable {root : Module}

theorem LoadsRoot.requested_nodup {s : LoadState} {r : Except SchemaError Unit}
    (h : LoadsRoot read root r s) : (Load.rootPath :: s.requested.toList).Nodup := by
  cases h with
  | clash => exact List.nodup_singleton _
  | entered entered imports =>
    have hpaths := Loaded.paths_enter entered
    exact (imports.requested hpaths (by rw [hpaths]; exact List.nodup_singleton _)).1

/-- After a load with success, what was asked for is what was loaded after the root. -/
theorem LoadsRoot.paths {s : LoadState} (h : LoadsRoot read root (.ok ()) s) :
    s.loaded.paths = Load.rootPath :: s.requested.toList := by
  cases h with
  | entered entered imports =>
    have hpaths := Loaded.paths_enter entered
    exact (imports.requested hpaths (by rw [hpaths]; exact List.nodup_singleton _)).2 rfl

/-- A load with success meets the paths that it loads in preorder. -/
theorem LoadsRoot.preorder {s : LoadState} (h : LoadsRoot read root (.ok ()) s) :
    Preorder (importsAt read root) [] [Load.rootPath] s.loaded.paths := by
  cases h with
  | @entered l _ _ entered imports =>
    have hpaths := Loaded.paths_enter entered
    have hroot : Load.rootPath ∈ l.paths := hpaths ▸ List.mem_append_right _ List.mem_cons_self
    have hwalk := imports.preorder root hroot
    have hnext : importsAt read root Load.rootPath = root.imports.map ImportPath.path := by
      rw [importsAt, moduleAt?, if_pos rfl]
      rfl
    rw [hpaths, ← hnext] at hwalk
    exact .visit List.not_mem_nil hwalk .done

/-- A load with success loads exactly what the root reaches through imports. -/
theorem LoadsRoot.mem_paths_iff {s : LoadState} (h : LoadsRoot read root (.ok ()) s)
    {path : String} : path ∈ s.loaded.paths ↔ Reached read root path := by
  have hwalk := h.preorder
  constructor
  · refine hwalk.within (fun p hp q hq => ?_) (List.forall_mem_singleton.2 .root) nofun path
    obtain ⟨m, i, hm, hi, rfl⟩ := mem_importsAt.1 hq
    exact .step hp hm hi
  · intro hpath
    induction hpath with
    | root => exact hwalk.subset List.mem_cons_self
    | step isReached found mentioned ih =>
      have hnext := (hwalk.closed _ ih).resolve_left List.not_mem_nil
      exact hnext (mem_importsAt.2 ⟨_, _, found, mentioned, rfl⟩)

end SchemaLang
