import SchemaLang.Proofs.Framing.Loading
import SchemaLang.Proofs.Reordering.States

/-!
# States with one more declaration

`Loaded.Extended ρ p l l'` says that `l'` holds what `l` does, with the numbers that `ρ` gives, and
the declaration `p` besides, as the last one at file scope of the first module.  States that were
loaded in step are so related: `exists_extended`.  What can be looked up in them is then the same,
as long as the name of `p` is not mentioned: `Loaded.Extended.renamed`.
-/

namespace SchemaLang

/-! ## Rows that correspond -/

section Rows

variable {α β : Type} {R : α → β → Prop} {as : List α} {bs : List β}

theorem forall₂_rows {f : Nat → Nat} (hf : ∀ i, f i = i) (h : List.Forall₂ R as bs) :
    ∀ k, List.Forall₂ (Rows R f) (as.zipIdx k) (bs.zipIdx k) := by
  induction h with
  | nil => exact fun _ => .nil
  | cons hab _ ih => exact fun k => .cons ⟨hab, (hf k).symm⟩ (ih (k + 1))

theorem Paired.sum_le {f : α → Nat} {g : β → Nat} (h : Paired R as bs)
    (hfg : ∀ a b, R a b → f a ≤ g b) : (as.map f).sum ≤ (bs.map g).sum := by
  obtain ⟨cs, hcs, hbs⟩ := h
  rw [← (hbs.map g).sum_nat]
  refine List.Forall₂.sum_le_sum ?_
  rw [List.forall₂_map_left_iff, List.forall₂_map_right_iff]
  exact hcs.imp hfg

/-- Numbers that are kept, or that are past all, are none of the others. -/
theorem not_mem_of_past {kept more : List Nat} {n k : Nat} (h : (kept ++ more).Perm (List.range n))
    (hk : k ∈ kept ∨ n ≤ k) : k ∉ more := by
  intro hmore
  rcases hk with hk | hk
  · exact List.disjoint_of_nodup_append (h.nodup_iff.2 List.nodup_range) hk hmore
  · have hless := List.mem_range.1 (h.subset (List.mem_append_right _ hmore))
    omega

end Rows

/-! ## States that hold one more declaration -/

/-- The second state holds the modules of the first one with other numbers and, as the last
declaration at file scope of the first module, the declaration `p`, whose numbers are no others. -/
structure Loaded.Extended (ρ : Renaming) (p : PlacedDecl) (l l' : Loaded) : Prop where
  module : ∀ id, ρ.module id = id
  declInjective : Function.Injective ρ.decl
  scopeInjective : Function.Injective ρ.scope
  modules : ∃ x xs ds, l'.modules.toList = x :: xs ∧ x.decls = ds ++ [p] ∧
    List.Forall₂ (LoadedModule.Reordered ρ false) l.modules.toList ({ x with decls := ds } :: xs)
  decls : ∀ id, ρ.decl id ∉ p.ids
  scopes : ∀ scope, ρ.scope scope ∉ p.scopeIds

theorem corresponds_of_holds {ms : List (String × Module)} {xs xs' : List LoadedModule}
    (h : List.Forall₂ (fun p x => LoadedModule.Holds x p.1 p.2) ms xs)
    (h' : List.Forall₂ (fun p x => LoadedModule.Holds x p.1 p.2) ms xs') :
    List.Forall₂ (LoadedModule.Corresponds false) xs xs' := by
  induction h generalizing xs' with
  | nil =>
    cases h'
    exact .nil
  | @cons p x ms xs hx _ ih =>
    obtain _ | ⟨hx', h'⟩ := h'
    refine .cons ⟨p.2, p.2, ?_, ?_, reordered_module false p.2⟩ (ih h')
    · rwa [hx.path]
    · rwa [hx.path]

section Exists

variable {path : String} {m : Module} {d : Decl} {more : List (String × Module)} {l l' : Loaded}

/-- States that were entered alike, but for one more declaration in the first module, are the same
but for this declaration and its numbers. -/
theorem exists_extended (h : Entered ((path, m) :: more) l)
    (h' : Entered ((path, m.add d) :: more) l') : ∃ ρ p, p.tree = d ∧ l.Extended ρ p l' := by
  obtain ⟨x, xs, hx, hxs, hmodules⟩ := List.forall₂_cons_left_iff.1 h'.holds
  obtain ⟨ds, ps, hdecls, hds, hps⟩ := List.map_eq_append_iff.1 hx.decls
  obtain ⟨p, rfl, rfl⟩ := List.map_eq_singleton_iff.1 hps
  have hkept : List.Forall₂ (fun p x => LoadedModule.Holds x p.1 p.2) ((path, m) :: more)
      ({ x with decls := ds } :: xs) :=
    .cons ⟨hx.path, hx.fileId, hx.annotations, hds⟩ hxs
  have hmatches := matches_flatMap
    ((corresponds_of_holds h.holds hkept).imp fun _ _ hx => hx.matches)
  -- The numbers of the second state are those that match and those of the declaration.
  have hids : ((({ x with decls := ds } :: xs).flatMap fun x => x.decls.flatMap PlacedDecl.ids) ++
      p.ids).Perm (List.range l'.entries.size) := by
    rw [← h'.wellPlaced.ids, hmodules, List.flatMap_cons, List.flatMap_cons, hdecls,
      List.flatMap_append, List.flatMap_singleton, List.append_assoc, List.append_assoc]
    exact List.perm_append_comm.append_left _
  have hscopes : ((({ x with decls := ds } :: xs).flatMap LoadedModule.scopeIds) ++
      p.scopeIds).Perm (List.range l'.scopes.size) := by
    rw [← h'.scopesPlaced.ids, hmodules, List.flatMap_cons, List.flatMap_cons,
      LoadedModule.scopeIds, LoadedModule.scopeIds, hdecls, List.flatMap_append,
      List.flatMap_singleton, List.append_assoc, List.cons_append, List.cons_append,
      List.append_assoc]
    exact (List.perm_append_comm.append_left _).cons _
  have hnodup {ids : List Nat} {n : Nat} (hids : ids = List.range n) : ids.Nodup :=
    hids ▸ List.nodup_range
  have hkeptNodup {kept more : List Nat} {n : Nat} (hperm : (kept ++ more).Perm (List.range n)) :
      kept.Nodup := (hperm.nodup_iff.2 List.nodup_range).of_append_left
  obtain ⟨ρ, hrows, hmodule, hdecl, hscope, hpast, hpast'⟩ :=
    hmatches.exists_renaming_past (hnodup h.wellPlaced.ids) (hkeptNodup hids)
      (hnodup h.scopesPlaced.ids) (hkeptNodup hscopes) id l'.entries.size l'.scopes.size
  exact ⟨ρ, p, rfl, fun id => congrFun hmodule id, hdecl, hscope,
    ⟨x, xs, ds, hmodules, hdecls, hrows⟩, fun id => not_mem_of_past hids (hpast id),
    fun scope => not_mem_of_past hscopes (hpast' scope)⟩

end Exists

/-! ## Scopes that bind one more name -/

/-- A scope and the same with other numbers, which may bind more names but none that is known. -/
structure Scope.Widened (ρ : Renaming) (known : String → Prop) (s s' : Scope) : Prop where
  enclosing : s'.enclosing = s.enclosing.map ρ.scope
  name? : ∀ name, known name → s'.name? name = (s.name? name).map ρ.decl
  alias? : ∀ name, known name → s'.alias? name = s.alias? name
  aliases : s.aliases.length ≤ s'.aliases.length

section Scope

variable {ρ : Renaming} {known : String → Prop} {s s' : Scope}

theorem Scope.Renamed.widened (h : s.Renamed ρ s') (hs : s.Distinct) : s.Widened ρ known s' :=
  ⟨h.enclosing, fun name _ => h.name? hs name, fun name _ => h.alias? hs name,
    h.aliases.length_eq.le⟩

theorem lookup_append_of_ne {α : Type} {ps qs : List (String × α)} {key : String}
    (h : ∀ q ∈ qs, q.1 ≠ key) : (ps ++ qs).lookup key = ps.lookup key := by
  have hnone : qs.lookup key = none := by
    rw [List.lookup_eq_none_iff]
    exact fun q hq => bne_iff_ne.2 (h q hq).symm
  rw [List.lookup_append, hnone, Option.or_none]

/-- What a declaration declares or aliases goes by the name that it binds. -/
theorem PlacedDecl.binding_of_declared? {d : PlacedDecl} {x : DeclId × Ident}
    (h : d.declared? = some x) : d.tree.binding = some x.2 := by
  cases d with
  | pathAlias | importAlias => cases h
  | _ =>
    obtain rfl := Option.some.inj h
    rfl

theorem PlacedDecl.binding_of_aliased? {d : PlacedDecl} {x : Ident × AliasTarget}
    (h : d.aliased? = some x) : d.tree.binding = some x.1 := by
  cases d with
  | pathAlias a | importAlias a =>
    obtain ⟨i, hi, rfl⟩ := Option.map_eq_some_iff.1 h
    exact hi
  | _ => cases h

/-- The scope of a file may as well bind the unknown name of one more declaration. -/
theorem Scope.Widened.add {module : ModuleId} {enclosing : List ScopeId} {ds : List PlacedDecl}
    (h : s.Widened ρ known (.binding module enclosing (ds.filterMap (·.declared?))
      (ds.filterMap (·.aliased?)))) {p : PlacedDecl} (hp : ∀ i ∈ p.tree.binding, ¬known i.name) :
    s.Widened ρ known (.binding module enclosing ((ds ++ [p]).filterMap (·.declared?))
      ((ds ++ [p]).filterMap (·.aliased?))) := by
  have hother {κ : Type} {f : PlacedDecl → Option κ} {i : κ → Ident}
      (hf : ∀ x, f p = some x → p.tree.binding = some (i x)) {name : String} (hname : known name) :
      ∀ x ∈ [p].filterMap f, (i x).name ≠ name := by
    rintro x hx rfl
    obtain ⟨q, hq, hfx⟩ := List.mem_filterMap.1 hx
    rw [List.mem_singleton.1 hq] at hfx
    exact hp (i x) (hf x hfx) hname
  obtain ⟨henclosing, hnames, haliases, hlength⟩ := h
  refine ⟨henclosing, fun name hname => ?_, fun name hname => ?_, ?_⟩
  · rw [← hnames name hname]
    simp only [Scope.name?, Scope.binding, List.filterMap_append, List.map_append]
    refine lookup_append_of_ne (List.forall_mem_map.2 ?_)
    exact hother (fun x => PlacedDecl.binding_of_declared?) hname
  · rw [← haliases name hname]
    simp only [Scope.alias?, Scope.binding, List.filterMap_append, List.map_append]
    refine lookup_append_of_ne (List.forall_mem_map.2 ?_)
    exact hother (fun x => PlacedDecl.binding_of_aliased?) hname
  · refine hlength.trans ?_
    simp only [Scope.binding, List.filterMap_append, List.map_append, List.length_append]
    exact Nat.le_add_right _ _

end Scope

/-! ## Tables -/

/-- The aliases in a scope stand for what some module mentions. -/
theorem Loaded.Tabled.exists_mentions {l : Loaded} (hl : l.Tabled) {s : Scope} (hs : s ∈ l.scopes) :
    ∃ x ∈ l.modules.toList, s.Mentions x.identifiers := by
  rw [← Array.mem_toList_iff, hl.scopesPlaced.scopes] at hs
  obtain ⟨⟨x, i⟩, hx, hs⟩ := List.mem_flatMap.1 hs
  exact ⟨x, List.fst_mem_of_mem_zipIdx hx,
    (identifiers_fileScopes i x.scope x.decls s hs).mono (List.subset_append_right _ _)⟩

/-- The types in an entry mention what some module does. -/
theorem Loaded.Tabled.exists_identifiers {l : Loaded} (hl : l.Tabled) {e : Entry}
    (he : e ∈ l.entries) : ∃ x ∈ l.modules.toList, e.content.identifiers ⊆ x.identifiers := by
  obtain ⟨is, hplaced⟩ := hl.wellPlaced
  rw [← Array.mem_toList_iff, hplaced.entries] at he
  obtain ⟨⟨x, i⟩, hx, he⟩ := List.mem_flatMap.1 he
  exact ⟨x, List.fst_mem_of_mem_zipIdx hx,
    List.Subset.trans (identifiers_fileEntries i x.scope x.decls e he)
      (List.subset_append_right _ _)⟩

namespace Loaded.Extended

variable {ρ : Renaming} {p : PlacedDecl} {l l' : Loaded} (h : l.Extended ρ p l')
include h

theorem paths : l'.paths = l.paths := by
  obtain ⟨x, xs, ds, hmodules, -, hrows⟩ := h.modules
  have hpaths : ({ x with decls := ds } :: xs).map LoadedModule.path =
      l.modules.toList.map LoadedModule.path := by
    rw [← List.forall₂_eq_eq_eq, List.forall₂_map_left_iff, List.forall₂_map_right_iff]
    exact hrows.flip.imp fun _ _ hx => hx.path
  rw [Loaded.paths, Loaded.paths, hmodules, ← hpaths]
  rfl

theorem fileScope (id : ModuleId) : l'.modules[id]?.map LoadedModule.scope =
    (l.modules[id]?.map LoadedModule.scope).map ρ.scope := by
  obtain ⟨x, xs, ds, hmodules, -, hrows⟩ := h.modules
  have hscopes : l'.modules.toList.map LoadedModule.scope =
      ({ x with decls := ds } :: xs).map LoadedModule.scope := by
    rw [hmodules]
    rfl
  have hscope := congrArg (·[id]?) hscopes
  simp only [List.getElem?_map, Array.getElem?_toList] at hscope
  rw [hscope, Option.map_map, ← Array.getElem?_toList]
  exact map_eq_of_rel (rel_getElem?_of_forall₂ hrows id) fun _ _ hx => hx.scope

theorem moduleOf? (hl : l.paths.Nodup) (path : String) : l'.moduleOf? path = l.moduleOf? path := by
  apply Option.ext
  intro id
  rw [moduleOf?_eq_some_iff hl, moduleOf?_eq_some_iff (h.paths ▸ hl), h.paths]

section Tabled

variable (hl : l.Tabled) (hl' : l'.Tabled)
include hl hl'

/-- The entries are the same, each under its other number, and those of the declaration. -/
theorem paired_entries : ∃ kept more, Paired (EntryRows ρ) l.entries.toList.zipIdx kept ∧
    (kept ++ more).Perm l'.entries.toList.zipIdx ∧ more.map Prod.snd = p.ids := by
  obtain ⟨x, xs, ds, hmodules, hdecls, hrows⟩ := h.modules
  obtain ⟨is, hplaced⟩ := hl.wellPlaced
  obtain ⟨is', hplaced'⟩ := hl'.wellPlaced
  refine ⟨({ x with decls := ds } :: xs).zipIdx.flatMap fun y =>
      (fileEntries y.2 y.1.scope y.1.decls).zip (y.1.decls.flatMap PlacedDecl.ids),
    (p.entries 0 none x.scope).zip p.ids, ?_, ?_, ?_⟩
  · rw [hplaced.zipIdx_entries]
    refine (paired_of_forall₂ (forall₂_rows h.module hrows 0)).flatMap ?_
    rintro ⟨y, i⟩ ⟨y', i'⟩ ⟨hy, rfl⟩
    dsimp only
    rw [hy.scope]
    exact paired_fileEntries i hy.decls y.scope
  · have hfile : (fileEntries 0 x.scope x.decls).zip (x.decls.flatMap PlacedDecl.ids) =
        (fileEntries 0 x.scope ds).zip (ds.flatMap PlacedDecl.ids) ++
          (p.entries 0 none x.scope).zip p.ids := by
      rw [hdecls, zip_fileEntries, zip_fileEntries, List.flatMap_append, List.flatMap_singleton]
    rw [hplaced'.zipIdx_entries, hmodules, List.zipIdx_cons, List.zipIdx_cons, List.flatMap_cons,
      List.flatMap_cons, hfile, List.append_assoc, List.append_assoc]
    exact List.perm_append_comm.append_left _
  · exact List.map_snd_zip (length_entries_placedDecl 0 p none x.scope).ge

theorem getElem?_entries (id : DeclId) :
    l'.entries[ρ.decl id]? = l.entries[id]?.map (Entry.rename ρ) := by
  obtain ⟨kept, more, hpaired, hperm, hmore⟩ := h.paired_entries hl hl'
  have hrel := hpaired.rel_getElem?_among h.declInjective hperm (hmore ▸ h.decls) id
  rw [Array.getElem?_toList, Array.getElem?_toList] at hrel
  rw [← Option.map_id_apply (x := l'.entries[ρ.decl id]?)]
  exact map_eq_of_rel hrel fun _ _ he => he

/-- The ids of the second state are those of the first one, under their other numbers, and those of
the declaration. -/
theorem bijOn_decls : Set.BijOn ρ.decl (Set.Iio l.entries.size)
    {id | id < l'.entries.size ∧ id ∉ p.ids} := by
  obtain ⟨kept, more, hpaired, hperm, hmore⟩ := h.paired_entries hl hl'
  have hbij := hpaired.bijOn_positions_among h.declInjective hperm (hmore ▸ h.decls)
  rwa [hmore, Array.length_toList, Array.length_toList] at hbij

theorem size_le : l.entries.size ≤ l'.entries.size := by
  obtain ⟨kept, more, hpaired, hperm, -⟩ := h.paired_entries hl hl'
  have hlength := hpaired.length_eq
  have hlength' := hperm.length_eq
  simp only [List.length_append, List.length_zipIdx, Array.length_toList] at hlength hlength'
  omega

variable {known : String → Prop} (hp : ∀ i ∈ p.tree.binding, ¬known i.name)
include hp

/-- The scopes are the same, each under its other number, and those of the declaration, except that
the scope of the first file binds one more name. -/
theorem paired_scopes : ∃ kept more,
    Paired (Rows (Scope.Widened ρ known) ρ.scope) l.scopes.toList.zipIdx kept ∧
      (kept ++ more).Perm l'.scopes.toList.zipIdx ∧ more.map Prod.snd = p.scopeIds := by
  obtain ⟨x, xs, ds, hmodules, hdecls, hrows⟩ := h.modules
  obtain ⟨y, ys, hy, hys, hmodules₁⟩ := List.forall₂_cons_right_iff.1 hrows
  -- Scopes of other files, and those inside declarations, bind the same names.
  have hsame : ∀ r r' : Scope × ScopeId, ScopeRows ρ r r' →
      Rows (fun s s' => s.Distinct → s.Widened ρ known s') ρ.scope r r' :=
    fun _ _ hr => ⟨fun hs => hr.1.widened hs, hr.2⟩
  refine ⟨((.binding 0 [] (x.decls.filterMap (·.declared?)) (x.decls.filterMap (·.aliased?)),
      x.scope) :: ds.flatMap fun d => (d.scopes 0 [x.scope]).zip d.scopeIds) ++
      (xs.zipIdx 1).flatMap fun y => (fileScopes y.2 y.1.scope y.1.decls).zip y.1.scopeIds,
    (p.scopes 0 [x.scope]).zip p.scopeIds, ?_, ?_, ?_⟩
  · suffices hpaired : Paired (Rows (fun s s' => s.Distinct → s.Widened ρ known s') ρ.scope)
        l.scopes.toList.zipIdx _ from
      hpaired.imp_mem fun r hr _ _ hrow =>
        have hmem := Array.mem_toList_iff.1 (List.fst_mem_of_mem_zipIdx hr)
        ⟨hrow.1 (hl.scopesPlaced.distinct r.1 hmem), hrow.2⟩
    rw [hl.scopesPlaced.zipIdx_scopes, hmodules₁, List.zipIdx_cons, List.flatMap_cons]
    refine Paired.append ?_ ?_
    · have hscope : x.scope = ρ.scope y.scope := hy.scope
      have hfile := hy.decls.paired.renamed_binding (fun _ _ hd => hd.declared?)
        (fun _ _ hd => hd.aliased?) 0 []
      rw [h.module 0] at hfile
      rw [LoadedModule.scopeIds, zip_fileScopes, hscope]
      refine .cons ⟨fun hs => ?_, rfl⟩ ?_
      · rw [hdecls]
        exact (hfile.widened hs).add hp
      · refine hy.decls.paired.flatMap fun d d' hd => ?_
        have hnested := paired_scopes_decl 0 d hd [y.scope]
        rw [h.module 0] at hnested
        exact hnested.imp_mem fun r _ r' _ => hsame r r'
    · refine (paired_of_forall₂ (forall₂_rows h.module hys 1)).flatMap ?_
      rintro ⟨z, i⟩ ⟨z', i'⟩ ⟨hz, rfl⟩
      dsimp only [LoadedModule.scopeIds]
      rw [hz.scope]
      exact (paired_fileScopes i hz.decls z.scope).imp_mem fun r _ r' _ => hsame r r'
  · have hnested : (x.decls.flatMap fun d => (d.scopes 0 [x.scope]).zip d.scopeIds) =
        (ds.flatMap fun d => (d.scopes 0 [x.scope]).zip d.scopeIds) ++
          (p.scopes 0 [x.scope]).zip p.scopeIds := by
      rw [hdecls, List.flatMap_append, List.flatMap_singleton]
    rw [hl'.scopesPlaced.zipIdx_scopes, hmodules, List.zipIdx_cons, List.flatMap_cons,
      LoadedModule.scopeIds, zip_fileScopes, hnested, List.cons_append, List.cons_append,
      List.cons_append, List.append_assoc, List.append_assoc]
    exact (List.perm_append_comm.append_left _).cons _
  · exact List.map_snd_zip (length_scopes_placedDecl 0 p [x.scope]).ge

theorem rel_scopes (scope : ScopeId) :
    Option.Rel (Scope.Widened ρ known) l.scopes[scope]? l'.scopes[ρ.scope scope]? := by
  obtain ⟨kept, more, hpaired, hperm, hmore⟩ := h.paired_scopes hl hl' hp
  have hrel := hpaired.rel_getElem?_among h.scopeInjective hperm (hmore ▸ h.scopes) scope
  rwa [Array.getElem?_toList, Array.getElem?_toList] at hrel

theorem aliasCount_le : l.aliasCount ≤ l'.aliasCount := by
  obtain ⟨kept, more, hpaired, hperm, -⟩ := h.paired_scopes hl hl' hp
  have hkept := hpaired.sum_le (f := fun r => r.1.aliases.length)
    (g := fun r => r.1.aliases.length) fun _ _ hrow => hrow.1.aliases
  have hall := (hperm.map fun r => r.1.aliases.length).sum_nat
  have hcount (l : Loaded) :
      (l.scopes.toList.zipIdx.map fun r => r.1.aliases.length).sum = l.aliasCount := by
    rw [Reordered.aliasCount_eq_sum, ← List.zipIdx_map_fst 0 l.scopes.toList, List.map_map,
      List.zipIdx_map_fst]
    rfl
  rw [List.map_append, List.sum_append_nat, hcount] at hall
  rw [hcount] at hkept
  omega

/-- What can be looked up is the same, if no module mentions the name of the declaration. -/
theorem renamed (hknown : ∀ x ∈ l.modules.toList, ∀ n ∈ x.identifiers, known n) :
    l.Renamed ρ known l' where
  declInjective := h.declInjective
  scopeInjective := h.scopeInjective
  moduleOf? path := by
    rw [h.moduleOf? hl.nodup, funext h.module]
    exact Option.map_id_apply.symm
  fileScope id := by
    rw [h.module]
    exact h.fileScope id
  enclosing scope := by
    rw [Option.map_map]
    exact map_eq_of_rel (h.rel_scopes hl hl' hp scope) fun _ _ hs => hs.enclosing
  name? scope name hname := by
    rw [Option.map_bind]
    exact bind_eq_of_rel (h.rel_scopes hl hl' hp scope) fun _ _ hs => hs.name? name hname
  alias? scope name hname :=
    bind_eq_of_rel (h.rel_scopes hl hl' hp scope) fun _ _ hs => hs.alias? name hname
  aliasTargets scope name target htarget n hn := by
    obtain ⟨s, hs, htarget⟩ := Option.bind_eq_some_iff.1 htarget
    obtain ⟨x, hx, hmentions⟩ := hl.exists_mentions (Array.mem_of_getElem? hs)
    exact hknown x hx n (hmentions _ (mem_of_lookup htarget) hn)
  aliasCount := h.aliasCount_le hl hl' hp
  entries := h.getElem?_entries hl hl'
  contents id e he n hn := by
    obtain ⟨x, hx, hsub⟩ := hl.exists_identifiers (Array.mem_of_getElem? he)
    exact hknown x hx n (hsub hn)
  size := h.size_le hl hl'

end Tabled

end Loaded.Extended

end SchemaLang
