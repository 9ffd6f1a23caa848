import SchemaLang.Proofs.Linking.Decls
import SchemaLang.Proofs.Linking.Nodes
import SchemaLang.Proofs.Loading.SourceOrder

/-!
# Resolving a module

Resolving loads the root and all that it imports by the rules of `LoadsRoot`, and then links it.
`resolve_loads` says what is asked for and in which order, and that linking finds every import.
`resolve_integrity` says that the ids in a schema are those of its nodes, each in its place.
-/

namespace SchemaLang

variable {source : Option ImportSource} {root : Module}

/-- Resolving links what was loaded, if loading succeeds. -/
theorem resolve_of_perform {s : LoadState} {r : Except SchemaError Unit}
    (h : (Load.root source root).perform ⟨.empty, #[]⟩ = (r, s)) :
    resolve source root = ⟨s.requested, r.bind fun _ => s.loaded.link⟩ := by
  have hrun : (Load.root source root).run.run ⟨.empty, #[]⟩ = (r, s) := h
  rw [resolve, hrun]

/-- A resolution with success comes of a load with success. -/
theorem resolve_ok {schema : Schema} (h : (resolve source root).result = .ok schema) :
    ∃ s, LoadsRoot (source.map ImportSource.read) root (.ok ()) s ∧
      s.loaded.link = .ok schema := by
  generalize hperform : (Load.root source root).perform ⟨.empty, #[]⟩ = x
  obtain ⟨r, s⟩ := x
  rw [resolve_of_perform hperform] at h
  cases r with
  | error e => cases h
  | ok => exact ⟨s, loadsRoot_of_perform hperform (.inl rfl), h⟩

/-! ## Imports -/

/-- Places where everything may stand. -/
def Places.any : Places :=
  ⟨fun _ => True, fun _ => True, fun _ => True, fun _ => True, fun _ _ => True, fun _ _ => True,
    fun _ => True, fun _ => True⟩

theorem Loaded.covers_any (l : Loaded) : l.Covers .any := by
  constructor <;> intros <;> trivial

/-- After a load with success, linking does not fail on an import. -/
theorem LoadsRoot.link_ne_importing {read : Option (String → Option String)} {s : LoadState}
    (h : LoadsRoot read root (.ok ()) s) (e : ImportError) :
    s.loaded.link ≠ .error (.importing e) :=
  (Loaded.yields_link h.linkable (Loaded.covers_any _)).ne_importing e

/-- The schema links the modules of a state, and these are the root and what it reaches through
imports, each once, in the order of a depth first walk.  The paths after that of the root are those
that were requested. -/
structure Schema.LoadedFrom (read : Option (String → Option String)) (root : Module)
    (state : LoadState) (schema : Schema) : Prop where
  linked : state.loaded.modules.toList.mapM state.loaded.linkModule = .ok schema.modules
  first : state.loaded.modules[0]? = some
    ⟨Load.rootPath, root.id.value, 0, root.annotations, Loaded.place .empty root⟩
  requested : schema.modules.map LinkedModule.path = Load.rootPath :: state.requested.toList
  nodup : (schema.modules.map LinkedModule.path).Nodup
  reached : ∀ path, path ∈ schema.modules.map LinkedModule.path ↔ Reached read root path
  preorder :
    Preorder (importsAt read root) [] [Load.rootPath] (schema.modules.map LinkedModule.path)

theorem LoadsRoot.loadedFrom {read : Option (String → Option String)} {state : LoadState}
    {schema : Schema} (h : LoadsRoot read root (.ok ()) state)
    (hlink : state.loaded.link = .ok schema) : schema.LoadedFrom read root state := by
  have hpaths := Loaded.link_paths hlink
  obtain ⟨more, hentered, -⟩ := h.modules
  refine ⟨(Loaded.link_ok hlink).1, hentered.modules_zero, ?_, ?_, fun path => ?_, ?_⟩
  · rw [hpaths, h.paths]
  · rw [hpaths, h.paths]
    exact h.requested_nodup
  · rw [hpaths]
    exact h.mem_paths_iff
  · rw [hpaths]
    exact h.preorder

/-- Resolving loads the root by rules that know no bound and leave no choice, so loading ends.  No
path is requested twice, nor that of the root, and once all is loaded linking finds every import.
A schema that comes of it is loaded from the root, and the imports of a module that was read are
followed in the order in which they stand in its text. -/
theorem resolve_loads (source : Option ImportSource) (root : Module)
    (hsource : ∀ x ∈ source, x.Bounded) :
    ∃ r state, LoadsRoot (source.map ImportSource.read) root r state ∧
      (∀ r' state', LoadsRoot (source.map ImportSource.read) root r' state' →
        r' = r ∧ state' = state) ∧
      resolve source root = ⟨state.requested, r.bind fun _ => state.loaded.link⟩ ∧
      (Load.rootPath :: state.requested.toList).Nodup ∧
      (r = .ok () → ∀ e, state.loaded.link ≠ .error (.importing e)) ∧
      (∀ schema, (resolve source root).result = .ok schema →
        schema.LoadedFrom (source.map ImportSource.read) root state) ∧
      ∀ path m text, moduleAt? (source.map ImportSource.read) root path = some m →
        Module.parse text = .ok m → importsAt (source.map ImportSource.read) root path =
          (importPhrases (Lexed.ofText text).lexemes).map ImportPath.path := by
  generalize hperform : (Load.root source root).perform ⟨.empty, #[]⟩ = x
  obtain ⟨r, state⟩ := x
  have hload := loadsRoot_of_perform hperform (.inr hsource)
  have hresolve := resolve_of_perform hperform
  refine ⟨r, state, hload, fun r' state' h => h.unique hload, hresolve, hload.requested_nodup,
    ?_, ?_, ?_⟩
  · rintro rfl e
    exact hload.link_ne_importing e
  · intro schema h
    rw [hresolve] at h
    cases r with
    | error e => cases h
    | ok => exact hload.loadedFrom h
  · intro path m text hm hparse
    rw [importsAt, hm, Option.map_some, Option.getD_some, imports_of_parse hparse]

/-- A root that imports a file of a list. -/
theorem resolve_loads_file :
    (∀ x ∈ some (ImportSource.ofList [("a", "@6;")]), x.Bounded) ∧
      ∃ root state schema, (resolve (some (.ofList [("a", "@6;")])) root).result = .ok schema ∧
        schema.LoadedFrom (some (ImportSource.ofList [("a", "@6;")]).read) root state ∧
        schema.modules.map LinkedModule.path = ["::global", "a"] := by
  have hsource : ∀ x ∈ some (ImportSource.ofList [("a", "@6;")]), x.Bounded :=
    fun x hx => Option.some.inj hx ▸ ImportSource.bounded_ofList _
  have hpaths : (resolve (some (.ofList [("a", "@6;")])) ⟨⟨⟨0, 3⟩, 5⟩, [],
      [.importAlias ⟨⟨3, 20⟩, none, ⟨⟨16, 19⟩, "a"⟩, []⟩]⟩).result.toOption.map
      (fun schema => schema.modules.map LinkedModule.path) = some ["::global", "a"] := by
    decide +kernel
  obtain ⟨schema, hresult, hpaths⟩ := exists_ok_of_toOption hpaths
  obtain ⟨r, state, -, -, -, -, -, hschema, -⟩ := resolve_loads _ _ hsource
  exact ⟨hsource, _, state, schema, hresult, hschema schema hresult, hpaths⟩

/-! ## Ids -/

theorem outlines_of_resolve {schema : Schema} (h : (resolve source root).result = .ok schema) :
    schema.nodes.map (fun n => n.content.id) = List.range schema.decls.size ∧
      schema.nodes.map Node.info = schema.decls.toList := by
  obtain ⟨s, hload, hlink⟩ := resolve_ok h
  obtain ⟨more, hentered, -⟩ := hload.modules
  have houtlines := Loaded.outlines_link hentered.wellPlaced hlink
  rw [(Loaded.link_ok hlink).2, Array.size_map, Array.toList_map]
  exact ⟨houtlines.ids, houtlines.infos⟩

/-- No two nodes have the same id. -/
theorem nodup_ids {schema : Schema} (h : (resolve source root).result = .ok schema) :
    (schema.nodes.map fun n => n.content.id).Nodup := by
  rw [(outlines_of_resolve h).1]
  exact List.nodup_range

/-- In a schema that comes of resolving, the ids of the nodes count up from zero, what the schema
keeps of each id is what its node is, and every id stands where nodes of its kind may stand. -/
theorem resolve_integrity {schema : Schema} (h : (resolve source root).result = .ok schema) :
    schema.nodes.map (fun n => n.content.id) = List.range schema.decls.size ∧
      schema.nodes.map Node.info = schema.decls.toList ∧
      ∀ m ∈ schema.modules, m.Respects schema.places := by
  obtain ⟨s, hload, hlink⟩ := resolve_ok h
  obtain ⟨more, hentered, -⟩ := hload.modules
  obtain ⟨hids, hinfos⟩ := outlines_of_resolve h
  have hcovers := Loaded.covers_places hentered.wellPlaced hlink
  exact ⟨hids, hinfos, (Loaded.yields_link hload.linkable hcovers).ok _ hlink⟩

/-- A struct with a field of its own type. -/
theorem resolve_integrity_recursive :
    ∃ root schema, (resolve none root).result = .ok schema ∧
      schema.decls = #[⟨0, "S", none, .struct⟩] ∧
      schema.nodes.map (fun n => n.content.id) = List.range schema.decls.size ∧
      schema.nodes.map Node.info = schema.decls.toList ∧
      ∀ m ∈ schema.modules, m.Respects schema.places := by
  have hdecls : (resolve none ⟨⟨⟨0, 3⟩, 5⟩, [], [.struct ⟨⟨3, 28⟩, ⟨⟨10, 11⟩, "S"⟩, []⟩
      [.field ⟨⟨14, 26⟩, ⟨⟨14, 18⟩, "next"⟩, ⟨⟨19, 21⟩, 0⟩,
        .named ⟨⟨23, 24⟩, [⟨⟨23, 24⟩, "S"⟩]⟩, none, []⟩]]⟩).result.toOption.map
      Schema.decls = some #[⟨0, "S", none, .struct⟩] := by
    decide +kernel
  obtain ⟨schema, hresult, hdecls⟩ := exists_ok_of_toOption hdecls
  exact ⟨_, schema, hresult, hdecls, resolve_integrity hresult⟩

end SchemaLang
