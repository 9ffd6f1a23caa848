import SchemaLang.Proofs.Naming.Names
import SchemaLang.Proofs.Naming.Nesting
import SchemaLang.Proofs.Naming.Siblings
import SchemaLang.Proofs.Reordering.Loading
import SchemaLang.Proofs.Resolution

/-!
# Dotted names in what was resolved

In a schema that comes of resolving, a lookup only finds what has the name that was looked up, and a
declaration is found by its own name unless it, or one around it, comes after another of its name in
the same place: `resolve_named`.  Two declarations have the same name in the same place where an
anonymous union declares a name that the body around it, or another anonymous union there, declares
too.
-/

namespace SchemaLang

/-! ## Modules that were loaded -/

section Loaded

variable {read : Option (String → Option String)} {root : Module} {s : LoadState} {schema : Schema}

/-- Modules that were read have names without dots. -/
theorem dotless_of_moduleAt (hroot : root.Dotless) {path : String} {m : Module}
    (h : moduleAt? read root path = some m) : m.Dotless := by
  unfold moduleAt? at h
  split at h
  · exact Option.some.inj h ▸ hroot
  · obtain ⟨f, -, hfetch⟩ := Option.bind_eq_some_iff.1 h
    obtain ⟨text, -, hparse⟩ := parse_of_fetch (ok_of_toOption hfetch)
    exact dotless_of_parse hparse

theorem names_fileEntries (module : ModuleId) (scope : ScopeId) (ds : List PlacedDecl) :
    (fileEntries module scope ds).map (·.name.name) =
      (ds.map PlacedDecl.tree).flatMap Decl.declNames := by
  rw [fileEntries, List.map_flatMap, List.flatMap_map]
  exact congrArg (List.flatMap · ds) (funext fun d => names_entries_decl module d none scope)

theorem LoadsRoot.dotless (h : LoadsRoot read root (.ok ()) s) (hlink : s.loaded.link = .ok schema)
    (hroot : root.Dotless) : schema.Dotless := by
  obtain ⟨is, hplaced⟩ := h.tabled.wellPlaced
  intro d info hd
  rw [(Loaded.link_ok hlink).2, Array.getElem?_map] at hd
  obtain ⟨e, he, rfl⟩ := Option.map_eq_some_iff.1 hd
  have he := Array.mem_toList_iff.2 (Array.mem_of_getElem? he)
  rw [hplaced.entries] at he
  obtain ⟨⟨x, i⟩, hx, he⟩ := List.mem_flatMap.1 he
  obtain ⟨m, hm, hholds⟩ := h.exists_moduleAt x (List.fst_mem_of_mem_zipIdx hx)
  have hname := List.mem_map_of_mem (f := fun e : Entry => e.name.name) he
  rw [names_fileEntries, hholds.decls] at hname
  obtain ⟨d, hd, hname⟩ := List.mem_flatMap.1 hname
  exact dotless_of_moduleAt hroot hm d hd _ hname

/-! ## Places of declarations -/

/-- No two declarations have the same name in the same place if and only if in each body of the
modules the scopes declare different names. -/
theorem Loaded.Tabled.nodup_places_iff {l : Loaded} (h : l.Tabled) (hlink : l.link = .ok schema) :
    (schema.decls.toList.map DeclInfo.place).Nodup ↔
      ∀ x ∈ l.modules.toList, ∀ d ∈ x.decls, d.tree.Apart := by
  obtain ⟨is, hplaced⟩ := h.wellPlaced
  have hids {x : LoadedModule × Nat} (hx : x ∈ l.modules.toList.zipIdx) :
      (x.1.decls.flatMap PlacedDecl.ids).Pairwise (· < ·) :=
    hplaced.pairwise_ids (Array.mem_toList_iff.1 (List.fst_mem_of_mem_zipIdx hx))
  have hplaces : schema.decls.toList.map DeclInfo.place =
      l.modules.toList.zipIdx.flatMap fun x =>
        ((fileEntries x.2 x.1.scope x.1.decls).map Entry.key).map fun key => (x.2, key) := by
    rw [(Loaded.link_ok hlink).2, Array.toList_map, List.map_map, hplaced.entries, List.map_flatMap]
    refine List.flatMap_congr fun x hx => ?_
    rw [List.map_map]
    refine List.map_congr_left fun e he => ?_
    obtain ⟨d, -, hinside⟩ :=
      (paired_of_forall₂ (inside_file x.2 x.1.scope x.1.decls (hids hx))).exists_right he
    exact congrArg (·, e.key) hinside.module
  have hdisjoint : l.modules.toList.zipIdx.Pairwise fun x y =>
      (((fileEntries x.2 x.1.scope x.1.decls).map Entry.key).map fun key => (x.2, key)).Disjoint
        (((fileEntries y.2 y.1.scope y.1.decls).map Entry.key).map fun key => (y.2, key)) := by
    have hnumbers : (l.modules.toList.zipIdx.map Prod.snd).Nodup := by
      rw [List.zipIdx_map_snd]
      exact List.nodup_range'
    refine (List.pairwise_map.1 hnumbers).imp fun hne place hx hy => ?_
    obtain ⟨_, -, rfl⟩ := List.mem_map.1 hx
    obtain ⟨_, -, hplace⟩ := List.mem_map.1 hy
    exact hne (congrArg Prod.fst hplace).symm
  have hkeys {x : LoadedModule × Nat} (hx : x ∈ l.modules.toList.zipIdx) :
      (((fileEntries x.2 x.1.scope x.1.decls).map Entry.key).map fun key => (x.2, key)).Nodup ↔
        ∀ d ∈ x.1.decls, d.tree.Apart := by
    rw [List.nodup_map_iff (Prod.mk_right_injective x.2)]
    refine nodup_keys_file x.2 ((hids hx).imp Nat.ne_of_lt) fun s hs => ?_
    refine h.scopesPlaced.distinct s (Array.mem_toList_iff.1 ?_)
    rw [h.scopesPlaced.scopes]
    exact List.mem_flatMap.2 ⟨x, hx, hs⟩
  rw [hplaces, List.nodup_flatMap, and_iff_left hdisjoint]
  constructor
  · intro hnodup x hx
    obtain ⟨i, hi⟩ := List.mem_iff_getElem?.1 hx
    have hmem : (x, i) ∈ l.modules.toList.zipIdx := List.mk_mem_zipIdx_iff_getElem?.2 hi
    exact (hkeys hmem).1 (hnodup _ hmem)
  · exact fun hapart x hx => (hkeys hx).2 (hapart x.1 (List.fst_mem_of_mem_zipIdx hx))

/-- A property of all loaded modules, as one of the modules that the schema has the paths of. -/
theorem LoadsRoot.forall_apart_iff (h : LoadsRoot read root (.ok ()) s)
    (hlink : s.loaded.link = .ok schema) :
    (∀ x ∈ s.loaded.modules.toList, ∀ d ∈ x.decls, d.tree.Apart) ↔
      ∀ path ∈ schema.modules.map LinkedModule.path, ∀ m,
        moduleAt? read root path = some m → m.Apart := by
  have hholds := h.exists_moduleAt
  rw [Loaded.link_paths hlink]
  constructor
  · intro hapart path hpath m hm
    obtain ⟨x, hx, rfl⟩ := List.mem_map.1 hpath
    obtain ⟨m', hm', hx'⟩ := hholds x hx
    obtain rfl := Option.some.inj (hm.symm.trans hm')
    unfold Module.Apart
    rw [← hx'.decls]
    exact List.forall_mem_map.2 (hapart x hx)
  · intro hapart x hx
    obtain ⟨m, hm, hx'⟩ := hholds x hx
    have hdecls := hapart x.path (List.mem_map_of_mem hx) m hm
    unfold Module.Apart at hdecls
    rw [← hx'.decls] at hdecls
    exact List.forall_mem_map.1 hdecls

end Loaded

/-! ## Looking up dotted names -/

/-- In a schema that comes of resolving, a lookup finds only what is in the module and has the name.
If the names of the root have no dots, as all names that are read, a declaration is found by its own
dotted name if and only if it, and each one around it, is the first of its name in its place.  All
of them are if and only if in each body of the loaded modules the scope of the body and those of the
anonymous unions in it declare different names. -/
theorem resolve_named {source : Option ImportSource} {root : Module} {schema : Schema}
    (h : (resolve source root).result = .ok schema) :
    (∀ module name d, schema.lookupIn module name = some d → ∃ info : DeclInfo,
      schema.decls[d]? = some info ∧ info.module = module ∧ schema.nameOf d = name) ∧
    (root.Dotless →
      (∀ (d : DeclId) (info : DeclInfo), schema.decls[d]? = some info →
        (schema.lookupIn info.module (schema.nameOf d) = some d ↔
          ∀ a, schema.Encloses a d → schema.FirstNamed a)) ∧
      ((∀ (d : DeclId) (info : DeclInfo), schema.decls[d]? = some info →
        schema.lookupIn info.module (schema.nameOf d) = some d) ↔
          ∀ path ∈ schema.modules.map LinkedModule.path, ∀ m,
            moduleAt? (source.map ImportSource.read) root path = some m → m.Apart)) := by
  obtain ⟨s, hload, hlink⟩ := resolve_ok h
  obtain ⟨is, hplaced⟩ := hload.tabled.wellPlaced
  have hnested := hplaced.nested_of_link hlink
  refine ⟨fun module name d => hnested.nameOf_lookupIn, fun hroot => ?_⟩
  have hdots := hload.dotless hlink hroot
  refine ⟨fun d info hd => hnested.lookupIn_nameOf_iff hdots hd, ?_⟩
  rw [hnested.forall_lookupIn_nameOf_iff hdots, hload.tabled.nodup_places_iff hlink,
    hload.forall_apart_iff hlink]

/-- Two structs of one name in the anonymous unions of different bodies. -/
def unionsText : String :=
  "@1;struct S\x7bunion\x7bstruct A\x7b\x7d\x7dg :group\x7bunion\x7bstruct A\x7b\x7d\x7d\x7d\x7d"

theorem resolve_named_unions :
    ∃ root schema, Module.parse unionsText = .ok root ∧ root.Dotless ∧
      (resolve none root).result = .ok schema ∧ schema.lookupIn 0 "S.g.A" = some 3 ∧
      schema.nameOf 3 = "S.g.A" ∧ ∀ a, schema.Encloses a 3 → schema.FirstNamed a := by
  have hlookup : ((Module.parse unionsText).toOption.bind fun root =>
      (resolve none root).result.toOption.map (·.lookupIn 0 "S.g.A")) = some (some 3) := by
    decide +kernel
  obtain ⟨root, hroot, hlookup⟩ := Option.bind_eq_some_iff.1 hlookup
  obtain ⟨schema, hresult, hlookup⟩ := exists_ok_of_toOption hlookup
  have hroot := ok_of_toOption hroot
  have hdotless := dotless_of_parse hroot
  obtain ⟨hfound, hnamed⟩ := resolve_named hresult
  obtain ⟨info, hinfo, hmodule, hname⟩ := hfound 0 "S.g.A" 3 hlookup
  have hself : schema.lookupIn info.module (schema.nameOf 3) = some 3 := by
    rw [hmodule, hname, hlookup]
  exact ⟨root, schema, hroot, hdotless, hresult, hlookup, hname,
    ((hnamed hdotless).1 3 info hinfo).1 hself⟩

/-- An enum, and a struct of the same name in an anonymous union beside it. -/
def besideUnionText : String :=
  "@0x1;struct S\x7benum A\x7ba @0;\x7dunion\x7bx @0 :Int8;y @1 :Int8;struct A\x7b\x7d\x7d\x7d"

/-- The enum is found by the dotted name of the struct. -/
theorem resolve_named_beside_union :
    ((Module.parse besideUnionText).toOption.bind fun root =>
      (resolve none root).result.toOption.map fun schema =>
        (schema.decls[1]?, schema.decls[2]?, schema.nameOf 2, schema.lookupIn 0 "S.A")) =
      some (some ⟨0, "A", some 0, .enum⟩, some ⟨0, "A", some 0, .struct⟩, "S.A", some 1) := by
  decide +kernel

end SchemaLang
