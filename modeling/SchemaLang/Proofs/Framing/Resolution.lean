import SchemaLang.Proofs.Framing.Linking
import SchemaLang.Proofs.Reordering.Loading
import SchemaLang.Proofs.Resolution

/-!
# Resolving with one more declaration

A declaration at the end of a root, whose name is mentioned nowhere, interferes with nothing: if the
root resolves with it, it resolves without it, to the same schema but for this declaration and what
is nested in it: `resolve_add`.
-/

namespace SchemaLang

theorem LoadedModule.Holds.identifiers {x : LoadedModule} {path : String} {m : Module}
    (h : x.Holds path m) : x.identifiers = m.identifiers := by
  rw [LoadedModule.identifiers, Module.identifiers, h.annotations, ← h.decls, List.flatMap_map]

variable {source : Option ImportSource} {m : Module} {d : Decl} {i : Ident}

/-- What resolves with a declaration that imports nothing and whose name is mentioned neither in the
module nor in what it may import resolves without it.  The same paths are asked for, and the schema
is the same but for this declaration and what is nested in it. -/
theorem exists_resolve_of_add (hd : d.imports = []) (hi : d.binding = some i)
    (hm : i.name ∉ m.identifiers)
    (hsource : ∀ x ∈ source, ∀ path text m', x.read path = some text →
      Module.parse text = .ok m' → i.name ∉ m'.identifiers)
    {schema' : Schema} (h : (resolve source (m.add d)).result = .ok schema') :
    ∃ schema ρ added, (resolve source m).result = .ok schema ∧
      (resolve source (m.add d)).requested = (resolve source m).requested ∧
      added.name? = some i.name ∧ schema.Extended ρ added schema' := by
  generalize hperform' : (Load.root source (m.add d)).perform ⟨.empty, #[]⟩ = o' at h
  obtain ⟨r', s'⟩ := o'
  rw [resolve_of_perform hperform'] at h
  cases r' with
  | error => cases h
  | ok =>
    have hfetch : ∀ x ∈ source, ∀ path m', fetch x.read path = .ok m' →
        i.name ∉ m'.identifiers := by
      intro x hx path m' hm'
      obtain ⟨text, htext, hparse⟩ := parse_of_fetch hm'
      exact hsource x hx path text m' htext hparse
    obtain ⟨s, hperform, hstep⟩ := exists_perform_root hd hfetch hperform'
    obtain ⟨more, hentered, hentered', hmore⟩ := hstep.entered
    obtain ⟨ρ, p, rfl, hextended⟩ := exists_extended hentered hentered'
    have hknown : ∀ x ∈ s.loaded.modules.toList, i.name ∉ x.identifiers := by
      intro x hx
      obtain ⟨y, hy, hholds⟩ := (paired_of_forall₂ hentered.holds).exists_left hx
      rw [hholds.identifiers]
      rcases List.mem_cons.1 hy with rfl | hy
      · exact hm
      · exact hmore y hy
    have htabled := (loadsRoot_of_perform hperform (.inl rfl)).tabled
    have htabled' := (loadsRoot_of_perform hperform' (.inl rfl)).tabled
    obtain ⟨schema, added, hlink, hname, hschema⟩ :=
      hextended.exists_link htabled htabled' hi hknown h
    rw [resolve_of_perform hperform, resolve_of_perform hperform']
    exact ⟨schema, ρ, added, hlink, hstep.requested, hname, hschema⟩

/-- A declaration that imports nothing, at the end of a module, and the name of which is mentioned
neither in this module nor in any that may be imported, interferes with nothing.  If resolving
succeeds with it, it succeeds without it, asks for the same paths, and gives the same schema but for
this declaration and what is nested in it; and if it fails without it, it fails with it. -/
theorem resolve_add (hd : d.imports = []) (hi : d.binding = some i) (hm : i.name ∉ m.identifiers)
    (hsource : ∀ x ∈ source, ∀ path text m', x.read path = some text →
      Module.parse text = .ok m' → i.name ∉ m'.identifiers) :
    (∀ schema', (resolve source (m.add d)).result = .ok schema' →
      ∃ schema ρ added, (resolve source m).result = .ok schema ∧
        (resolve source (m.add d)).requested = (resolve source m).requested ∧
        added.name? = some i.name ∧ schema.Extended ρ added schema') ∧
      ∀ e, (resolve source m).result = .error e →
        ∃ e', (resolve source (m.add d)).result = .error e' := by
  refine ⟨fun schema' h => exists_resolve_of_add hd hi hm hsource h, fun e he => ?_⟩
  cases h : (resolve source (m.add d)).result with
  | error e' => exact ⟨e', rfl⟩
  | ok schema' =>
    obtain ⟨schema, -, -, hschema, -⟩ := exists_resolve_of_add hd hi hm hsource h
    exact absurd (he.symm.trans hschema) nofun

/-- A struct with another one inside, added to a root that takes the type of a field from a file:
the ids of the declarations in the file move on. -/
theorem resolve_add_struct :
    ∃ (files : List (String × String)) (m : Module) (d : Decl) (schema schema' : Schema)
      (ρ : Renaming) (added : LinkedDecl), d.imports = [] ∧ d.binding = some ⟨default, "T"⟩ ∧
      "T" ∉ m.identifiers ∧
      (∀ x ∈ some (ImportSource.ofList files), ∀ path text m', x.read path = some text →
        Module.parse text = .ok m' → "T" ∉ m'.identifiers) ∧
      (resolve (some (.ofList files)) m).result = .ok schema ∧
      (resolve (some (.ofList files)) (m.add d)).result = .ok schema' ∧
      schema.Extended ρ added schema' ∧ schema.decls.map DeclInfo.name = #["S", "A"] ∧
      schema'.decls.map DeclInfo.name = #["S", "T", "U", "A"] := by
  let files : List (String × String) := [("a", "@6; struct A {}")]
  let m : Module := ⟨⟨default, 5⟩, [], [.struct ⟨default, ⟨default, "S"⟩, []⟩
    [.field ⟨default, ⟨default, "x"⟩, ⟨default, 0⟩,
      .imported default ⟨default, "a"⟩ [⟨default, "A"⟩], none, []⟩]]⟩
  let d : Decl := .struct ⟨default, ⟨default, "T"⟩, []⟩
    [.decl (.struct ⟨default, ⟨default, "U"⟩, []⟩ [])]
  have hsource : ∀ x ∈ some (ImportSource.ofList files), ∀ path text m',
      x.read path = some text → Module.parse text = .ok m' → "T" ∉ m'.identifiers := by
    intro x hx path text m' htext hparse
    obtain rfl := Option.some.inj hx
    have hmem : (path, text) ∈ files := mem_of_lookup htext
    obtain ⟨rfl, rfl⟩ := Prod.mk.inj (List.mem_singleton.1 hmem)
    have hfile : (Module.parse "@6; struct A {}").toOption.map Module.identifiers = some ["A"] := by
      decide +kernel
    obtain ⟨m₁, hm₁, hidentifiers⟩ := exists_ok_of_toOption hfile
    obtain rfl := Except.ok.inj (hparse.symm.trans hm₁)
    rw [hidentifiers]
    decide
  have hnames : (resolve (some (.ofList files)) m).result.toOption.map
      (fun schema => schema.decls.map DeclInfo.name) = some #["S", "A"] := by
    decide +kernel
  have hnames' : (resolve (some (.ofList files)) (m.add d)).result.toOption.map
      (fun schema => schema.decls.map DeclInfo.name) = some #["S", "T", "U", "A"] := by
    decide +kernel
  obtain ⟨schema', hschema', hdecls'⟩ := exists_ok_of_toOption hnames'
  have hd : d.imports = [] := rfl
  have hi : d.binding = some ⟨default, "T"⟩ := rfl
  have hm : "T" ∉ m.identifiers := by decide
  obtain ⟨schema, ρ, added, hschema, -, -, hextended⟩ :=
    (resolve_add hd hi hm hsource).1 schema' hschema'
  obtain ⟨schema₁, hschema₁, hdecls⟩ := exists_ok_of_toOption hnames
  obtain rfl := Except.ok.inj (hschema.symm.trans hschema₁)
  exact ⟨files, m, d, schema, schema', ρ, added, hd, hi, hm, hsource, hschema, hschema', hextended,
    hdecls, hdecls'⟩

end SchemaLang
