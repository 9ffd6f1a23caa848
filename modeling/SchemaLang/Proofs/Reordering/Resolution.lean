import SchemaLang.Proofs.Reordering.Loading
import SchemaLang.Proofs.Reordering.Schemas
import SchemaLang.Proofs.Resolution

/-!
# Resolving in another order

The order of declarations does not matter to resolving, neither at file scope nor inside bodies:
`resolve_reordered`.  Errors are found in the order of the source, so which one is reported does
depend on it.
-/

namespace SchemaLang

/-- Resolving a module gives a schema, if chains of imports may be long enough. -/
def Resolves (read : Option (String → Option String)) (m : Module) (schema : Schema) : Prop :=
  ∃ depth, (resolve (read.map fun f => ⟨f, depth⟩) m).result = .ok schema

variable {read : Option (String → Option String)} {m m' : Module}

/-- A module resolves if it loads by rules that know no bound and what was loaded is linked. -/
theorem resolves_iff {schema : Schema} : Resolves read m schema ↔
    ∃ s, LoadsRoot read m (.ok ()) s ∧ s.loaded.link = .ok schema := by
  constructor
  · rintro ⟨depth, h⟩
    obtain ⟨s, hload, hlink⟩ := resolve_ok h
    have hread : (read.map fun f => (⟨f, depth⟩ : ImportSource)).map ImportSource.read = read := by
      cases read <;> rfl
    rw [hread] at hload
    exact ⟨s, hload, hlink⟩
  · rintro ⟨s, hload, hlink⟩
    obtain ⟨depth, hdepth⟩ := hload.exists_perform
    refine ⟨depth, ?_⟩
    rw [resolve_of_perform (hdepth depth (Nat.le_refl depth))]
    exact hlink

/-- A module and the same in another order both resolve or neither does, and the schemas are then
the same up to other numbers for modules and declarations and up to the order of declarations. -/
theorem resolve_reordered (h : m.Reordered true m') :
    ((∃ schema, Resolves read m schema) ↔ ∃ schema', Resolves read m' schema') ∧
      ∀ schema schema', Resolves read m schema → Resolves read m' schema' →
        ∃ ρ, schema.Reordered ρ schema' := by
  -- What was loaded from the one and from the other is the same up to some renaming.
  have hloaded {s s' : LoadState} (hs : LoadsRoot read m (.ok ()) s)
      (hs' : LoadsRoot read m' (.ok ()) s') : ∃ ρ, s.loaded.Reordered ρ s'.loaded :=
    exists_reordered hs.tabled hs'.tabled (hs.corresponds hs' h)
  simp only [resolves_iff]
  constructor
  · constructor
    · rintro ⟨schema, s, hs, hlink⟩
      obtain ⟨s', hs'⟩ := (exists_loadsRoot_iff h).1 ⟨s, hs⟩
      obtain ⟨ρ, hρ⟩ := hloaded hs hs'
      obtain ⟨schema', hlink'⟩ :=
        (Loaded.exists_link_iff hρ hs.tabled hs'.tabled).1 ⟨schema, hlink⟩
      exact ⟨schema', s', hs', hlink'⟩
    · rintro ⟨schema', s', hs', hlink'⟩
      obtain ⟨s, hs⟩ := (exists_loadsRoot_iff h).2 ⟨s', hs'⟩
      obtain ⟨ρ, hρ⟩ := hloaded hs hs'
      obtain ⟨schema, hlink⟩ :=
        (Loaded.exists_link_iff hρ hs.tabled hs'.tabled).2 ⟨schema', hlink'⟩
      exact ⟨schema, s, hs, hlink⟩
  · rintro schema schema' ⟨s, hs, hlink⟩ ⟨s', hs', hlink'⟩
    obtain ⟨ρ, hρ⟩ := hloaded hs hs'
    exact ⟨ρ, Loaded.reordered_link hρ hs.tabled hs'.tabled hlink hlink'⟩

/-- Two imports and two structs, one of which has a field of a type that is nested in it, and the
same the other way round. -/
theorem resolve_reordered_reverse :
    ∃ (files : List (String × String)) (m m' : Module) (schema schema' : Schema) (ρ : Renaming),
      m.Reordered true m' ∧ Resolves (some (ImportSource.ofList files).read) m schema ∧
      Resolves (some (ImportSource.ofList files).read) m' schema' ∧ schema.Reordered ρ schema' ∧
      schema.modules.map LinkedModule.path = ["::global", "a", "b"] ∧
      schema'.modules.map LinkedModule.path = ["::global", "b", "a"] ∧
      schema.decls.map DeclInfo.name = #["S", "T", "U"] ∧
      schema'.decls.map DeclInfo.name = #["U", "S", "T"] := by
  suffices ∃ (files : List (String × String)) (m m' : Module), m.Reordered true m' ∧
      (resolve (some (.ofList files)) m).result.toOption.map (fun schema =>
        (schema.modules.map LinkedModule.path, schema.decls.map DeclInfo.name)) =
        some (["::global", "a", "b"], #["S", "T", "U"]) ∧
      (resolve (some (.ofList files)) m').result.toOption.map (fun schema =>
        (schema.modules.map LinkedModule.path, schema.decls.map DeclInfo.name)) =
        some (["::global", "b", "a"], #["U", "S", "T"]) by
    obtain ⟨files, m, m', hreordered, hm, hm'⟩ := this
    obtain ⟨schema, hschema, hnames⟩ := exists_ok_of_toOption hm
    obtain ⟨schema', hschema', hnames'⟩ := exists_ok_of_toOption hm'
    have hresolves : Resolves (some (ImportSource.ofList files).read) m schema := ⟨_, hschema⟩
    have hresolves' : Resolves (some (ImportSource.ofList files).read) m' schema' := ⟨_, hschema'⟩
    obtain ⟨ρ, hρ⟩ := (resolve_reordered hreordered).2 schema schema' hresolves hresolves'
    obtain ⟨hpaths, hdecls⟩ := Prod.mk.inj hnames
    obtain ⟨hpaths', hdecls'⟩ := Prod.mk.inj hnames'
    exact ⟨files, m, m', schema, schema', ρ, hreordered, hresolves, hresolves', hρ, hpaths, hpaths',
      hdecls, hdecls'⟩
  refine ⟨[("a", "@6;"), ("b", "@7;")],
    ⟨⟨default, 5⟩, [], [.importAlias ⟨default, none, ⟨default, "a"⟩, []⟩,
      .importAlias ⟨default, none, ⟨default, "b"⟩, []⟩,
      .struct ⟨default, ⟨default, "S"⟩, []⟩
        [.field ⟨default, ⟨default, "x"⟩, ⟨default, 0⟩, .named ⟨default, [⟨default, "T"⟩]⟩, none,
            []⟩,
          .decl (.struct ⟨default, ⟨default, "T"⟩, []⟩ [])],
      .struct ⟨default, ⟨default, "U"⟩, []⟩ []]⟩,
    ⟨⟨default, 5⟩, [], [.struct ⟨default, ⟨default, "U"⟩, []⟩ [],
      .struct ⟨default, ⟨default, "S"⟩, []⟩
        [.decl (.struct ⟨default, ⟨default, "T"⟩, []⟩ []),
          .field ⟨default, ⟨default, "x"⟩, ⟨default, 0⟩, .named ⟨default, [⟨default, "T"⟩]⟩, none,
            []⟩],
      .importAlias ⟨default, none, ⟨default, "b"⟩, []⟩,
      .importAlias ⟨default, none, ⟨default, "a"⟩, []⟩]⟩,
    ?_, by decide +kernel, by decide +kernel⟩
  have hstruct : Decl.Reordered true
      (.struct ⟨default, ⟨default, "S"⟩, []⟩
        [.field ⟨default, ⟨default, "x"⟩, ⟨default, 0⟩, .named ⟨default, [⟨default, "T"⟩]⟩, none,
            []⟩,
          .decl (.struct ⟨default, ⟨default, "T"⟩, []⟩ [])]) _ :=
    .struct (reordered_members true _) ⟨.swap _ _ _, rfl⟩
  exact ⟨rfl, rfl, _, .cons (reordered_decl true _) (.cons (reordered_decl true _) (.cons hstruct
    (.cons (reordered_decl true _) .nil))), (List.reverse_perm _).symm, rfl⟩

end SchemaLang
