import SchemaLang.Proofs.Framing.Identifiers
import SchemaLang.Proofs.Linking.Bounds
import SchemaLang.Proofs.Reordering.Agreement
import SchemaLang.Proofs.Reordering.Tables

/-!
# Names with other numbers

`Loaded.Renamed ρ known l l'` says that what can be looked up in `l` under a known name can be
looked up in `l'` with the numbers that `ρ` gives.  Every name of known segments is then bound in
both to the same, up to these numbers: `agree_resolvePath`, `agree_resolveImported` and
`agree_resolveTarget`.  So are types, bases and inherited methods: `agree_resolveType`,
`agree_basesOf` and `agree_effectiveMethods`.
-/

namespace SchemaLang

/-- The binding with other numbers. -/
def Binding.rename (ρ : Renaming) : Binding → Binding
  | .decl id => .decl (ρ.decl id)
  | .module id => .module (ρ.module id)
  | .builtin b => .builtin b
  | .unresolved => .unresolved

theorem Binding.reference_rename (ρ : Renaming) (p : Path) (b : Binding) :
    (b.rename ρ).reference p = (b.reference p).rename ρ := by
  cases b <;> rfl

/-- What can be looked up in the second state under a known name is what can be looked up in the
first, with other numbers.  What is found there mentions known names only. -/
structure Loaded.Renamed (ρ : Renaming) (known : String → Prop) (l l' : Loaded) : Prop where
  declInjective : Function.Injective ρ.decl
  scopeInjective : Function.Injective ρ.scope
  moduleOf? : ∀ path, l'.moduleOf? path = (l.moduleOf? path).map ρ.module
  fileScope : ∀ id, l'.modules[ρ.module id]?.map LoadedModule.scope =
    (l.modules[id]?.map LoadedModule.scope).map ρ.scope
  enclosing : ∀ scope, l'.scopes[ρ.scope scope]?.map Scope.enclosing =
    (l.scopes[scope]?.map Scope.enclosing).map (List.map ρ.scope)
  name? : ∀ scope name, known name → l'.scopes[ρ.scope scope]?.bind (·.name? name) =
    (l.scopes[scope]?.bind (·.name? name)).map ρ.decl
  alias? : ∀ scope name, known name → l'.scopes[ρ.scope scope]?.bind (·.alias? name) =
    l.scopes[scope]?.bind (·.alias? name)
  aliasTargets : ∀ (scope : ScopeId) (name : String) (target : AliasTarget),
    l.scopes[scope]?.bind (·.alias? name) = some target → ∀ n ∈ target.identifiers, known n
  aliasCount : l.aliasCount ≤ l'.aliasCount
  entries : ∀ id, l'.entries[ρ.decl id]? = l.entries[id]?.map (Entry.rename ρ)
  contents : ∀ (id : DeclId) (e : Entry), l.entries[id]? = some e →
    ∀ n ∈ e.content.identifiers, known n
  size : l.entries.size ≤ l'.entries.size

namespace Loaded

variable {ρ : Renaming} {known : String → Prop} {l l' : Loaded}

namespace Renamed

variable (h : l.Renamed ρ known l')
include h

theorem content? (id : DeclId) :
    l'.content? (ρ.decl id) = (l.content? id).map (EntryContent.rename ρ) := by
  rw [Loaded.content?, Loaded.content?, h.entries, Option.map_map, Option.map_map]
  rfl

theorem hasKind (id : DeclId) (kind : DeclKind) :
    l'.hasKind (ρ.decl id) kind = l.hasKind id kind := by
  have hkind : ∀ c : EntryContent, (c.rename ρ).kind = c.kind := fun c => by cases c <;> rfl
  simp only [Loaded.hasKind, h.content?, Option.map_map, Function.comp_def, hkind]

theorem isType (id : DeclId) : l'.isType (ρ.decl id) = l.isType id := by
  simp only [Loaded.isType, h.hasKind]

theorem body? (id : DeclId) : (l'.content? (ρ.decl id)).bind (·.body?) =
    ((l.content? id).bind (·.body?)).map ρ.scope := by
  have hbody : ∀ c : EntryContent, (c.rename ρ).body? = c.body?.map ρ.scope :=
    fun c => by cases c <;> rfl
  rw [h.content?]
  cases l.content? id with
  | none => rfl
  | some c => exact hbody c

theorem declared (scope : ScopeId) {name : String} (hname : known name) :
    l'.declared (ρ.scope scope) name = (l.declared scope name).map (Binding.rename ρ) := by
  rw [Loaded.declared, Loaded.declared, h.name? scope name hname, Option.map_map, Option.map_map]
  rfl

end Renamed

/-! ## Dotted names, given the lookup in one scope -/

section Given

variable {lookup lookup' : ScopeId → String → Link (Option Binding)}
  (hlookup : ∀ scope name, known name → AgreeBy (Option.map (Binding.rename ρ))
    (lookup scope name) (lookup' (ρ.scope scope) name))

include hlookup

theorem agree_lookupOutwards {name : String} (hname : known name) (scopes : List ScopeId) :
    AgreeBy (Option.map (Binding.rename ρ)) (lookupOutwards lookup name scopes)
      (lookupOutwards lookup' name (scopes.map ρ.scope)) := by
  induction scopes with
  | nil => exact .ok rfl
  | cons s scopes ih =>
    rw [List.map_cons, lookupOutwards, lookupOutwards]
    refine (hlookup s name hname).bind fun o => ?_
    cases o with
    | none => exact ih
    | some b => exact .ok rfl

theorem agree_lookupInside (scope : Option ScopeId) {name : String} (hname : known name) :
    AgreeBy (Option.map (Binding.rename ρ)) (lookupInside lookup scope name)
      (lookupInside lookup' (scope.map ρ.scope) name) := by
  cases scope with
  | none => exact .ok rfl
  | some s => exact hlookup s name hname

variable (h : l.Renamed ρ known l')
include h

theorem agree_lookupLexical (scope : ScopeId) {name : String} (hname : known name) :
    AgreeBy (Option.map (Binding.rename ρ)) (l.lookupLexical lookup scope name)
      (l'.lookupLexical lookup' (ρ.scope scope) name) := by
  rw [lookupLexical, lookupLexical, h.enclosing]
  have houtwards := agree_lookupOutwards hlookup hname
    (scope :: (l.scopes[scope]?.map Scope.enclosing).getD [])
  cases he : l.scopes[scope]?.map Scope.enclosing with
  | none => rwa [he] at houtwards
  | some scopes => rwa [he] at houtwards

theorem agree_followWith (site : ScopeId) {segments : List Ident}
    (hsegments : ∀ n ∈ segments.map Ident.name, known n) :
    ∀ (strict : Bool) (b : Binding),
      AgreeBy (Binding.rename ρ) (l.followWith lookup site strict b segments)
        (l'.followWith lookup' (ρ.scope site) strict (b.rename ρ) segments) := by
  induction segments with
  | nil => exact fun strict b => by cases b <;> exact .ok rfl
  | cons i segments ih =>
    obtain ⟨hi, hsegments⟩ := List.forall_mem_cons.1 hsegments
    intro strict b
    cases b with
    | builtin | unresolved => exact .ok rfl
    | decl id =>
      rw [Binding.rename, followWith, followWith, h.body?]
      refine (agree_lookupInside hlookup _ hi).bind fun o => ?_
      cases o with
      | some b => exact ih hsegments strict b
      | none =>
        cases strict with
        | false => exact .ok rfl
        | true => exact .error
    | module id =>
      rw [Binding.rename, followWith, followWith, h.fileScope]
      refine (agree_lookupInside hlookup _ hi).bind fun o => ?_
      cases o with
      | some b => exact ih hsegments true b
      | none => exact .error

theorem agree_pathWith (scope : ScopeId) {p : Path} (hp : ∀ n ∈ p.identifiers, known n) :
    AgreeBy (Binding.rename ρ) (l.pathWith lookup scope p)
      (l'.pathWith lookup' (ρ.scope scope) p) := by
  rw [Path.identifiers] at hp
  rw [pathWith, pathWith]
  cases hsegments : p.segments with
  | nil => exact .ok rfl
  | cons first rest =>
    rw [hsegments] at hp
    obtain ⟨hfirst, hrest⟩ := List.forall_mem_cons.1 hp
    refine (agree_lookupLexical hlookup h scope hfirst).bind fun o => ?_
    cases o with
    | some b => exact agree_followWith hlookup h scope hrest false b
    | none =>
      cases Builtin.ofName? first.name with
      | none => exact .ok rfl
      | some b =>
        cases rest with
        | nil => exact .ok rfl
        | cons => exact .ok rfl

omit hlookup in
theorem agree_importedModule (site : ScopeId) (source : ImportPath) :
    AgreeBy ρ.module (l.importedModule site source) (l'.importedModule (ρ.scope site) source) := by
  rw [importedModule, importedModule, h.moduleOf?]
  cases l.moduleOf? source.path with
  | none => exact .error
  | some id => exact .ok rfl

theorem agree_importedWith (site : ScopeId) (source : ImportPath) {segments : List Ident}
    (hsegments : ∀ n ∈ segments.map Ident.name, known n) :
    AgreeBy (Binding.rename ρ) (l.importedWith lookup site source segments)
      (l'.importedWith lookup' (ρ.scope site) source segments) :=
  (agree_importedModule h site source).bind fun id =>
    agree_followWith hlookup h site hsegments true (.module id)

theorem agree_targetWith (scope : ScopeId) {target : AliasTarget}
    (htarget : ∀ n ∈ target.identifiers, known n) :
    AgreeBy (Binding.rename ρ) (l.targetWith lookup scope target)
      (l'.targetWith lookup' (ρ.scope scope) target) := by
  cases target with
  | path p => exact agree_pathWith hlookup h scope htarget
  | imported source segments => exact agree_importedWith hlookup h scope source htarget

end Given

/-! ## Dotted names -/

section Names

variable (h : l.Renamed ρ known l')
include h

/-- Looking up renames the aliases that are hidden. -/
theorem agree_lookupBounded (bound : Nat) : ∀ (hidden : List (ScopeId × String)) (scope : ScopeId)
    (name : String), known name → AgreeBy (Option.map (Binding.rename ρ))
      (l.lookupBounded bound hidden scope name)
      (l'.lookupBounded bound (hidden.map (Prod.map ρ.scope id)) (ρ.scope scope) name) := by
  induction bound with
  | zero => exact fun _ scope _ hname => .ok (h.declared scope hname)
  | succ bound ih =>
    intro hidden scope name hname
    rw [lookupBounded, lookupBounded, h.alias? scope name hname]
    cases halias : l.scopes[scope]?.bind (·.alias? name) with
    | none => exact .ok (h.declared scope hname)
    | some target =>
      have hinjective : Function.Injective (Prod.map ρ.scope (id : String → String)) :=
        h.scopeInjective.prodMap Function.injective_id
      have hhidden : (ρ.scope scope, name) ∈ hidden.map (Prod.map ρ.scope id) ↔
          (scope, name) ∈ hidden := List.mem_map_of_injective hinjective (a := (scope, name))
      dsimp only
      by_cases hmem : (scope, name) ∈ hidden
      · rw [if_pos hmem, if_pos (hhidden.2 hmem)]
        exact .ok (h.declared scope hname)
      · rw [if_neg hmem, if_neg (mt hhidden.1 hmem)]
        have htarget := h.aliasTargets scope name target halias
        exact (agree_targetWith (ih ((scope, name) :: hidden)) h scope htarget).map fun b => rfl

theorem agree_lookupHiding (hidden : List (ScopeId × String)) (scope : ScopeId) (name : String)
    (hname : known name) : AgreeBy (Option.map (Binding.rename ρ)) (l.lookupHiding hidden scope name)
      (l'.lookupHiding (hidden.map (Prod.map ρ.scope id)) (ρ.scope scope) name) := by
  rw [← lookupBounded_of_le h.aliasCount, lookupHiding]
  exact agree_lookupBounded h _ hidden scope name hname

theorem agree_resolvePath (scope : ScopeId) {p : Path} (hp : ∀ n ∈ p.identifiers, known n) :
    AgreeBy (Binding.rename ρ) (l.resolvePath scope p) (l'.resolvePath (ρ.scope scope) p) :=
  agree_pathWith (agree_lookupHiding h []) h scope hp

theorem agree_resolveImported (site : ScopeId) (source : ImportPath) {segments : List Ident}
    (hsegments : ∀ n ∈ segments.map Ident.name, known n) :
    AgreeBy (Binding.rename ρ) (l.resolveImported site source segments)
      (l'.resolveImported (ρ.scope site) source segments) :=
  agree_importedWith (agree_lookupHiding h []) h site source hsegments

theorem agree_resolveTarget (scope : ScopeId) (name : String) {target : AliasTarget}
    (htarget : ∀ n ∈ target.identifiers, known n) :
    AgreeBy (Binding.rename ρ) (l.resolveTarget scope name target)
      (l'.resolveTarget (ρ.scope scope) name target) :=
  agree_targetWith (agree_lookupHiding h [(scope, name)]) h scope htarget

/-! ## Types -/

theorem agree_typeOfBinding (scope : ScopeId) (t : TypeRef) (p : Path) (b : Binding) :
    AgreeBy (SchemaType.rename ρ) (l.typeOfBinding scope t p b)
      (l'.typeOfBinding (ρ.scope scope) t p (b.rename ρ)) := by
  cases b with
  | decl id =>
    rw [Binding.rename, typeOfBinding, typeOfBinding, h.isType]
    cases l.isType id with
    | false => exact .error
    | true => exact .ok rfl
  | module => exact .error
  | builtin | unresolved => exact .ok rfl

theorem agree_resolveType (scope : ScopeId) : ∀ t : TypeRef, (∀ n ∈ t.identifiers, known n) →
    AgreeBy (SchemaType.rename ρ) (l.resolveType scope t) (l'.resolveType (ρ.scope scope) t)
  | .named p, ht =>
    (agree_resolvePath h scope ht).bind fun b => agree_typeOfBinding h scope _ p b
  | .list _ element, ht => (agree_resolveType scope element ht).map fun _ => rfl
  | .imported _ source _, ht =>
    (agree_resolveImported h scope source ht).bind fun b => agree_typeOfBinding h scope _ _ b

/-! ## Bases -/

theorem agree_baseOfBinding (scope : ScopeId) (t : TypeRef) (b : Binding) :
    AgreeBy ρ.decl (l.baseOfBinding scope t b)
      (l'.baseOfBinding (ρ.scope scope) t (b.rename ρ)) := by
  cases b with
  | decl id =>
    rw [Binding.rename, baseOfBinding, baseOfBinding, h.hasKind]
    cases l.hasKind id .interface with
    | false => exact .error
    | true => exact .ok rfl
  | module | builtin | unresolved => exact .error

theorem agree_resolveBase (scope : ScopeId) {t : TypeRef} (ht : ∀ n ∈ t.identifiers, known n) :
    AgreeBy ρ.decl (l.resolveBase scope t) (l'.resolveBase (ρ.scope scope) t) := by
  cases t with
  | named p => exact (agree_resolvePath h scope ht).bind fun b => agree_baseOfBinding h scope _ b
  | list => exact .error
  | imported span source segments =>
    exact (agree_resolveImported h scope source ht).bind fun b => agree_baseOfBinding h scope _ b

theorem agree_basesOf (id : DeclId) :
    AgreeBy (List.map ρ.decl) (l.basesOf id) (l'.basesOf (ρ.decl id)) := by
  rw [basesOf, basesOf, h.entries]
  cases he : l.entries[id]? with
  | none => exact .ok rfl
  | some e =>
    obtain ⟨module, parent, home, name, content⟩ := e
    cases content with
    | interface body bases methods =>
      have hbases := List.forall_mem_flatMap.1 (h.contents id _ he)
      exact agreeBy_mapM bases fun t ht => agree_resolveBase h home (hbases t ht)
    | _ => exact .ok rfl

/-! ## Inheritance -/

theorem ownMethods_rename (id : DeclId) :
    l'.ownMethods (ρ.decl id) = (l.ownMethods id).map (MethodRef.rename ρ) := by
  rw [ownMethods, ownMethods, h.content?]
  cases l.content? id with
  | none => rfl
  | some c =>
    cases c with
    | interface body bases methods =>
      rw [Option.map_some, EntryContent.rename]
      dsimp only
      rw [List.map_map]
      rfl
    | _ => rfl

theorem agree_cyclic {α β : Type} {R : α → β → Prop} (id : DeclId) :
    Agree R (l.cyclic id) (l'.cyclic (ρ.decl id)) := by
  rw [cyclic, cyclic, h.entries]
  cases l.entries[id]? with
  | none => exact .error
  | some e => exact .error

/-- Following bases renames the interfaces that are met. -/
theorem agree_visit (bound : Nat) : ∀ (below met : List DeclId) (id : DeclId),
    AgreeBy (List.map ρ.decl) (l.visit bound below met id)
      (l'.visit bound (below.map ρ.decl) (met.map ρ.decl) (ρ.decl id)) := by
  induction bound with
  | zero => exact fun _ _ _ => .ok rfl
  | succ bound ih =>
    intro below met id
    rw [visit, visit]
    simp only [List.mem_map_of_injective h.declInjective]
    by_cases hbelow : id ∈ below
    · rw [if_pos hbelow, if_pos hbelow]
      exact agree_cyclic h id
    · rw [if_neg hbelow, if_neg hbelow]
      by_cases hmet : id ∈ met
      · rw [if_pos hmet, if_pos hmet]
        exact .ok rfl
      · rw [if_neg hmet, if_neg hmet]
        refine (agree_basesOf h id).bind fun bases => ?_
        have hfold := agreeBy_foldlM bases (ih (id :: below)) (met ++ [id])
        rwa [List.map_append] at hfold

theorem agree_ancestry (id : DeclId) :
    AgreeBy (List.map ρ.decl) (l.ancestry id) (l'.ancestry (ρ.decl id)) := by
  rw [← visit_of_le (Nat.lt_succ_of_le h.size), ancestry]
  exact agree_visit h (l'.entries.size + 1) [] [] id

theorem agree_effectiveMethods (id : DeclId) :
    AgreeBy (List.map (MethodRef.rename ρ)) (l.effectiveMethods id)
      (l'.effectiveMethods (ρ.decl id)) := by
  refine (agree_ancestry h id).bind fun ids => .ok ?_
  rw [List.flatMap_map, List.map_flatMap]
  simp only [ownMethods_rename h]

end Names

end Loaded

end SchemaLang
