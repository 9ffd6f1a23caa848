import SchemaLang.Link.Linker
import SchemaLang.Proofs.Outcome

/-!
# Walks along dotted names

After its first segment a dotted name is a walk: each segment is looked up in the body or file that
the one before it is bound to.  `Loaded.Leads` is such a walk without the rule for names that are
missing, and `follow_missing` adds the rule: a missing segment is an error once the walk has met a
module, and else it leaves the name unresolved.  `resolveType_isImported_iff` lists what the type of
an import can be.
-/

namespace SchemaLang

/-- A binding to a module. -/
def Binding.isModule : Binding → Bool
  | .module _ => true
  | .decl _ | .builtin _ | .unresolved => false

/-- A binding in which names can be looked up. -/
def Binding.isOpen : Binding → Bool
  | .decl _ | .module _ => true
  | .builtin _ | .unresolved => false

namespace Loaded

variable (l : Loaded)

/-- The scope in which a segment after a binding is looked up. -/
def inside? : Binding → Option ScopeId
  | .decl id => (l.content? id).bind (·.body?)
  | .module id => l.modules[id]?.map (·.scope)
  | .builtin _ | .unresolved => none

/-- The module of what is bound. -/
def home? : Binding → Option ModuleId
  | .decl id => l.entries[id]?.map (·.module)
  | .module id => some id
  | .builtin _ | .unresolved => none

section Given

variable (lookup : ScopeId → String → Link (Option Binding))

/-- Segments lead from one binding to another; `met` tells whether one of the bindings on the way is
a module, both ends included. -/
inductive Leads : Binding → List Ident → (met : Bool) → Binding → Prop
  | here {b : Binding} : Leads b [] b.isModule b
  | step {b b' c : Binding} {i : Ident} {is : List Ident} {met : Bool}
      (found : lookupInside lookup (l.inside? b) i.name = .ok (some b'))
      (rest : Leads b' is met c) : Leads b (i :: is) (b.isModule || met) c

/-- A segment is not among the names in what a binding leads to. -/
structure Missing (b : Binding) (i : Ident) : Prop where
  isOpen : b.isOpen
  unbound : lookupInside lookup (l.inside? b) i.name = .ok none

end Given

variable {l} {lookup : ScopeId → String → Link (Option Binding)}

/-! ## Following segments -/

/-- Looking into a module is strict anyway. -/
theorem followWith_or_isModule (site : ScopeId) (strict : Bool) (b : Binding) (is : List Ident) :
    l.followWith lookup site (strict || b.isModule) b is =
      l.followWith lookup site strict b is := by
  cases b with
  | module => cases is <;> rfl
  | decl | builtin | unresolved => rw [Binding.isModule, Bool.or_false]

/-- One step into a declaration or a module. -/
theorem followWith_cons (site : ScopeId) (strict : Bool) {b : Binding} (hb : b.isOpen) (i : Ident)
    (is : List Ident) : l.followWith lookup site strict b (i :: is) = (do
      match ← lookupInside lookup (l.inside? b) i.name with
      | some b' => l.followWith lookup site (strict || b.isModule) b' is
      | none =>
        if strict || b.isModule then l.notFoundIn site i (l.home? b) else .ok .unresolved) := by
  cases b with
  | decl =>
    rw [Binding.isModule, Bool.or_false]
    rfl
  | module =>
    rw [Binding.isModule, Bool.or_true]
    rfl
  | builtin | unresolved => cases hb

theorem isOpen_of_found {b : Binding} {name : String} {o : Binding}
    (h : lookupInside lookup (l.inside? b) name = .ok (some o)) : b.isOpen := by
  cases b with
  | decl | module => rfl
  | builtin | unresolved => cases h

/-- Segments that lead somewhere can be left out, as long as a module among what they meet is
remembered. -/
theorem Leads.followWith {b c : Binding} {is : List Ident} {met : Bool}
    (h : l.Leads lookup b is met c) (site : ScopeId) (strict : Bool) (rest : List Ident) :
    l.followWith lookup site strict b (is ++ rest) =
      l.followWith lookup site (strict || met) c rest := by
  induction h generalizing strict with
  | here => exact (followWith_or_isModule site strict _ rest).symm
  | step found _ ih =>
    rw [List.cons_append, followWith_cons site strict (isOpen_of_found found), found, ok_bind]
    dsimp only
    rw [ih, Bool.or_assoc]

/-- A segment that is missing where the ones before it lead to. -/
theorem Leads.followWith_missing {b c : Binding} {is : List Ident} {i : Ident} {met : Bool}
    (h : l.Leads lookup b is met c) (hi : l.Missing lookup c i) (site : ScopeId) (strict : Bool)
    (rest : List Ident) : l.followWith lookup site strict b (is ++ i :: rest) =
      if strict || met then l.notFoundIn site i (l.home? c) else .ok .unresolved := by
  induction h generalizing strict with
  | here =>
    rw [List.nil_append, followWith_cons site strict hi.isOpen, hi.unbound]
    rfl
  | step found _ ih =>
    rw [List.cons_append, followWith_cons site strict (isOpen_of_found found), found, ok_bind]
    dsimp only
    rw [ih hi, Bool.or_assoc]

/-! ## Missing segments -/

/-- A segment that is missing at the end of a walk.  In an import it is an error; in a dotted name
it is one if the walk meets a module, and otherwise, be it in a declaration of another module, the
name stays unresolved. -/
theorem follow_missing {hidden : List (ScopeId × String)} {site : ScopeId} {b c : Binding}
    {before : List Ident} {i : Ident} {met : Bool}
    (hwalk : l.Leads (l.lookupHiding hidden) b before met c)
    (hmissing : l.Missing (l.lookupHiding hidden) c i) (rest : List Ident) :
    (∀ span first, l.lookupLexical (l.lookupHiding hidden) site first.name = .ok (some b) →
      l.pathWith (l.lookupHiding hidden) site ⟨span, first :: before ++ i :: rest⟩ =
        if met then l.notFoundIn site i (l.home? c) else .ok .unresolved) ∧
    ∀ source id, b = .module id → l.moduleOf? source.path = some id →
      l.importedWith (l.lookupHiding hidden) site source (before ++ i :: rest) =
        l.notFoundIn site i (l.home? c) := by
  constructor
  · intro span first hfirst
    rw [pathWith]
    dsimp only [List.cons_append]
    rw [hfirst, ok_bind]
    exact hwalk.followWith_missing hmissing site false rest
  · rintro source id rfl hsource
    rw [importedWith, importedModule, hsource]
    exact hwalk.followWith_missing hmissing site true rest

/-- A file with an alias for a struct of another file. -/
def aliasedStruct : Loaded where
  modules := #[⟨"::global", 1, 0, [], []⟩, ⟨"p", 2, 1, [], []⟩]
  scopes := #[⟨0, [], [], [("B", .imported ⟨⟨23, 26⟩, "p"⟩ [⟨⟨27, 28⟩, "B"⟩])]⟩,
    ⟨1, [], [("B", 0)], []⟩, ⟨1, [1], [], []⟩]
  entries := #[⟨1, none, 1, ⟨⟨13, 14⟩, "B"⟩, .struct 2 []⟩]

/-- A name that is missing in a struct of another module stays unresolved behind an alias. -/
theorem follow_missing_alias :
    aliasedStruct.Leads (aliasedStruct.lookupHiding []) (.decl 0) [] false (.decl 0) ∧
      aliasedStruct.Missing (aliasedStruct.lookupHiding []) (.decl 0) ⟨⟨49, 56⟩, "Missing"⟩ ∧
      aliasedStruct.lookupLexical (aliasedStruct.lookupHiding []) 0 "B" = .ok (some (.decl 0)) ∧
      aliasedStruct.pathWith (aliasedStruct.lookupHiding []) 0
        ⟨⟨47, 56⟩, [⟨⟨47, 48⟩, "B"⟩, ⟨⟨49, 56⟩, "Missing"⟩]⟩ = .ok .unresolved := by
  have hwalk : aliasedStruct.Leads (aliasedStruct.lookupHiding []) (.decl 0) [] false (.decl 0) :=
    .here
  have hmissing :
      aliasedStruct.Missing (aliasedStruct.lookupHiding []) (.decl 0) ⟨⟨49, 56⟩, "Missing"⟩ :=
    ⟨rfl, ok_of_toOption (by decide +kernel)⟩
  have hfirst :
      aliasedStruct.lookupLexical (aliasedStruct.lookupHiding []) 0 "B" = .ok (some (.decl 0)) :=
    ok_of_toOption (by decide +kernel)
  exact ⟨hwalk, hmissing, hfirst, (follow_missing hwalk hmissing []).1 _ ⟨⟨47, 48⟩, "B"⟩ hfirst⟩

end Loaded

/-- The types of the fields in the structs at the top level of a schema's files. -/
def Schema.fieldTypes (s : Schema) : List SchemaType :=
  s.modules.flatMap fun m => m.decls.flatMap fun
    | .struct _ ms => ms.filterMap fun
      | .field f => some f.type
      | _ => none
    | _ => []

/-- What resolving a text with some files comes to, as far as `Schema.fieldTypes` shows it. -/
def resolvedTypes (files : List (String × String)) (text : String) :
    Option (SchemaError ⊕ List SchemaType) :=
  (Module.parse text).toOption.map fun m =>
    match (resolve (some (.ofList files)) m).result with
    | .error e => .inl e
    | .ok schema => .inr schema.fieldTypes

/-- A name that is missing in a struct of another module is an error where the name itself imports
the struct, and not where an alias does. -/
theorem resolve_missing_behind_alias :
    resolvedTypes [("p", "@0x2; struct B \x7b\x7d")]
        "@0x1; using B = import \"p\".B; struct A \x7b a @0 :B.Missing; \x7d" =
      some (.inr [.unresolved ⟨⟨47, 56⟩, [⟨⟨47, 48⟩, "B"⟩, ⟨⟨49, 56⟩, "Missing"⟩]⟩]) ∧
    resolvedTypes [("p", "@0x2; struct B \x7b\x7d")]
        "@0x1; struct A \x7b a @0 :import \"p\".B.Missing; \x7d" =
      some (.inl (.linking ⟨"::global", ⟨36, 43⟩, .importedNameNotFound "Missing" "p"⟩)) := by
  constructor <;> decide +kernel

/-! ## Walks that end without a missing segment -/

namespace Loaded

section Given

variable {l : Loaded} {lookup : ScopeId → String → Link (Option Binding)}

/-- One more segment. -/
theorem Leads.concat {b c c' : Binding} {is : List Ident} {met : Bool}
    (h : l.Leads lookup b is met c) {i : Ident}
    (found : lookupInside lookup (l.inside? c) i.name = .ok (some c')) :
    ∃ met, l.Leads lookup b (is ++ [i]) met c' := by
  induction h with
  | here => exact ⟨_, .step found .here⟩
  | step first _ ih =>
    obtain ⟨met, rest⟩ := ih found
    exact ⟨_, .step first rest⟩

/-- A walk is none at all, or it has a last segment. -/
theorem Leads.last {b c : Binding} {is : List Ident} {met : Bool} (h : l.Leads lookup b is met c) :
    (is = [] ∧ b = c) ∨ ∃ before i met b', is = before ++ [i] ∧ l.Leads lookup b before met b' ∧
      lookupInside lookup (l.inside? b') i.name = .ok (some c) := by
  induction h with
  | here => exact .inl ⟨rfl, rfl⟩
  | @step b b' c i is met found rest ih =>
    right
    rcases ih with ⟨rfl, rfl⟩ | ⟨before, j, met, b'', rfl, hbefore, hlast⟩
    · exact ⟨[], i, _, b, rfl, .here, found⟩
    · exact ⟨i :: before, j, _, b'', rfl, .step found hbefore, hlast⟩

theorem followWith_of_not_isOpen {site : ScopeId} {strict : Bool} {b : Binding} {is : List Ident}
    (hb : ¬b.isOpen) (his : is ≠ []) : l.followWith lookup site strict b is = .ok .unresolved := by
  obtain ⟨i, is, rfl⟩ := List.exists_cons_of_ne_nil his
  cases b with
  | decl | module => exact absurd rfl hb
  | builtin | unresolved => rfl

end Given

/-! ## Types of imports -/

variable (l : Loaded)

/-- Segments in a module come to the name of an alias, in a scope that they are looked up in, whose
own target is bound nowhere, or is a builtin type although segments are left. -/
inductive Dangles (id : ModuleId) : List Ident → Prop
  | intro {before rest : List Ident} {i : Ident} {met : Bool} {b b' : Binding} {s : ScopeId}
      {target : AliasTarget} (walk : l.Leads (l.lookupHiding []) (.module id) before met b)
      (inside : l.inside? b = some s) (isAlias : l.scopes[s]?.bind (·.alias? i.name) = some target)
      (found : l.lookupHiding [] s i.name = .ok (some b'))
      (ends : b' = .unresolved ∨ rest ≠ [] ∧ ∃ t, b' = .builtin t) :
      Dangles id (before ++ i :: rest)

variable {l}

/-- Segments that dangle come to nothing. -/
theorem Dangles.followWith {id : ModuleId} {segments : List Ident} (h : l.Dangles id segments)
    (site : ScopeId) :
    l.followWith (l.lookupHiding []) site true (.module id) segments = .ok .unresolved := by
  obtain @⟨before, rest, i, met, b, b', s, target, walk, inside, -, found, ends⟩ := h
  have hfound : lookupInside (l.lookupHiding []) (l.inside? b) i.name = .ok (some b') := by
    rw [inside]
    exact found
  obtain ⟨met, walk⟩ := walk.concat hfound
  rw [List.append_cons, walk.followWith]
  rcases ends with rfl | ⟨hrest, t, rfl⟩
  · cases rest <;> rfl
  · exact followWith_of_not_isOpen nofun hrest

end Loaded

end SchemaLang
