import SchemaLang.Proofs.Linking.Bounds
import SchemaLang.Proofs.Stateful

/-!
# Lookup with a stack of aliases

Here the aliases that are being followed are kept on a stack that the whole lookup shares: an alias
is pushed before its target is looked up and popped afterwards, also if that fails.
`Loaded.trailLookup`, `Loaded.trailPath` and `Loaded.trailTarget` look names up in this way;
`Trailing.Ends` says how such a lookup ends, and there is one rule for each way of putting lookups
together.
-/

namespace SchemaLang

/-- An alias, by its scope and its name. -/
abbrev AliasKey := ScopeId × String

/-- The aliases that are being followed, the last one first.  `met` lists the stacks so far, the
latest first, each as it was right after an alias was pushed. -/
structure Trail where
  stack : List AliasKey
  met : List (List AliasKey)

/-- An alias is being followed. -/
def Trail.isFollowing (s : Trail) (scope : ScopeId) (name : String) : Bool :=
  s.stack.any fun key => key.1 = scope && key.2 = name

theorem Trail.isFollowing_iff {s : Trail} {scope : ScopeId} {name : String} :
    s.isFollowing scope name ↔ (scope, name) ∈ s.stack := by
  simp [isFollowing, ← Prod.mk.injEq]

/-- A lookup with a stack. -/
abbrev Trailing := Stateful Trail

/-- Follows an alias. -/
def Trailing.following {α : Type} (key : AliasKey) (x : Trailing α) : Trailing α := fun s =>
  (x ⟨key :: s.stack, (key :: s.stack) :: s.met⟩).map fun (y, s) =>
    (y, { s with stack := s.stack.tail })

namespace Loaded

variable (l : Loaded)

/-! ## Dotted names, given the lookup in one scope -/

section Given

variable (lookup : ScopeId → String → Trailing (Option Binding))

/-- Looks a name up in scopes from the innermost on. -/
def trailOutwards (name : String) : List ScopeId → Trailing (Option Binding)
  | [] => return none
  | s :: scopes => do
    match ← lookup s name with
    | some b => return some b
    | none => trailOutwards name scopes

/-- Looks a name up in a scope and in those around it. -/
def trailLexical (scope : ScopeId) (name : String) : Trailing (Option Binding) :=
  trailOutwards lookup name (scope :: ((l.scopes[scope]?.map (·.enclosing)).getD []))

/-- Looks a name up in the body of a declaration or in a file. -/
def trailInside (scope : Option ScopeId) (name : String) : Trailing (Option Binding) :=
  match scope with
  | some s => lookup s name
  | none => return none

/-- Follows segments, written in the scope `site`, into what a binding leads to. -/
def trailSegments (site : ScopeId) : Bool → Binding → List Ident → Trailing Binding
  | _, b, [] => return b
  | _, .builtin _, _ :: _ => return .unresolved
  | _, .unresolved, _ :: _ => return .unresolved
  | strict, .decl id, i :: is => do
    match ← trailInside lookup ((l.content? id).bind (·.body?)) i.name with
    | some b => trailSegments site strict b is
    | none =>
      if strict then .lift (l.notFoundIn site i (l.entries[id]?.map (·.module)))
      else return .unresolved
  | _, .module id, i :: is => do
    match ← trailInside lookup (l.modules[id]?.map (·.scope)) i.name with
    | some b => trailSegments site true b is
    | none => .lift (l.notFoundIn site i (some id))

/-- The binding of a dotted name written in a scope. -/
def trailPath (scope : ScopeId) (p : Path) : Trailing Binding :=
  match p.segments with
  | [] => return .unresolved
  | first :: rest => do
    match ← l.trailLexical lookup scope first.name with
    | some b => l.trailSegments lookup scope false b rest
    | none =>
      match Builtin.ofName? first.name, rest with
      | some b, [] => return .builtin b
      | _, _ => return .unresolved

/-- The binding of segments in an imported module. -/
def trailImported (site : ScopeId) (source : ImportPath) (segments : List Ident) :
    Trailing Binding := do
  l.trailSegments lookup site true (.module (← .lift (l.importedModule site source))) segments

/-- The binding of an alias's target. -/
def trailTarget (scope : ScopeId) : AliasTarget → Trailing Binding
  | .path p => l.trailPath lookup scope p
  | .imported source segments => l.trailImported lookup scope source segments

end Given

/-! ## Lookup in one scope -/

/-- Looks a name up in one scope.  An alias on the stack is hidden; any other is followed, unless
`bound` aliases are nested already. -/
def trailLookup : (bound : Nat) → ScopeId → String → Trailing (Option Binding)
  | bound, scope, name => fun s =>
    match l.scopes[scope]?.bind (·.alias? name) with
    | none => Stateful.lift (.ok (l.declared scope name)) s
    | some target =>
      if s.isFollowing scope name then Stateful.lift (.ok (l.declared scope name)) s
      else match bound with
        | 0 => none
        | bound + 1 =>
          Trailing.following (scope, name)
            (some <$> l.trailTarget (trailLookup bound) scope target) s

/-! ## How a lookup ends -/

/-- A stack that comes of another by following aliases, none of them twice. -/
def Above (stack t : List AliasKey) : Prop :=
  ∃ more, t = more ++ stack ∧ more.Nodup ∧ more.Disjoint stack ∧ more ⊆ l.aliasKeys

variable {l}

theorem above_cons {stack : List AliasKey} {key : AliasKey} (hkey : key ∈ l.aliasKeys)
    (hnew : key ∉ stack) : l.Above stack (key :: stack) := by
  refine ⟨[key], rfl, List.nodup_singleton key, ?_, ?_⟩
  · exact List.disjoint_left.2 fun k hk => List.mem_singleton.1 hk ▸ hnew
  · exact fun k hk => List.mem_singleton.1 hk ▸ hkey

theorem Above.of_cons {stack t : List AliasKey} {key : AliasKey} (h : l.Above (key :: stack) t)
    (hkey : key ∈ l.aliasKeys) (hnew : key ∉ stack) : l.Above stack t := by
  obtain ⟨more, rfl, hnodup, hdisjoint, hsub⟩ := h
  obtain ⟨hmore, hdisjoint⟩ := List.disjoint_cons_right.1 hdisjoint
  refine ⟨more ++ [key], (List.append_cons more key stack), ?_, ?_, ?_⟩
  · exact List.nodup_append.2 ⟨hnodup, List.nodup_singleton key, fun a ha b hb hab =>
      hmore (List.mem_singleton.1 hb ▸ hab ▸ ha)⟩
  · refine List.disjoint_append_left.2 ⟨hdisjoint, ?_⟩
    exact List.disjoint_left.2 fun k hk => List.mem_singleton.1 hk ▸ hnew
  · exact List.append_subset.2 ⟨hsub, fun k hk => List.mem_singleton.1 hk ▸ hkey⟩

/-- No more aliases are nested than there are. -/
theorem Above.length_le {stack t : List AliasKey} (h : l.Above stack t) :
    t.length ≤ l.aliasCount + stack.length := by
  obtain ⟨more, rfl, hnodup, -, hsub⟩ := h
  have hlength := (hnodup.subperm hsub).length_le
  rw [length_aliasKeys] at hlength
  rw [List.length_append]
  omega

variable (l)

/-- The lookup, begun with a stack, ends with the outcome `y` and leaves the stack as it was, and
each stack on the way comes of it by following aliases.  `z` is the outcome with the aliases in
`also` hidden as well: the same, if none of them is followed. -/
def Ends {α : Type} (also stack : List AliasKey) (x : Trailing α) (y z : Link α) : Prop :=
  ∀ met, ∃ more, x ⟨stack, met⟩ = some (y, ⟨stack, more ++ met⟩) ∧
    (∀ t ∈ more, l.Above stack t) ∧ ((∀ t ∈ more, t.Disjoint also) → z = y)

variable {l} {α β : Type} {also stack : List AliasKey}

theorem ends_lift (x : Link α) : l.Ends also stack (.lift x) x x :=
  fun _ => ⟨[], rfl, nofun, fun _ => rfl⟩

theorem ends_pure (a : α) : l.Ends also stack (pure a) (.ok a) (.ok a) := ends_lift (.ok a)

theorem Ends.bind {x : Trailing α} {f : α → Trailing β} {y z : Link α} {g k : α → Link β}
    (h : l.Ends also stack x y z) (hf : ∀ a, l.Ends also stack (f a) (g a) (k a)) :
    l.Ends also stack (x >>= f) (y >>= g) (z >>= k) := by
  intro met
  obtain ⟨more, hx, habove, hz⟩ := h met
  cases y with
  | error e =>
    refine ⟨more, Stateful.bind_error hx, habove, fun hdisjoint => ?_⟩
    rw [hz hdisjoint]
    rfl
  | ok a =>
    obtain ⟨more', hfa, habove', hk⟩ := hf a (more ++ met)
    refine ⟨more' ++ more, ?_, List.forall_mem_append.2 ⟨habove', habove⟩, ?_⟩
    · rw [Stateful.bind_ok hx, List.append_assoc]
      exact hfa
    · intro hdisjoint
      obtain ⟨hdisjoint', hdisjoint⟩ := List.forall_mem_append.1 hdisjoint
      rw [hz hdisjoint]
      exact hk hdisjoint'

theorem Ends.map {x : Trailing α} {y z : Link α} (h : l.Ends also stack x y z) (f : α → β) :
    l.Ends also stack (f <$> x) (f <$> y) (f <$> z) := by
  have hbind := h.bind fun a => ends_pure (l := l) (f a)
  cases y <;> cases z <;> exact hbind

/-- Following an alias that is not on the stack. -/
theorem Ends.following {key : AliasKey} {x : Trailing α} {y z : Link α}
    (hkey : key ∈ l.aliasKeys) (hnew : key ∉ stack) (h : l.Ends also (key :: stack) x y z)
    {z' : Link α} (hz' : key ∉ also → z' = z) : l.Ends also stack (.following key x) y z' := by
  intro met
  obtain ⟨more, hx, habove, hz⟩ := h ((key :: stack) :: met)
  refine ⟨more ++ [key :: stack], ?_, ?_, ?_⟩
  · rw [Trailing.following, hx, List.append_assoc]
    rfl
  · refine List.forall_mem_append.2 ⟨fun t ht => (habove t ht).of_cons hkey hnew, ?_⟩
    exact List.forall_mem_singleton.2 (above_cons hkey hnew)
  · intro hdisjoint
    obtain ⟨hdisjoint, hlast⟩ := List.forall_mem_append.1 hdisjoint
    have hfree := (List.disjoint_cons_left.1 (hlast _ List.mem_cons_self)).1
    rw [hz' hfree]
    exact hz hdisjoint

end Loaded

end SchemaLang
