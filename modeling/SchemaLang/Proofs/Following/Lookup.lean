import SchemaLang.Proofs.Following.Stack

/-!
# Following aliases ends

A lookup with a stack gives what the lookup without one does, and it never nests more aliases than
there are: `ends_trailLookup` is the step for one alias, and `ends_trailPath` and `ends_trailTarget`
are about whole dotted names.  In a cycle of aliases that are bound nowhere else, every name is
unresolved: `trailPath_ends`.
-/

namespace SchemaLang.Loaded

variable {l : Loaded} {also stack : List AliasKey}

/-! ## Dotted names, given the lookup in one scope -/

section Given

variable {trail : ScopeId → String → Trailing (Option Binding)}
  {lookup lookup' : ScopeId → String → Link (Option Binding)}
  (h : ∀ scope name, l.Ends also stack (trail scope name) (lookup scope name) (lookup' scope name))

include h

theorem ends_trailOutwards (name : String) (scopes : List ScopeId) :
    l.Ends also stack (trailOutwards trail name scopes) (lookupOutwards lookup name scopes)
      (lookupOutwards lookup' name scopes) := by
  induction scopes with
  | nil => exact ends_pure none
  | cons s scopes ih =>
    refine (h s name).bind fun o => ?_
    cases o with
    | none => exact ih
    | some b => exact ends_pure (some b)

theorem ends_trailInside (scope : Option ScopeId) (name : String) :
    l.Ends also stack (trailInside trail scope name) (lookupInside lookup scope name)
      (lookupInside lookup' scope name) := by
  cases scope with
  | none => exact ends_pure none
  | some s => exact h s name

theorem ends_trailSegments (site : ScopeId) (segments : List Ident) :
    ∀ (strict : Bool) (b : Binding),
      l.Ends also stack (l.trailSegments trail site strict b segments)
        (l.followWith lookup site strict b segments)
        (l.followWith lookup' site strict b segments) := by
  induction segments with
  | nil =>
    intro strict b
    rw [trailSegments, followWith, followWith]
    exact ends_pure b
  | cons i is ih =>
    intro strict b
    cases b with
    | builtin b =>
      rw [trailSegments, followWith, followWith]
      exact ends_pure Binding.unresolved
    | unresolved =>
      rw [trailSegments, followWith, followWith]
      exact ends_pure Binding.unresolved
    | decl id =>
      rw [trailSegments, followWith, followWith]
      refine (ends_trailInside h _ i.name).bind fun o => ?_
      cases o with
      | some b => exact ih strict b
      | none =>
        cases strict with
        | true => exact ends_lift _
        | false => exact ends_pure Binding.unresolved
    | module id =>
      rw [trailSegments, followWith, followWith]
      refine (ends_trailInside h _ i.name).bind fun o => ?_
      cases o with
      | some b => exact ih true b
      | none => exact ends_lift _

theorem ends_trailPath_of (scope : ScopeId) (p : Path) :
    l.Ends also stack (l.trailPath trail scope p) (l.pathWith lookup scope p)
      (l.pathWith lookup' scope p) := by
  unfold trailPath pathWith
  cases p.segments with
  | nil => exact ends_pure Binding.unresolved
  | cons first rest =>
    refine (ends_trailOutwards h first.name _).bind fun o => ?_
    cases o with
    | some b => exact ends_trailSegments h scope rest false b
    | none =>
      cases Builtin.ofName? first.name with
      | none => exact ends_pure Binding.unresolved
      | some b =>
        cases rest with
        | nil => exact ends_pure (Binding.builtin b)
        | cons i is => exact ends_pure Binding.unresolved

theorem ends_trailTarget_of (scope : ScopeId) (t : AliasTarget) :
    l.Ends also stack (l.trailTarget trail scope t) (l.targetWith lookup scope t)
      (l.targetWith lookup' scope t) := by
  cases t with
  | path p => exact ends_trailPath_of h scope p
  | imported source segments =>
    exact (ends_lift (l.importedModule scope source)).bind fun id =>
      ends_trailSegments h scope segments true (.module id)

end Given

/-! ## Lookup in one scope -/

/-- The lookup in one scope, with a bound that counts the aliases that are not on the stack.  Each
alias that is followed is one of them, so the bound left over counts the rest. -/
theorem ends_trailLookup_of (also : List AliasKey) (bound : Nat) : ∀ stack : List AliasKey,
    (l.visible stack).card ≤ bound → ∀ scope name,
      l.Ends also stack (l.trailLookup bound scope name) (l.lookupBounded bound stack scope name)
        (l.lookupBounded bound (stack ++ also) scope name) := by
  induction bound with
  | zero =>
    intro stack hcard scope name met
    rw [trailLookup]
    dsimp only
    cases halias : l.scopes[scope]?.bind (·.alias? name) with
    | none => exact ends_lift _ met
    | some target =>
      have hmem : (scope, name) ∈ stack := Decidable.byContradiction fun hnew =>
        Nat.not_lt_of_le hcard (Nat.zero_lt_of_lt (card_visible_lt (mem_aliasKeys halias) hnew))
      rw [if_pos (Trail.isFollowing_iff.2 hmem)]
      exact ends_lift _ met
  | succ bound ih =>
    intro stack hcard scope name met
    rw [trailLookup, lookupBounded, lookupBounded]
    dsimp only
    cases halias : l.scopes[scope]?.bind (·.alias? name) with
    | none => exact ends_lift _ met
    | some target =>
      dsimp only
      by_cases hmem : (scope, name) ∈ stack
      · rw [if_pos (Trail.isFollowing_iff.2 hmem), if_pos hmem,
          if_pos (List.mem_append_left also hmem)]
        exact ends_lift _ met
      · have hkey := mem_aliasKeys halias
        have hless := card_visible_lt hkey hmem
        have htarget := ends_trailTarget_of (ih ((scope, name) :: stack) (by omega)) scope target
        rw [if_neg (mt Trail.isFollowing_iff.1 hmem), if_neg hmem]
        refine (htarget.map some).following hkey hmem ?_ met
        intro hfree
        rw [if_neg fun h => (List.mem_append.1 h).elim hmem hfree]
        rfl

theorem ends_trailLookup {bound : Nat} (hbound : l.aliasCount ≤ bound)
    (also stack : List AliasKey) (scope : ScopeId) (name : String) :
    l.Ends also stack (l.trailLookup bound scope name) (l.lookupHiding stack scope name)
      (l.lookupHiding (stack ++ also) scope name) := by
  have hcard := (card_visible_le stack).trans hbound
  have hends := ends_trailLookup_of also bound stack hcard scope name
  rwa [lookupBounded_of_le hbound, lookupBounded_of_le hbound] at hends

/-- With a bound of as many aliases as there are, a lookup of a dotted name ends. -/
theorem ends_trailPath {bound : Nat} (hbound : l.aliasCount ≤ bound) (also stack : List AliasKey)
    (scope : ScopeId) (p : Path) :
    l.Ends also stack (l.trailPath (l.trailLookup bound) scope p)
      (l.pathWith (l.lookupHiding stack) scope p)
      (l.pathWith (l.lookupHiding (stack ++ also)) scope p) :=
  ends_trailPath_of (ends_trailLookup hbound also stack) scope p

theorem ends_trailTarget {bound : Nat} (hbound : l.aliasCount ≤ bound)
    (also stack : List AliasKey) (scope : ScopeId) (t : AliasTarget) :
    l.Ends also stack (l.trailTarget (l.trailLookup bound) scope t)
      (l.targetWith (l.lookupHiding stack) scope t)
      (l.targetWith (l.lookupHiding (stack ++ also)) scope t) :=
  ends_trailTarget_of (ends_trailLookup hbound also stack) scope t

/-! ## Cycles -/

/-- A scope and those around it, from the innermost on. -/
def outwards (l : Loaded) (scope : ScopeId) : List ScopeId :=
  scope :: (l.scopes[scope]?.map (·.enclosing)).getD []

/-- A name is bound in a scope neither by an alias nor by a declaration. -/
structure Unbound (l : Loaded) (name : String) (scope : ScopeId) : Prop where
  alias? : l.scopes[scope]?.bind (·.alias? name) = none
  declared : l.declared scope name = none

/-- The aliases `names` of a scope stand for one another, each for the next and the last for the
first, and their names are bound nowhere else from that scope outwards. -/
structure AliasCycle (l : Loaded) (scope : ScopeId) {k : Nat} (names : Fin (k + 1) → String) :
    Prop where
  next : ∀ i, ∃ span place, l.scopes[scope]?.bind (·.alias? (names i)) =
    some (.path ⟨span, [⟨place, names (i + 1)⟩]⟩)
  undeclared : ∀ i, l.declared scope (names i) = none
  unbound : ∀ i, ∀ s ∈ (l.outwards scope).tail, l.Unbound (names i) s
  not_builtin : ∀ i, Builtin.ofName? (names i) = none

section Cycles

variable {scope : ScopeId} {bound : Nat} {hidden : List AliasKey} {name : String}

theorem Unbound.lookupBounded (h : l.Unbound name scope) :
    l.lookupBounded bound hidden scope name = .ok none := by
  cases bound with
  | zero => rw [Loaded.lookupBounded, h.declared]
  | succ bound =>
    rw [Loaded.lookupBounded, h.alias?]
    dsimp only
    rw [h.declared]

/-- Scopes in which a name is unbound can be left out. -/
theorem lookupOutwards_append {inner : List ScopeId} (h : ∀ s ∈ inner, l.Unbound name s)
    (scopes : List ScopeId) : lookupOutwards (l.lookupBounded bound hidden) name (inner ++ scopes) =
      lookupOutwards (l.lookupBounded bound hidden) name scopes := by
  induction inner with
  | nil => rfl
  | cons s inner ih =>
    obtain ⟨hs, hinner⟩ := List.forall_mem_cons.1 h
    rw [List.cons_append, lookupOutwards, hs.lookupBounded, ok_bind]
    exact ih hinner

/-- A dotted name is unresolved if its first segment is, or is not found. -/
theorem pathWith_unresolved {lookup : ScopeId → String → Link (Option Binding)} {site : ScopeId}
    (h : l.lookupLexical lookup site name = .ok none ∨
      l.lookupLexical lookup site name = .ok (some .unresolved))
    (hbuiltin : Builtin.ofName? name = none) (span place : Span) (rest : List Ident) :
    l.pathWith lookup site ⟨span, ⟨place, name⟩ :: rest⟩ = .ok .unresolved := by
  rw [pathWith]
  dsimp only
  rcases h with h | h
  · rw [h, ok_bind]
    dsimp only
    rw [hbuiltin]
  · rw [h, ok_bind]
    cases rest <;> rfl

variable {k : Nat} {names : Fin (k + 1) → String}

/-- From its scope outwards, a name of a cycle is not found or unresolved.  The next name of the
cycle is looked up with a smaller bound. -/
theorem AliasCycle.lookupLexical (h : l.AliasCycle scope names) (bound : Nat) :
    ∀ (hidden : List AliasKey) (i : Fin (k + 1)),
      l.lookupLexical (l.lookupBounded bound hidden) scope (names i) = .ok none ∨
        l.lookupLexical (l.lookupBounded bound hidden) scope (names i) =
          .ok (some .unresolved) := by
  have houter (bound hidden) (i : Fin (k + 1)) : lookupOutwards (l.lookupBounded bound hidden)
      (names i) (l.outwards scope).tail = .ok none := by
    have happend : lookupOutwards (l.lookupBounded bound hidden) (names i)
        ((l.outwards scope).tail ++ []) = .ok none := lookupOutwards_append (h.unbound i) []
    rwa [List.append_nil] at happend
  induction bound with
  | zero =>
    intro hidden i
    left
    rw [Loaded.lookupLexical, lookupOutwards, lookupBounded, h.undeclared i, ok_bind]
    exact houter 0 hidden i
  | succ bound ih =>
    intro hidden i
    obtain ⟨span, place, hnext⟩ := h.next i
    rw [Loaded.lookupLexical, lookupOutwards]
    rw [lookupBounded, hnext]
    dsimp only
    by_cases hhidden : (scope, names i) ∈ hidden
    · left
      rw [if_pos hhidden, h.undeclared i, ok_bind]
      exact houter (bound + 1) hidden i
    · right
      have htarget := pathWith_unresolved (ih ((scope, names i) :: hidden) (i + 1))
        (h.not_builtin (i + 1)) span place []
      rw [if_neg hhidden, targetWith, htarget]
      rfl

/-- A dotted name that begins with a name of a cycle is unresolved in the scope of the cycle and in
those inside it, as long as the name is unbound in between. -/
theorem AliasCycle.pathWith (h : l.AliasCycle scope names) {site : ScopeId} {inner : List ScopeId}
    (hsite : l.outwards site = inner ++ l.outwards scope) {i : Fin (k + 1)}
    (hinner : ∀ s ∈ inner, l.Unbound (names i) s) (hidden : List AliasKey) (span place : Span)
    (rest : List Ident) :
    l.pathWith (l.lookupHiding hidden) site ⟨span, ⟨place, names i⟩ :: rest⟩ = .ok .unresolved := by
  refine pathWith_unresolved ?_ (h.not_builtin i) span place rest
  have hcycle := h.lookupLexical l.aliasCount hidden i
  have hlexical : l.lookupLexical (l.lookupHiding hidden) site (names i) =
      l.lookupLexical (l.lookupHiding hidden) scope (names i) := by
    show lookupOutwards _ _ (l.outwards site) = _
    rw [hsite]
    exact lookupOutwards_append hinner (l.outwards scope)
  rwa [hlexical]

end Cycles

/-! ## Dotted names -/

/-- Looking a dotted name up ends, whatever the aliases stand for: with a bound of as many aliases
as there are, it gives what it gives without a stack, and it leaves the stack as it was, also if it
fails.  On the way, only different aliases that are not there yet are pushed, so that no more are
nested than there are.  The names of a cycle of aliases that are bound nowhere else are unresolved,
whatever is hidden and whatever follows them. -/
theorem trailPath_ends (l : Loaded) (stack : List AliasKey) (scope : ScopeId) (p : Path) :
    (∀ bound, l.aliasCount ≤ bound → ∀ met, ∃ more,
      l.trailPath (l.trailLookup bound) scope p ⟨stack, met⟩ =
        some (l.pathWith (l.lookupHiding stack) scope p, ⟨stack, more ++ met⟩) ∧
      ∀ t ∈ more, ∃ nested, t = nested ++ stack ∧ nested.Nodup ∧ nested.Disjoint stack ∧
        nested.length ≤ l.aliasCount) ∧
    ∀ (k : Nat) (names : Fin (k + 1) → String), l.AliasCycle scope names →
      ∀ site inner, l.outwards site = inner ++ l.outwards scope →
        ∀ i, (∀ s ∈ inner, l.Unbound (names i) s) → ∀ hidden span place rest,
          l.pathWith (l.lookupHiding hidden) site ⟨span, ⟨place, names i⟩ :: rest⟩ =
            .ok .unresolved := by
  constructor
  · intro bound hbound met
    obtain ⟨more, hrun, habove, -⟩ := ends_trailPath hbound [] stack scope p met
    refine ⟨more, hrun, fun t ht => ?_⟩
    obtain ⟨nested, rfl, hnodup, hdisjoint, hsub⟩ := habove t ht
    refine ⟨nested, rfl, hnodup, hdisjoint, ?_⟩
    rw [← length_aliasKeys]
    exact (hnodup.subperm hsub).length_le
  · intro k names hcycle site inner hsite i hinner hidden span place rest
    exact hcycle.pathWith hsite hinner hidden span place rest

/-- A file with two aliases that stand for one another, and a struct. -/
def mutualAliases : Loaded where
  modules := #[⟨"::global", 1, 0, [], []⟩]
  scopes := #[⟨0, [], [("S", 0)], [("A", .path ⟨⟨16, 17⟩, [⟨⟨16, 17⟩, "B"⟩]⟩),
    ("B", .path ⟨⟨29, 30⟩, [⟨⟨29, 30⟩, "A"⟩]⟩)]⟩, ⟨0, [0], [], []⟩]
  entries := #[⟨0, none, 0, ⟨⟨39, 40⟩, "S"⟩, .struct 1 []⟩]

/-- Two aliases that stand for one another are unresolved inside a struct, and looking one of them
up nests both. -/
theorem trailPath_ends_mutual :
    mutualAliases.AliasCycle 0 (fun i : Fin 2 => if i = 0 then "A" else "B") ∧
      mutualAliases.resolvePath 1 ⟨⟨49, 50⟩, [⟨⟨49, 50⟩, "A"⟩]⟩ = .ok .unresolved ∧
      ∃ more, mutualAliases.trailPath (mutualAliases.trailLookup 2) 1
          ⟨⟨49, 50⟩, [⟨⟨49, 50⟩, "A"⟩]⟩ ⟨[], []⟩ = some (.ok .unresolved, ⟨[], more⟩) ∧
        [(0, "B"), (0, "A")] ∈ more := by
  have hcycle : mutualAliases.AliasCycle 0 (fun i : Fin 2 => if i = 0 then "A" else "B") :=
    { next := fun
        | 0 => ⟨_, _, rfl⟩
        | 1 => ⟨_, _, rfl⟩
      undeclared := by decide
      unbound := fun _ => nofun
      not_builtin := by decide }
  have hunbound : ∀ s ∈ [1], mutualAliases.Unbound "A" s :=
    List.forall_mem_singleton.2 ⟨rfl, rfl⟩
  have hunresolved : mutualAliases.resolvePath 1 ⟨⟨49, 50⟩, [⟨⟨49, 50⟩, "A"⟩]⟩ = .ok .unresolved :=
    (trailPath_ends mutualAliases [] 0 ⟨⟨49, 50⟩, []⟩).2 1 _ hcycle 1 [1] rfl 0 hunbound [] _ _ []
  exact ⟨hcycle, hunresolved, [[(0, "B"), (0, "A")], [(0, "A")]], rfl, List.mem_cons_self⟩

end SchemaLang.Loaded
