import SchemaLang.Proofs.Following.Lookup
import SchemaLang.Proofs.Linking.Walks

/-!
# Aliases and their targets

The name of an alias is bound to what its target is bound to while the alias is hidden.  Hiding
aliases changes a lookup only if it follows one of them, so the name and the target have the same
binding unless the target leads back to the alias: `resolvePath_alias`.
-/

namespace SchemaLang.Loaded

/-! ## Aliases that are followed -/

/-- The stacks of aliases that are met when a target is looked up in a scope and nothing is
hidden. -/
def stacksMet (l : Loaded) (scope : ScopeId) (t : AliasTarget) : List (List AliasKey) :=
  match l.trailTarget (l.trailLookup l.aliasCount) scope t ⟨[], []⟩ with
  | some (_, s) => s.met
  | none => []

/-- Looking a target up in a scope follows an alias. -/
def Follows (l : Loaded) (scope : ScopeId) (t : AliasTarget) (key : AliasKey) : Prop :=
  ∃ stack ∈ l.stacksMet scope t, key ∈ stack

variable {l : Loaded}

/-- Hiding aliases that are not followed changes nothing. -/
theorem targetWith_hiding {scope : ScopeId} {t : AliasTarget} {hidden : List AliasKey}
    (h : ∀ key ∈ hidden, ¬l.Follows scope t key) :
    l.targetWith (l.lookupHiding hidden) scope t = l.targetWith (l.lookupHiding []) scope t := by
  obtain ⟨more, hrun, -, hsame⟩ :=
    ends_trailTarget (Nat.le_refl l.aliasCount) hidden [] scope t []
  have hmet : l.stacksMet scope t = more := by
    rw [stacksMet, hrun]
    exact List.append_nil more
  refine hsame fun stack hstack => List.disjoint_right.2 fun key hkey hmem => ?_
  exact h key hkey ⟨stack, hmet ▸ hstack, hmem⟩

/-! ## Names of aliases -/

variable {scope : ScopeId} {name : String} {target : AliasTarget}

/-- An alias that is not hidden is followed, and hidden meanwhile. -/
theorem lookupHiding_alias (halias : l.scopes[scope]?.bind (·.alias? name) = some target)
    {hidden : List AliasKey} (hvisible : (scope, name) ∉ hidden) :
    l.lookupHiding hidden scope name =
      some <$> l.targetWith (l.lookupHiding ((scope, name) :: hidden)) scope target := by
  rw [← lookupBounded_of_le (Nat.le_succ l.aliasCount), lookupBounded, halias]
  dsimp only
  rw [if_neg hvisible, lookupHiding]

theorem resolvePath_eq_resolveTarget
    (halias : l.scopes[scope]?.bind (·.alias? name) = some target) (span place : Span) :
    l.resolvePath scope ⟨span, [⟨place, name⟩]⟩ = l.resolveTarget scope name target := by
  have hlookup : l.lookupHiding [] scope name =
      some <$> l.targetWith (l.lookupHiding [(scope, name)]) scope target :=
    lookupHiding_alias halias List.not_mem_nil
  rw [resolvePath, pathWith]
  dsimp only
  rw [lookupLexical, lookupOutwards, hlookup, resolveTarget]
  cases l.targetWith (l.lookupHiding [(scope, name)]) scope target with
  | error e => rfl
  | ok b => rfl

/-- The name of an alias has the binding of the alias's target, both looked up in the scope of the
alias, or the same error, unless the target leads back to the alias.  Whether it does or not, this
is what the target gives while the alias is hidden.  What a target is bound to does not depend on
the aliases that the lookup came through, as long as it does not lead back to one of them. -/
theorem resolvePath_alias (l : Loaded) (scope : ScopeId) (name : String) (target : AliasTarget)
    (halias : l.scopes[scope]?.bind (·.alias? name) = some target) (span place : Span) :
    l.resolvePath scope ⟨span, [⟨place, name⟩]⟩ = l.resolveTarget scope name target ∧
    (¬l.Follows scope target (scope, name) →
      (∀ p, target = .path p →
        l.resolvePath scope ⟨span, [⟨place, name⟩]⟩ = l.resolvePath scope p) ∧
      ∀ source segments, target = .imported source segments →
        l.resolvePath scope ⟨span, [⟨place, name⟩]⟩ = l.resolveImported scope source segments) ∧
    ∀ site t hidden, (∀ key ∈ hidden, ¬l.Follows site t key) →
      l.targetWith (l.lookupHiding hidden) site t = l.targetWith (l.lookupHiding []) site t := by
  refine ⟨resolvePath_eq_resolveTarget halias span place, fun hfollows => ?_, ?_⟩
  · have hsame : l.resolvePath scope ⟨span, [⟨place, name⟩]⟩ =
        l.targetWith (l.lookupHiding []) scope target := by
      rw [resolvePath_eq_resolveTarget halias, resolveTarget]
      exact targetWith_hiding (List.forall_mem_singleton.2 hfollows)
    constructor
    · rintro p rfl
      exact hsame
    · rintro source segments rfl
      exact hsame
  · exact fun site t hidden h => targetWith_hiding h

/-- A file with a struct in a struct and, in another one, an alias for the inner by the name of the
outer, and an alias for that alias. -/
def innerByOuterName : Loaded where
  modules := #[⟨"::global", 1, 0, [], []⟩]
  scopes := #[⟨0, [], [("Foo", 0), ("S", 2)], []⟩, ⟨0, [0], [("Bar", 1)], []⟩, ⟨0, [1, 0], [], []⟩,
    ⟨0, [0], [], [("Foo", .path ⟨⟨58, 65⟩, [⟨⟨58, 61⟩, "Foo"⟩, ⟨⟨62, 65⟩, "Bar"⟩]⟩),
      ("Baz", .path ⟨⟨79, 82⟩, [⟨⟨79, 82⟩, "Foo"⟩]⟩)]⟩]
  entries := #[⟨0, none, 0, ⟨⟨13, 16⟩, "Foo"⟩, .struct 1 []⟩,
    ⟨0, some 0, 1, ⟨⟨26, 29⟩, "Bar"⟩, .struct 2 []⟩, ⟨0, none, 0, ⟨⟨42, 43⟩, "S"⟩, .struct 3 []⟩]

/-- An alias for an alias has its binding, since the one does not lead back to the other. -/
theorem resolvePath_alias_of_alias :
    innerByOuterName.scopes[3]?.bind (·.alias? "Baz") =
        some (.path ⟨⟨79, 82⟩, [⟨⟨79, 82⟩, "Foo"⟩]⟩) ∧
      ¬innerByOuterName.Follows 3 (.path ⟨⟨79, 82⟩, [⟨⟨79, 82⟩, "Foo"⟩]⟩) (3, "Baz") ∧
      innerByOuterName.resolvePath 3 ⟨⟨90, 93⟩, [⟨⟨90, 93⟩, "Baz"⟩]⟩ =
        innerByOuterName.resolvePath 3 ⟨⟨79, 82⟩, [⟨⟨79, 82⟩, "Foo"⟩]⟩ ∧
      innerByOuterName.resolvePath 3 ⟨⟨90, 93⟩, [⟨⟨90, 93⟩, "Baz"⟩]⟩ = .ok (.decl 1) := by
  have hfollows :
      ¬innerByOuterName.Follows 3 (.path ⟨⟨79, 82⟩, [⟨⟨79, 82⟩, "Foo"⟩]⟩) (3, "Baz") := by
    rintro ⟨stack, hstack, hmem⟩
    revert stack
    decide
  have halias := resolvePath_alias innerByOuterName 3 "Baz" _ rfl ⟨90, 93⟩ ⟨90, 93⟩
  exact ⟨rfl, hfollows, (halias.2.1 hfollows).1 _ rfl, rfl⟩

/-- The alias by the name of the outer struct stands for the inner one, and yet its target, looked
up in the same scope, is unresolved: the name in it is that of the alias. -/
theorem resolvePath_ne_target :
    innerByOuterName.scopes[3]?.bind (·.alias? "Foo") =
        some (.path ⟨⟨58, 65⟩, [⟨⟨58, 61⟩, "Foo"⟩, ⟨⟨62, 65⟩, "Bar"⟩]⟩) ∧
      innerByOuterName.resolvePath 3 ⟨⟨58, 61⟩, [⟨⟨58, 61⟩, "Foo"⟩]⟩ = .ok (.decl 1) ∧
      innerByOuterName.resolvePath 3 ⟨⟨58, 65⟩, [⟨⟨58, 61⟩, "Foo"⟩, ⟨⟨62, 65⟩, "Bar"⟩]⟩ =
        .ok .unresolved ∧
      resolvedTypes [] ("@0x1; struct Foo \x7b struct Bar \x7b\x7d \x7d " ++
          "struct S \x7b using Foo = Foo.Bar; a @0 :Foo; b @1 :Foo.Bar; \x7d") =
        some (.inr [.decl 1, .unresolved ⟨⟨84, 91⟩, [⟨⟨84, 87⟩, "Foo"⟩, ⟨⟨88, 91⟩, "Bar"⟩]⟩]) := by
  refine ⟨rfl, rfl, rfl, ?_⟩
  decide +kernel

end SchemaLang.Loaded
