import Mathlib.Data.Finset.Card
import Mathlib.Data.Finset.Range
import SchemaLang.Link.Types
import SchemaLang.Proofs.Outcome

/-!
# The bounds of lookup and inheritance

Looking a name up follows each alias at most once, and listing the bases of an interface follows
each interface at most once.  A greater bound than the number of aliases, or of declarations, thus
changes nothing: `lookupBounded_of_le` and `visit_of_le`.
-/

namespace SchemaLang.Loaded

variable (l : Loaded)

/-! ## Aliases -/

/-- The aliases of all scopes, each by its scope and its name. -/
def aliasKeys : List (ScopeId × String) :=
  l.scopes.toList.zipIdx.flatMap fun x => x.1.aliases.map fun a => (x.2, a.1)

theorem length_aliasKeys : l.aliasKeys.length = l.aliasCount := by
  have hcount (ss : List Scope) : ∀ k n : Nat,
      n + ((ss.zipIdx k).flatMap fun x => x.1.aliases.map fun a => (x.2, a.1)).length =
        ss.foldl (fun n s => n + s.aliases.length) n := by
    induction ss with
    | nil => exact fun _ _ => rfl
    | cons s ss ih =>
      intro k n
      rw [List.zipIdx_cons, List.flatMap_cons, List.length_append, List.length_map, List.foldl_cons,
        ← ih (k + 1), Nat.add_assoc]
  have hall := hcount l.scopes.toList 0 0
  rwa [Nat.zero_add, Array.foldl_toList] at hall

variable {l}

theorem mem_aliasKeys {scope : ScopeId} {name : String} {target : AliasTarget}
    (h : (l.scopes[scope]?.bind (·.alias? name)) = some target) :
    (scope, name) ∈ l.aliasKeys := by
  obtain ⟨s, hs, halias⟩ := Option.bind_eq_some_iff.1 h
  obtain ⟨before, after, haliases, -⟩ := List.lookup_eq_some_iff.1 halias
  rw [← Array.getElem?_toList] at hs
  refine List.mem_flatMap.2 ⟨(s, scope), List.mem_zipIdx_iff_getElem?.2 hs, ?_⟩
  exact List.mem_map.2 ⟨(name, target), by simp [haliases], rfl⟩

/-- The aliases that are not hidden. -/
def visible (l : Loaded) (hidden : List (ScopeId × String)) : Finset (ScopeId × String) :=
  l.aliasKeys.toFinset \ hidden.toFinset

theorem card_visible_lt {hidden : List (ScopeId × String)} {key : ScopeId × String}
    (h : key ∈ l.aliasKeys) (hvisible : key ∉ hidden) :
    (l.visible (key :: hidden)).card < (l.visible hidden).card := by
  have hkey : key ∈ l.visible hidden := by simp [visible, h, hvisible]
  have herase : l.visible (key :: hidden) = (l.visible hidden).erase key := by
    rw [visible, visible, List.toFinset_cons, Finset.sdiff_insert]
  rw [herase]
  exact Finset.card_erase_lt_of_mem hkey

theorem card_visible_le (hidden : List (ScopeId × String)) :
    (l.visible hidden).card ≤ l.aliasCount := by
  rw [← length_aliasKeys]
  exact (Finset.card_le_card Finset.sdiff_subset).trans (List.toFinset_card_le _)

/-- Two bounds that count the aliases that are not hidden give the same. -/
theorem lookupBounded_congr (bound : Nat) : ∀ (bound' : Nat) (hidden : List (ScopeId × String)),
    (l.visible hidden).card ≤ bound → bound ≤ bound' →
      l.lookupBounded bound' hidden = l.lookupBounded bound hidden := by
  induction bound with
  | zero =>
    intro bound' hidden hcard _
    funext scope name
    cases bound' with
    | zero => rfl
    | succ bound' =>
      rw [lookupBounded, lookupBounded]
      cases halias : l.scopes[scope]?.bind (·.alias? name) with
      | none => rfl
      | some target =>
        have hmem : (scope, name) ∈ hidden := Decidable.byContradiction fun hvisible =>
          Nat.not_lt_of_le hcard (Nat.zero_lt_of_lt (card_visible_lt (mem_aliasKeys halias) hvisible))
        exact if_pos hmem
  | succ bound ih =>
    intro bound' hidden hcard hle
    obtain ⟨bound', rfl⟩ : ∃ n, bound' = n + 1 := ⟨bound' - 1, by omega⟩
    funext scope name
    rw [lookupBounded, lookupBounded]
    cases halias : l.scopes[scope]?.bind (·.alias? name) with
    | none => rfl
    | some target =>
      dsimp only
      by_cases hmem : (scope, name) ∈ hidden
      · rw [if_pos hmem, if_pos hmem]
      · have hless := card_visible_lt (mem_aliasKeys halias) hmem
        rw [if_neg hmem, if_neg hmem, ih bound' ((scope, name) :: hidden) (by omega) (by omega)]

/-- No lookup follows more aliases than there are. -/
theorem lookupBounded_of_le {bound : Nat} (h : l.aliasCount ≤ bound)
    (hidden : List (ScopeId × String)) : l.lookupBounded bound hidden = l.lookupHiding hidden :=
  lookupBounded_congr l.aliasCount bound hidden (card_visible_le hidden) h

/-! ## Inheritance -/

/-- The declarations that are not among those whose bases are being followed. -/
def above (l : Loaded) (below : List DeclId) : Finset DeclId :=
  Finset.range l.entries.size \ below.toFinset

theorem card_above_lt {below : List DeclId} {id : DeclId} (h : id < l.entries.size)
    (hnew : id ∉ below) : (l.above (id :: below)).card < (l.above below).card := by
  have hid : id ∈ l.above below := by simp [above, h, hnew]
  have herase : l.above (id :: below) = (l.above below).erase id := by
    rw [above, above, List.toFinset_cons, Finset.sdiff_insert]
  rw [herase]
  exact Finset.card_erase_lt_of_mem hid

theorem card_above_le (below : List DeclId) : (l.above below).card ≤ l.entries.size :=
  (Finset.card_le_card Finset.sdiff_subset).trans (Finset.card_range _).le

/-- Two bounds that count the declarations that may still be met give the same. -/
theorem visit_congr (bound : Nat) : ∀ (bound' : Nat) (below : List DeclId),
    (l.above below).card < bound → bound ≤ bound' → l.visit bound' below = l.visit bound below := by
  induction bound with
  | zero => exact fun _ _ hcard => absurd hcard (Nat.not_lt_zero _)
  | succ bound ih =>
    intro bound' below hcard hle
    obtain ⟨bound', rfl⟩ : ∃ n, bound' = n + 1 := ⟨bound' - 1, by omega⟩
    funext met id
    rw [visit, visit]
    by_cases hbelow : id ∈ below
    · rw [if_pos hbelow, if_pos hbelow]
    · rw [if_neg hbelow, if_neg hbelow]
      by_cases hid : id < l.entries.size
      · have hless := card_above_lt hid hbelow
        rw [ih bound' (id :: below) (by omega) (by omega)]
      · have hbases : l.basesOf id = .ok [] := by
          rw [basesOf, Array.getElem?_eq_none (Nat.le_of_not_lt hid)]
        rw [hbases]
        rfl

/-- No interface has more bases below one another than there are declarations. -/
theorem visit_of_le {bound : Nat} (h : l.entries.size < bound) (id : DeclId) :
    l.visit bound [] [] id = l.ancestry id := by
  rw [ancestry, visit_congr (l.entries.size + 1) bound [] ?_ h]
  exact Nat.lt_succ_of_le (card_above_le [])

end SchemaLang.Loaded
