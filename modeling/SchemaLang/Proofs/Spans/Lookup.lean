import SchemaLang.Link.Linker
import SchemaLang.Proofs.Loading.Run
import SchemaLang.Proofs.Spans.Tables

/-!
# Where lookup points

`sites path span` stands for a node with this span in the module at `path`.  `Locates sites x P`
says of a step of linking that its result, if it has one, satisfies `P`, and that its error points
at sites of the module that it names.  A name is blamed in the module that it is written in, and the
target of an alias in the module that the alias stands in, wherever the lookup came from:
`locates_resolvePath`, `locates_resolveImported` and `locates_resolveTarget`.
-/

namespace SchemaLang

/-! ## Errors that point at sites -/

/-- Where the name or the ordinal of a duplicate was used first. -/
def LinkCause.first? : LinkCause → Option Span
  | .duplicateName _ first | .duplicateOrdinal _ first => some first
  | _ => none

/-- Where the name or the ordinal of a duplicate was used first. -/
def SchemaError.first? : SchemaError → Option Span
  | .linking e => e.cause.first?
  | .parse _ | .importing _ => none

/-- The error names a module, and its spans are sites of this module. -/
def SchemaError.PointsTo (sites : String → Span → Prop) (e : SchemaError) : Prop :=
  ∃ path, e.module? = some path ∧ sites path e.span ∧ ∀ first ∈ e.first?, sites path first

/-- The result of the step, if it has one, satisfies `P`, and its error points at sites. -/
structure Locates {α : Type} (sites : String → Span → Prop) (x : Link α) (P : α → Prop) : Prop where
  ok : ∀ a, x = .ok a → P a
  error : ∀ e, x = .error e → e.PointsTo sites

section Locates

variable {α β : Type} {P : α → Prop} {Q : β → Prop} {x : Link α} {sites : String → Span → Prop}

theorem locates_ok {a : α} (h : P a) : Locates sites (.ok a) P :=
  ⟨fun _ e => Except.ok.inj e ▸ h, nofun⟩

theorem locates_fail {l : Loaded} {scope : ScopeId} {span : Span} {cause : LinkCause}
    (h : sites (l.pathOf scope) span) (hcause : cause.first? = none) :
    Locates sites (l.fail scope span cause) P := by
  refine ⟨nofun, fun e he => ?_⟩
  obtain rfl := Except.error.inj he
  refine ⟨_, rfl, h, fun first hfirst => ?_⟩
  rw [SchemaError.first?, hcause] at hfirst
  cases hfirst

theorem Locates.mono {P' : α → Prop} (h : Locates sites x P) (hP : ∀ a, P a → P' a) :
    Locates sites x P' :=
  ⟨fun a e => hP a (h.ok a e), h.error⟩

theorem Locates.bind {f : α → Link β} (h : Locates sites x P)
    (hf : ∀ a, P a → Locates sites (f a) Q) : Locates sites (x >>= f) Q := by
  cases x with
  | error e => exact ⟨nofun, fun e' he => Except.error.inj he ▸ h.error e rfl⟩
  | ok a => exact hf a (h.ok a rfl)

theorem Locates.map {f : α → β} (h : Locates sites x P) (hf : ∀ a, P a → Q (f a)) :
    Locates sites (f <$> x) Q := by
  cases x with
  | error e => exact ⟨nofun, fun e' he => Except.error.inj he ▸ h.error e rfl⟩
  | ok a => exact locates_ok (hf a (h.ok a rfl))

theorem locates_mapM {f : α → Link β} {as : List α} (h : ∀ a ∈ as, Locates sites (f a) Q) :
    Locates sites (as.mapM f) fun bs => ∀ b ∈ bs, Q b := by
  induction as with
  | nil => exact locates_ok nofun
  | cons a as ih =>
    obtain ⟨ha, has⟩ := List.forall_mem_cons.1 h
    rw [List.mapM_cons]
    refine ha.bind fun b hb => (ih has).bind fun bs hbs => locates_ok ?_
    exact List.forall_mem_cons.2 ⟨hb, hbs⟩

theorem locates_foldlM {f : α → β → Link α} {bs : List β}
    (h : ∀ a, ∀ b ∈ bs, Locates sites (f a b) fun _ => True) :
    ∀ a, Locates sites (bs.foldlM f a) fun _ => True := by
  induction bs with
  | nil => exact fun _ => locates_ok trivial
  | cons b bs ih =>
    obtain ⟨hb, hbs⟩ : (∀ a, Locates sites (f a b) fun _ => True) ∧
        ∀ a, ∀ b ∈ bs, Locates sites (f a b) fun _ => True :=
      ⟨fun a => h a b List.mem_cons_self, fun a b hb => h a b (List.mem_cons_of_mem _ hb)⟩
    intro a
    rw [List.foldlM_cons]
    exact (hb a).bind fun a' _ => ih hbs a'

end Locates

/-! ## What was loaded -/

/-- The tables point at sites: the targets of aliases, the names of declarations and the types that
are kept of them, each in the module of the scope that it is written in. -/
structure Loaded.Located (sites : String → Span → Prop) (l : Loaded) : Prop where
  aliases : ∀ scope s, l.scopes[scope]? = some s → ∀ x ∈ s.aliases, ∀ span ∈ x.2.spans,
    sites (l.pathOf scope) span
  names : ∀ e ∈ l.entries, sites (l.pathOf e.home) e.name.span
  types : ∀ e ∈ l.entries, ∀ x ∈ e.types, ∀ span ∈ x.2.spans, sites (l.pathOf x.1) span

namespace Loaded

variable {l : Loaded} {sites : String → Span → Prop}

/-! ## Lookup -/

section Given

variable {lookup : ScopeId → String → Link (Option Binding)}
  (hlookup : ∀ scope name, Locates sites (lookup scope name) fun _ => True)

include hlookup

theorem locates_lookupOutwards (name : String) (scopes : List ScopeId) :
    Locates sites (lookupOutwards lookup name scopes) fun _ => True := by
  induction scopes with
  | nil => exact locates_ok trivial
  | cons s scopes ih =>
    rw [lookupOutwards]
    refine (hlookup s name).bind fun o _ => ?_
    cases o with
    | none => exact ih
    | some b => exact locates_ok trivial

theorem locates_lookupInside (scope : Option ScopeId) (name : String) :
    Locates sites (lookupInside lookup scope name) fun _ => True := by
  cases scope with
  | none => exact locates_ok trivial
  | some s => exact hlookup s name

/-- Segments are blamed in the module of the scope that they are written in. -/
theorem locates_followWith (site : ScopeId) (segments : List Ident)
    (hsegments : ∀ i ∈ segments, sites (l.pathOf site) i.span) :
    ∀ (strict : Bool) (b : Binding),
      Locates sites (l.followWith lookup site strict b segments) fun _ => True := by
  induction segments with
  | nil =>
    intro strict b
    rw [followWith]
    exact locates_ok trivial
  | cons i is ih =>
    obtain ⟨hi, his⟩ := List.forall_mem_cons.1 hsegments
    intro strict b
    cases b with
    | builtin b =>
      rw [followWith]
      exact locates_ok trivial
    | unresolved =>
      rw [followWith]
      exact locates_ok trivial
    | decl id =>
      rw [followWith]
      refine (locates_lookupInside hlookup _ i.name).bind fun o _ => ?_
      cases o with
      | some b => exact ih his strict b
      | none =>
        cases strict with
        | true => exact locates_fail hi rfl
        | false => exact locates_ok trivial
    | module id =>
      rw [followWith]
      refine (locates_lookupInside hlookup _ i.name).bind fun o _ => ?_
      cases o with
      | some b => exact ih his true b
      | none => exact locates_fail hi rfl

theorem locates_pathWith (scope : ScopeId) {p : Path}
    (hp : ∀ span ∈ p.spans, sites (l.pathOf scope) span) :
    Locates sites (l.pathWith lookup scope p) fun _ => True := by
  unfold pathWith
  split
  · exact locates_ok trivial
  · next first rest hsegments =>
    refine (locates_lookupOutwards hlookup _ _).bind fun o _ => ?_
    cases o with
    | some b =>
      refine locates_followWith hlookup scope rest (fun i hi => hp i.span ?_) false b
      refine List.mem_cons_of_mem _ (List.mem_flatMap.2 ⟨i, ?_, List.mem_cons_self⟩)
      rw [hsegments]
      exact List.mem_cons_of_mem _ hi
    | none =>
      dsimp only
      split
      · exact locates_ok trivial
      · exact locates_ok trivial

omit hlookup in
theorem locates_importedModule (site : ScopeId) {source : ImportPath}
    (hsource : sites (l.pathOf site) source.span) :
    Locates sites (l.importedModule site source) fun _ => True := by
  unfold importedModule
  split
  · exact locates_ok trivial
  · refine ⟨nofun, fun e he => ?_⟩
    obtain rfl := Except.error.inj he
    exact ⟨_, rfl, hsource, nofun⟩

theorem locates_importedWith (site : ScopeId) {source : ImportPath} {segments : List Ident}
    (h : ∀ span ∈ source.spans ++ segments.flatMap Ident.spans, sites (l.pathOf site) span) :
    Locates sites (l.importedWith lookup site source segments) fun _ => True := by
  obtain ⟨hsource, hsegments⟩ := List.forall_mem_append.1 h
  refine (locates_importedModule site (hsource _ List.mem_cons_self)).bind fun id _ => ?_
  refine locates_followWith hlookup site segments (fun i hi => hsegments i.span ?_) true _
  exact List.mem_flatMap.2 ⟨i, hi, List.mem_cons_self⟩

theorem locates_targetWith (scope : ScopeId) {t : AliasTarget}
    (ht : ∀ span ∈ t.spans, sites (l.pathOf scope) span) :
    Locates sites (l.targetWith lookup scope t) fun _ => True := by
  cases t with
  | path p => exact locates_pathWith hlookup scope ht
  | imported source segments => exact locates_importedWith hlookup scope ht

end Given

section Lookup

variable (hl : l.Located sites)
include hl

/-- The target of an alias is blamed in the module that the alias stands in, wherever the lookup
came from. -/
theorem locates_lookupBounded (bound : Nat) :
    ∀ (hidden : List (ScopeId × String)) (scope : ScopeId) (name : String),
      Locates sites (l.lookupBounded bound hidden scope name) fun _ => True := by
  induction bound with
  | zero => exact fun _ _ _ => locates_ok trivial
  | succ bound ih =>
    intro hidden scope name
    rw [lookupBounded]
    split
    · next t ht =>
      split
      · exact locates_ok trivial
      · obtain ⟨s, hs, halias⟩ := Option.bind_eq_some_iff.1 ht
        refine (locates_targetWith (ih _) scope ?_).map fun _ _ => trivial
        exact hl.aliases scope s hs _ (mem_of_lookup halias)
    · exact locates_ok trivial

theorem locates_resolvePath (scope : ScopeId) {p : Path}
    (hp : ∀ span ∈ p.spans, sites (l.pathOf scope) span) :
    Locates sites (l.resolvePath scope p) fun _ => True :=
  locates_pathWith (locates_lookupBounded hl _ _) scope hp

theorem locates_resolveImported (site : ScopeId) {source : ImportPath} {segments : List Ident}
    (h : ∀ span ∈ source.spans ++ segments.flatMap Ident.spans, sites (l.pathOf site) span) :
    Locates sites (l.resolveImported site source segments) fun _ => True :=
  locates_importedWith (locates_lookupBounded hl _ _) site h

theorem locates_resolveTarget (scope : ScopeId) (name : String) {t : AliasTarget}
    (ht : ∀ span ∈ t.spans, sites (l.pathOf scope) span) :
    Locates sites (l.resolveTarget scope name t) fun _ => True :=
  locates_targetWith (locates_lookupBounded hl _ _) scope ht

end Lookup

end Loaded

end SchemaLang
