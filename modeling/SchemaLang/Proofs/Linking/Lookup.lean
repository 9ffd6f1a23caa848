import SchemaLang.Link.Linker
import SchemaLang.Proofs.Linking.Places
import SchemaLang.Proofs.Loading.Entered
import SchemaLang.Proofs.Outcome

/-!
# Bindings

`Yields x P` says of a step of linking that its result, if it has one, satisfies `P`, and that it
does not fail on an import.  Looking names up yields bindings that respect any places that cover
what was loaded: `yields_resolvePath`, `yields_resolveImported` and `yields_resolveTarget`.
-/

namespace SchemaLang

/-! ## Steps of linking -/

/-- The result of the step, if it has one, satisfies `P`, and it does not fail on an import. -/
structure Yields {α : Type} (x : Link α) (P : α → Prop) : Prop where
  ok : ∀ a, x = .ok a → P a
  ne_importing : ∀ e, x ≠ .error (.importing e)

section Yields

variable {α β : Type} {P : α → Prop} {Q : β → Prop} {x : Link α}

theorem yields_ok {a : α} (h : P a) : Yields (.ok a) P :=
  ⟨fun _ e => Except.ok.inj e ▸ h, nofun⟩

theorem yields_fail (l : Loaded) (scope : ScopeId) (span : Span) (cause : LinkCause) :
    Yields (l.fail scope span cause) P :=
  ⟨nofun, nofun⟩

theorem Yields.mono {P' : α → Prop} (h : Yields x P) (hP : ∀ a, P a → P' a) : Yields x P' :=
  ⟨fun a e => hP a (h.ok a e), h.ne_importing⟩

theorem Yields.error {e : SchemaError} (h : Yields (.error e) P) : Yields (.error e) Q :=
  ⟨nofun, fun e' he => h.ne_importing e' (congrArg Except.error (Except.error.inj he))⟩

theorem Yields.bind {f : α → Link β} (h : Yields x P) (hf : ∀ a, P a → Yields (f a) Q) :
    Yields (x >>= f) Q := by
  cases x with
  | error e => exact (h.error : Yields (.error e) Q)
  | ok a => exact hf a (h.ok a rfl)

theorem Yields.map {f : α → β} (h : Yields x P) (hf : ∀ a, P a → Q (f a)) :
    Yields (f <$> x) Q := by
  cases x with
  | error e => exact (h.error : Yields (.error e) Q)
  | ok a => exact yields_ok (hf a (h.ok a rfl))

theorem yields_mapM {f : α → Link β} {as : List α} (h : ∀ a ∈ as, Yields (f a) Q) :
    Yields (as.mapM f) fun bs => ∀ b ∈ bs, Q b := by
  induction as with
  | nil => exact yields_ok nofun
  | cons a as ih =>
    obtain ⟨ha, has⟩ := List.forall_mem_cons.1 h
    rw [List.mapM_cons]
    refine ha.bind fun b hb => (ih has).bind fun bs hbs => yields_ok ?_
    exact List.forall_mem_cons.2 ⟨hb, hbs⟩

theorem yields_foldlM {f : α → β → Link α} {bs : List β} {a : α} (ha : P a)
    (h : ∀ a, ∀ b ∈ bs, P a → Yields (f a b) P) : Yields (bs.foldlM f a) P := by
  induction bs generalizing a with
  | nil => exact yields_ok ha
  | cons b bs ih =>
    rw [List.foldlM_cons]
    exact (h a b List.mem_cons_self ha).bind fun a' ha' =>
      ih ha' fun a b hb => h a b (List.mem_cons_of_mem _ hb)

end Yields

/-! ## What was loaded -/

/-- The places allow all that can be found in what was loaded, each kind in its place. -/
structure Loaded.Covers (l : Loaded) (p : Places) : Prop where
  type : ∀ id, l.isType id → p.type id
  base : ∀ id, l.hasKind id .interface → p.base id
  method : ∀ r, r ∈ l.ownMethods r.interface → p.method r
  const : ∀ id, l.hasKind id .const → p.const id
  enumerant : ∀ id enumerants name ordinal, l.content? id = some (.enum enumerants) →
    enumerants.lookup name = some ordinal → p.enumerant id ordinal
  annotation : ∀ id targets type target, l.content? id = some (.annotationDecl targets type) →
    Loaded.applies targets target → p.annotation id target
  decl : ∀ id, id < l.entries.size → p.decl id
  module : ∀ id, id < l.modules.size → p.module id

/-- What a name is bound to exists. -/
def Binding.Respects (p : Places) : Binding → Prop
  | .decl id => p.decl id
  | .module id => p.module id
  | .builtin _ | .unresolved => True

theorem Binding.respects_reference {p : Places} {b : Binding} (h : b.Respects p) (path : Path) :
    (b.reference path).Respects p := by
  cases b <;> exact h

/-! ## Lookup -/

namespace Loaded

variable {l : Loaded} {p : Places}

theorem lt_size_of_moduleOf? {path : String} {id : ModuleId} (h : l.moduleOf? path = some id) :
    id < l.modules.size := (Array.findIdx?_eq_some_iff_getElem.1 h).1

/-- The declaration that a scope binds a name to exists. -/
theorem respects_declared (hl : l.Linkable) (hp : l.Covers p) (scope : ScopeId) (name : String) :
    ∀ b ∈ l.declared scope name, b.Respects p := by
  rintro b hb
  obtain ⟨id, hid, rfl⟩ := Option.map_eq_some_iff.1 hb
  obtain ⟨s, hs, hname⟩ := Option.bind_eq_some_iff.1 hid
  exact hp.decl id (hl.names s (Array.mem_of_getElem? hs) _ (mem_of_lookup hname))

theorem yields_importedModule (hp : l.Covers p) (site : ScopeId) {source : ImportPath}
    (hsource : source.path ∈ l.paths) : Yields (l.importedModule site source) p.module := by
  obtain ⟨id, hid⟩ := Option.isSome_iff_exists.1 (isSome_moduleOf?_iff.2 hsource)
  rw [importedModule, hid]
  exact yields_ok (hp.module id (lt_size_of_moduleOf? hid))

section Given

variable {lookup : ScopeId → String → Link (Option Binding)}
  (hlookup : ∀ scope name, Yields (lookup scope name) fun o => ∀ b ∈ o, b.Respects p)

include hlookup

theorem yields_lookupOutwards (name : String) (scopes : List ScopeId) :
    Yields (lookupOutwards lookup name scopes) fun o => ∀ b ∈ o, b.Respects p := by
  induction scopes with
  | nil => exact yields_ok nofun
  | cons s scopes ih =>
    rw [lookupOutwards]
    refine (hlookup s name).bind fun o ho => ?_
    cases o with
    | none => exact ih
    | some b => exact yields_ok ho

theorem yields_lookupInside (scope : Option ScopeId) (name : String) :
    Yields (lookupInside lookup scope name) fun o => ∀ b ∈ o, b.Respects p := by
  cases scope with
  | none => exact yields_ok nofun
  | some s => exact hlookup s name

theorem yields_followWith (site : ScopeId) (segments : List Ident) :
    ∀ (strict : Bool) (b : Binding), b.Respects p →
      Yields (l.followWith lookup site strict b segments) fun b => b.Respects p := by
  induction segments with
  | nil =>
    intro strict b hb
    rw [followWith]
    exact yields_ok hb
  | cons i is ih =>
    intro strict b hb
    cases b with
    | builtin b =>
      rw [followWith]
      exact yields_ok trivial
    | unresolved =>
      rw [followWith]
      exact yields_ok trivial
    | decl id =>
      rw [followWith]
      refine (yields_lookupInside hlookup _ i.name).bind fun o ho => ?_
      cases o with
      | some b => exact ih strict b (ho b rfl)
      | none =>
        cases strict with
        | true => exact yields_fail _ _ _ _
        | false => exact yields_ok trivial
    | module id =>
      rw [followWith]
      refine (yields_lookupInside hlookup _ i.name).bind fun o ho => ?_
      cases o with
      | some b => exact ih true b (ho b rfl)
      | none => exact yields_fail _ _ _ _

theorem yields_pathWith (scope : ScopeId) (path : Path) :
    Yields (l.pathWith lookup scope path) fun b => b.Respects p := by
  unfold pathWith
  split
  · exact yields_ok trivial
  · refine (yields_lookupOutwards hlookup _ _).bind fun o ho => ?_
    cases o with
    | some b => exact yields_followWith hlookup scope _ false b (ho b rfl)
    | none =>
      dsimp only
      split
      · exact yields_ok trivial
      · exact yields_ok trivial

theorem yields_importedWith (hp : l.Covers p) (site : ScopeId) {source : ImportPath}
    (hsource : source.path ∈ l.paths) (segments : List Ident) :
    Yields (l.importedWith lookup site source segments) fun b => b.Respects p :=
  (yields_importedModule hp site hsource).bind fun id hid =>
    yields_followWith hlookup site segments true (.module id) hid

theorem yields_targetWith (hp : l.Covers p) (scope : ScopeId) {t : AliasTarget}
    (ht : ∀ source path, t = .imported source path → source.path ∈ l.paths) :
    Yields (l.targetWith lookup scope t) fun b => b.Respects p := by
  cases t with
  | path path => exact yields_pathWith hlookup scope path
  | imported source path => exact yields_importedWith hlookup hp scope (ht source path rfl) path

end Given

/-- Looking a name up in one scope yields what exists, whatever aliases are hidden. -/
theorem yields_lookupBounded (hl : l.Linkable) (hp : l.Covers p) (bound : Nat) :
    ∀ (hidden : List (ScopeId × String)) (scope : ScopeId) (name : String),
      Yields (l.lookupBounded bound hidden scope name) fun o => ∀ b ∈ o, b.Respects p := by
  induction bound with
  | zero => exact fun _ scope name => yields_ok (respects_declared hl hp scope name)
  | succ bound ih =>
    intro hidden scope name
    rw [lookupBounded]
    split
    · next t ht =>
      split
      · exact yields_ok (respects_declared hl hp scope name)
      · obtain ⟨s, hs, halias⟩ := Option.bind_eq_some_iff.1 ht
        refine (yields_targetWith (ih _) hp scope ?_).map fun b hb => ?_
        · exact hl.aliases s (Array.mem_of_getElem? hs) _ (mem_of_lookup halias)
        · exact fun b' hb' => Option.some.inj hb' ▸ hb
    · exact yields_ok (respects_declared hl hp scope name)

theorem yields_resolvePath (hl : l.Linkable) (hp : l.Covers p) (scope : ScopeId) (path : Path) :
    Yields (l.resolvePath scope path) fun b => b.Respects p :=
  yields_pathWith (yields_lookupBounded hl hp _ _) scope path

theorem yields_resolveImported (hl : l.Linkable) (hp : l.Covers p) (site : ScopeId)
    {source : ImportPath} (hsource : source.path ∈ l.paths) (segments : List Ident) :
    Yields (l.resolveImported site source segments) fun b => b.Respects p :=
  yields_importedWith (yields_lookupBounded hl hp _ _) hp site hsource segments

theorem yields_resolveTarget (hl : l.Linkable) (hp : l.Covers p) (scope : ScopeId)
    (name : String) {t : AliasTarget}
    (ht : ∀ source path, t = .imported source path → source.path ∈ l.paths) :
    Yields (l.resolveTarget scope name t) fun b => b.Respects p :=
  yields_targetWith (yields_lookupBounded hl hp _ _) hp scope ht

end Loaded

end SchemaLang
