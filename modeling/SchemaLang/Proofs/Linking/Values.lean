import SchemaLang.Proofs.Linking.Lookup

/-!
# Types, inherited methods and values

The declarations in a resolved type, the methods that an interface inherits, and the constants and
enumerants in a value respect the places: `yields_resolveType`, `yields_effectiveMethods` and
`yields_eval`.
-/

namespace SchemaLang.Loaded

variable {l : Loaded} {p : Places} (hl : l.Linkable) (hp : l.Covers p)

/-! ## Types -/

section Types

include hp

theorem yields_typeOfBinding (scope : ScopeId) (t : TypeRef) (path : Path) (b : Binding) :
    Yields (l.typeOfBinding scope t path b) fun t => t.Respects p := by
  cases b with
  | decl id =>
    rw [typeOfBinding]
    split
    · next h => exact yields_ok (hp.type id h)
    · exact yields_fail _ _ _ _
  | module id => exact yields_fail _ _ _ _
  | builtin b => exact yields_ok trivial
  | unresolved => exact yields_ok trivial

include hl

theorem yields_resolveType (scope : ScopeId) (t : TypeRef)
    (ht : ∀ i ∈ t.imports, i.path ∈ l.paths) :
    Yields (l.resolveType scope t) fun t => t.Respects p := by
  induction t with
  | named path =>
    rw [resolveType]
    exact (yields_resolvePath hl hp scope path).bind fun b _ => yields_typeOfBinding hp _ _ _ b
  | list span t ih =>
    rw [resolveType]
    exact (ih ht).map fun t h => h
  | imported span source segments =>
    rw [resolveType]
    have hsource := ht source (List.mem_singleton_self _)
    exact (yields_resolveImported hl hp scope hsource segments).bind fun b _ =>
      yields_typeOfBinding hp _ _ _ b

end Types

/-! ## Bases and inherited methods -/

section Bases

include hp

theorem yields_baseOfBinding (scope : ScopeId) (t : TypeRef) (b : Binding) :
    Yields (l.baseOfBinding scope t b) p.base := by
  cases b with
  | decl id =>
    rw [baseOfBinding]
    split
    · next h => exact yields_ok (hp.base id h)
    · exact yields_fail _ _ _ _
  | module id => exact yields_fail _ _ _ _
  | builtin b => exact yields_fail _ _ _ _
  | unresolved => exact yields_fail _ _ _ _

include hl

theorem yields_resolveBase (scope : ScopeId) (t : TypeRef)
    (ht : ∀ i ∈ t.imports, i.path ∈ l.paths) : Yields (l.resolveBase scope t) p.base := by
  cases t with
  | named path =>
    rw [resolveBase]
    exact (yields_resolvePath hl hp scope path).bind fun b _ => yields_baseOfBinding hp _ _ b
  | list span t => exact yields_fail _ _ _ _
  | imported span source segments =>
    rw [resolveBase]
    have hsource := ht source (List.mem_singleton_self _)
    exact (yields_resolveImported hl hp scope hsource segments).bind fun b _ =>
      yields_baseOfBinding hp _ _ b

theorem yields_basesOf (id : DeclId) :
    Yields (l.basesOf id) fun bases => ∀ id ∈ bases, p.base id := by
  unfold basesOf
  split
  · next e he =>
    split
    · next body bases methods hcontent =>
      have hcontents := hl.contents e (Array.mem_of_getElem? he)
      refine yields_mapM fun t ht => yields_resolveBase hl hp e.home t fun i hi => hcontents i ?_
      rw [hcontent]
      exact List.mem_flatMap.2 ⟨t, ht, hi⟩
    · exact yields_ok nofun
  · exact yields_ok nofun

/-- Collecting an interface and its bases does not fail on an import. -/
theorem yields_visit (bound : Nat) :
    ∀ (below met : List DeclId) (id : DeclId),
      Yields (l.visit bound below met id) fun _ => True := by
  induction bound with
  | zero => exact fun _ _ _ => yields_ok trivial
  | succ bound ih =>
    intro below met id
    rw [visit]
    split
    · unfold cyclic
      split
      · exact yields_fail _ _ _ _
      · exact yields_fail _ _ _ _
    · split
      · exact yields_ok trivial
      · exact (yields_basesOf hl hp id).bind fun bases _ =>
          yields_foldlM trivial fun met base _ _ => ih _ met base

theorem yields_effectiveMethods (id : DeclId) :
    Yields (l.effectiveMethods id) fun methods => ∀ r ∈ methods, p.method r := by
  refine (yields_visit hl hp _ _ _ id).bind fun ids _ => yields_ok fun r hr => ?_
  obtain ⟨id, -, hr⟩ := List.mem_flatMap.1 hr
  have hinterface : r.interface = id := by
    unfold ownMethods at hr
    split at hr
    · obtain ⟨x, -, rfl⟩ := List.mem_map.1 hr
      rfl
    · cases hr
  exact hp.method r (hinterface ▸ hr)

end Bases

/-! ## Values -/

section Values

variable (scope : ScopeId)

theorem yields_mismatch {α : Type} {P : α → Prop} (t : SchemaType) (literal : Literal) :
    Yields (l.mismatch scope t literal) P := yields_fail _ _ _ _

theorem yields_numeralValue (b : Builtin) (literal : Literal) (span : Span) (s : String) :
    Yields (l.numeralValue scope b literal span s) fun v => v.Respects p := by
  unfold numeralValue
  split
  · exact yields_mismatch scope _ _
  · split
    · exact yields_ok trivial
    · exact yields_ok trivial
    · exact yields_fail _ _ _ _

theorem yields_builtinValue (b : Builtin) (literal : Literal) :
    Yields (l.builtinValue scope b literal) fun v => v.Respects p := by
  unfold builtinValue
  split
  · exact yields_ok trivial
  · exact yields_ok trivial
  · exact yields_ok trivial
  · exact yields_ok trivial
  · exact yields_numeralValue scope _ _ _ _
  · exact yields_numeralValue scope _ _ _ _
  · exact yields_mismatch scope _ _

include hl hp

theorem yields_constValue (path : Path) :
    Yields (l.constValue scope path) fun v => v.Respects p := by
  refine (yields_resolvePath hl hp scope path).bind fun b _ => ?_
  cases b with
  | decl id =>
    dsimp only
    split
    · next h => exact yields_ok (hp.const id h)
    · exact yields_fail _ _ _ _
  | module id => exact yields_fail _ _ _ _
  | builtin b => exact yields_fail _ _ _ _
  | unresolved => exact yields_ok trivial

theorem yields_enumerantValue {id : DeclId} {enumerants : List (String × Nat)}
    (hid : l.content? id = some (.enum enumerants)) (path : Path) (i : Ident) :
    Yields (l.enumerantValue scope id enumerants path i) fun v => v.Respects p := by
  unfold enumerantValue
  dsimp only
  split
  · next h => exact yields_ok (hp.enumerant id enumerants i.name _ hid h)
  · refine (yields_resolvePath hl hp scope path).bind fun b _ => ?_
    split
    · split
      · next c h => exact yields_ok (hp.const _ h)
      · exact yields_fail _ _ _ _
    · exact yields_fail _ _ _ _

theorem yields_nameValue (t : SchemaType) (path : Path) :
    Yields (l.nameValue scope t path) fun v => v.Respects p := by
  unfold nameValue
  split
  · split
    · next hcontent _ => exact yields_enumerantValue hl hp scope hcontent _ _
    · exact yields_constValue hl hp scope path
  · exact yields_constValue hl hp scope path

theorem yields_fieldType {c : FieldContent} (hc : ∀ i ∈ c.imports, i.path ∈ l.paths) :
    Yields (l.fieldType c) fun _ => True := by
  cases c with
  | typed t home => exact (yields_resolveType hl hp home t hc).mono fun _ _ => trivial
  | nested id => exact yields_ok trivial

omit hp in
/-- The types of the fields of a declaration import only what leads to a module. -/
theorem imports_of_fields? {id : DeclId} {fields : List FieldEntry}
    (h : (l.content? id).bind EntryContent.fields? = some fields) :
    ∀ f ∈ fields, ∀ i ∈ f.content.imports, i.path ∈ l.paths := by
  obtain ⟨c, hc, hfields⟩ := Option.bind_eq_some_iff.1 h
  obtain ⟨e, he, rfl⟩ := Option.map_eq_some_iff.1 hc
  have hcontents := hl.contents e (Array.mem_of_getElem? he)
  intro f hf i hi
  refine hcontents i ?_
  cases hcontent : e.content with
  | struct | union | group =>
    rw [hcontent] at hfields
    obtain rfl := Option.some.inj hfields
    exact List.mem_flatMap.2 ⟨f, hf, hi⟩
  | _ =>
    rw [hcontent] at hfields
    cases hfields

end Values

mutual

theorem yields_eval (hl : l.Linkable) (hp : l.Covers p) (scope : ScopeId) :
    ∀ (literal : Literal) (t : SchemaType), Yields (l.eval scope t literal) fun v => v.Respects p
  | .name path, t => by
    cases t with
    | unresolved => exact yields_ok trivial
    | builtin | decl | list =>
      rw [eval]
      · exact yields_nameValue hl hp scope _ path
      · nofun
  | .list span items, t => by
    cases t with
    | unresolved => exact yields_ok trivial
    | list element =>
      rw [eval]
      exact (yields_evalItems hl hp scope items element).map fun vs h => h
    | builtin | decl => exact yields_mismatch scope _ _
  | .struct span inits, t => by
    cases t with
    | unresolved => exact yields_ok trivial
    | decl id =>
      rw [eval]
      split
      · next fields h =>
        exact (yields_evalFields hl hp scope id (imports_of_fields? hl h) inits).map fun vs h => h
      · exact yields_mismatch scope _ _
    | builtin | list => exact yields_mismatch scope _ _
  | .void _, t | .bool _ _, t | .int _ _, t | .float _ _, t | .text _ _, t => by
    cases t with
    | unresolved => exact yields_ok trivial
    | builtin b => exact yields_builtinValue scope b _
    | decl | list => exact yields_mismatch scope _ _

theorem yields_evalItems (hl : l.Linkable) (hp : l.Covers p) (scope : ScopeId) :
    ∀ (items : List Literal) (element : SchemaType),
      Yields (l.evalItems scope element items) (itemsRespect p)
  | [], _ => yields_ok trivial
  | item :: items, element => by
    rw [evalItems]
    exact (yields_eval hl hp scope item element).bind fun v hv =>
      (yields_evalItems hl hp scope items element).bind fun vs hvs => yields_ok ⟨hv, hvs⟩

theorem yields_evalFields (hl : l.Linkable) (hp : l.Covers p) (scope : ScopeId) (id : DeclId)
    {fields : List FieldEntry} (hfields : ∀ f ∈ fields, ∀ i ∈ f.content.imports, i.path ∈ l.paths) :
    ∀ inits : List (Ident × Literal),
      Yields (l.evalFields scope id fields inits) (fieldsRespect p)
  | [] => yields_ok trivial
  | (i, literal) :: inits => by
    rw [evalFields]
    have hfield : Yields (l.fieldNamed scope id fields i) (· ∈ fields) := by
      unfold fieldNamed
      split
      · next h => exact yields_ok (List.mem_of_find?_eq_some h)
      · exact yields_fail _ _ _ _
    refine hfield.bind fun f hf => ?_
    refine (yields_fieldType hl hp (hfields f hf)).bind fun t _ => ?_
    refine (yields_eval hl hp scope literal t).bind fun v hv => ?_
    exact (yields_evalFields hl hp scope id hfields inits).bind fun vs hvs => yields_ok ⟨hv, hvs⟩

end

end SchemaLang.Loaded
