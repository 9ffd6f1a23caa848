import SchemaLang.Proofs.Spans.Lookup
import SchemaLang.Schema.Query

/-!
# Where types and values point

A type is resolved in the scope that it is written in, also when a literal of another module is
evaluated for it, and a literal in its own scope.  So each error and each unresolved name stays with
the module that the type or the literal stands in: `locates_resolveType`, `locates_effectiveMethods`
and `locates_eval`.
-/

namespace SchemaLang

theorem TypeRef.span_mem (t : TypeRef) : t.span ∈ t.spans := by
  cases t <;> exact List.mem_cons_self

theorem Literal.span_mem (literal : Literal) : literal.span ∈ literal.spans := by
  cases literal <;> exact List.mem_cons_self

theorem Path.segment_mem {p : Path} {i : Ident} (h : i ∈ p.segments) : i.span ∈ p.spans :=
  List.mem_cons_of_mem _ (List.mem_flatMap.2 ⟨i, h, List.mem_cons_self⟩)

namespace Loaded

variable {l : Loaded} {sites : String → Span → Prop}

theorem lt_size_of_content? {id : DeclId} {c : EntryContent} (h : l.content? id = some c) :
    id < l.entries.size := by
  obtain ⟨e, he, -⟩ := Option.map_eq_some_iff.1 h
  exact (Array.getElem?_eq_some_iff.1 he).1

theorem lt_size_of_hasKind {id : DeclId} {kind : DeclKind} (h : l.hasKind id kind) :
    id < l.entries.size := by
  obtain ⟨c, hc, -⟩ := Option.map_eq_some_iff.1 (of_decide_eq_true h)
  exact lt_size_of_content? hc

variable (hl : l.Located sites)

/-! ## Types -/

section Types

variable {scope : ScopeId} {t : TypeRef} (ht : ∀ span ∈ t.spans, sites (l.pathOf scope) span)
include ht

theorem locates_typeOfBinding {p : Path} (hp : sites (l.pathOf scope) p.span) (b : Binding) :
    Locates sites (l.typeOfBinding scope t p b) fun T =>
      ∀ q ∈ T.unresolvedPaths, sites (l.pathOf scope) q.span := by
  have hspan := ht t.span t.span_mem
  cases b with
  | decl id =>
    rw [typeOfBinding]
    split
    · exact locates_ok nofun
    · exact locates_fail hspan rfl
  | module id => exact locates_fail hspan rfl
  | builtin b => exact locates_ok nofun
  | unresolved => exact locates_ok (List.forall_mem_singleton.2 hp)

include hl

theorem locates_resolveType :
    Locates sites (l.resolveType scope t) fun T =>
      ∀ q ∈ T.unresolvedPaths, sites (l.pathOf scope) q.span := by
  induction t with
  | named p =>
    rw [resolveType]
    exact (locates_resolvePath hl scope ht).bind fun b _ =>
      locates_typeOfBinding ht (ht p.span List.mem_cons_self) b
  | list span t ih =>
    rw [resolveType]
    exact (ih fun span h => ht span (List.mem_cons_of_mem _ h)).map fun _ h => h
  | imported span source segments =>
    rw [resolveType]
    have hrest : ∀ span ∈ source.spans ++ segments.flatMap Ident.spans,
        sites (l.pathOf scope) span := fun span h => ht span (List.mem_cons_of_mem _ h)
    exact (locates_resolveImported hl scope hrest).bind fun b _ =>
      locates_typeOfBinding ht (ht span List.mem_cons_self) b

end Types

/-! ## Bases and inherited methods -/

section Bases

variable {scope : ScopeId} {t : TypeRef} (ht : ∀ span ∈ t.spans, sites (l.pathOf scope) span)

section Base

include ht

theorem locates_baseOfBinding (b : Binding) :
    Locates sites (l.baseOfBinding scope t b) (· < l.entries.size) := by
  have hspan := ht t.span t.span_mem
  cases b with
  | decl id =>
    rw [baseOfBinding]
    split
    · next h => exact locates_ok (lt_size_of_hasKind h)
    · exact locates_fail hspan rfl
  | module id => exact locates_fail hspan rfl
  | builtin b => exact locates_fail hspan rfl
  | unresolved => exact locates_fail hspan rfl

include hl

theorem locates_resolveBase : Locates sites (l.resolveBase scope t) (· < l.entries.size) := by
  cases t with
  | named p =>
    rw [resolveBase]
    exact (locates_resolvePath hl scope ht).bind fun b _ => locates_baseOfBinding ht b
  | list span t => exact locates_fail (ht span List.mem_cons_self) rfl
  | imported span source segments =>
    rw [resolveBase]
    have hrest : ∀ span ∈ source.spans ++ segments.flatMap Ident.spans,
        sites (l.pathOf scope) span := fun span h => ht span (List.mem_cons_of_mem _ h)
    exact (locates_resolveImported hl scope hrest).bind fun b _ => locates_baseOfBinding ht b

end Base

include hl

/-- Bases are blamed in the module of the interface that lists them. -/
theorem locates_basesOf (id : DeclId) :
    Locates sites (l.basesOf id) fun bases => ∀ base ∈ bases, base < l.entries.size := by
  unfold basesOf
  split
  · next e he =>
    split
    · next body bases methods hcontent =>
      refine locates_mapM fun t ht => locates_resolveBase hl ?_
      refine hl.types e (Array.mem_of_getElem? he) (e.home, t) ?_
      rw [Entry.types, hcontent]
      exact List.mem_map_of_mem ht
    · exact locates_ok (List.forall_mem_nil _)
  · exact locates_ok (List.forall_mem_nil _)

/-- An interface that is its own base is blamed where it is declared. -/
theorem locates_cyclic {α : Type} {P : α → Prop} {id : DeclId} (hid : id < l.entries.size) :
    Locates sites (l.cyclic id) P := by
  have he := Array.getElem?_eq_getElem hid
  rw [cyclic, he]
  exact locates_fail (hl.names _ (Array.mem_of_getElem? he)) rfl

theorem locates_visit (bound : Nat) :
    ∀ (below met : List DeclId) (id : DeclId), id < l.entries.size →
      Locates sites (l.visit bound below met id) fun _ => True := by
  induction bound with
  | zero => exact fun _ _ _ _ => locates_ok trivial
  | succ bound ih =>
    intro below met id hid
    rw [visit]
    split
    · exact locates_cyclic hl hid
    · split
      · exact locates_ok trivial
      · exact (locates_basesOf hl id).bind fun bases hbases =>
          locates_foldlM (fun met base hbase => ih _ met base (hbases base hbase)) _

theorem locates_effectiveMethods {id : DeclId} (hid : id < l.entries.size) :
    Locates sites (l.effectiveMethods id) fun _ => True :=
  (locates_visit hl _ _ _ id hid).bind fun _ _ => locates_ok trivial

end Bases

/-! ## Values -/

section Values

variable {scope : ScopeId}

theorem locates_mismatch {α : Type} {P : α → Prop} (t : SchemaType) {literal : Literal}
    (h : ∀ span ∈ literal.spans, sites (l.pathOf scope) span) :
    Locates sites (l.mismatch scope t literal) P :=
  locates_fail (h literal.span literal.span_mem) rfl

theorem locates_numeralValue (b : Builtin) {literal : Literal} {span : Span} (s : String)
    (h : ∀ span ∈ literal.spans, sites (l.pathOf scope) span)
    (hspan : sites (l.pathOf scope) span) :
    Locates sites (l.numeralValue scope b literal span s) fun v =>
      ∀ q ∈ v.unresolvedPaths, sites (l.pathOf scope) q.span := by
  unfold numeralValue
  split
  · exact locates_mismatch _ h
  · split
    · exact locates_ok nofun
    · exact locates_ok nofun
    · exact locates_fail hspan rfl

theorem locates_builtinValue (b : Builtin) {literal : Literal}
    (h : ∀ span ∈ literal.spans, sites (l.pathOf scope) span) :
    Locates sites (l.builtinValue scope b literal) fun v =>
      ∀ q ∈ v.unresolvedPaths, sites (l.pathOf scope) q.span := by
  unfold builtinValue
  split
  · exact locates_ok nofun
  · exact locates_ok nofun
  · exact locates_ok nofun
  · exact locates_ok nofun
  · exact locates_numeralValue _ _ h (h _ List.mem_cons_self)
  · exact locates_numeralValue _ _ h (h _ List.mem_cons_self)
  · exact locates_mismatch _ h

include hl

theorem locates_constValue {p : Path} (hp : ∀ span ∈ p.spans, sites (l.pathOf scope) span) :
    Locates sites (l.constValue scope p) fun v =>
      ∀ q ∈ v.unresolvedPaths, sites (l.pathOf scope) q.span := by
  have hspan := hp p.span List.mem_cons_self
  refine (locates_resolvePath hl scope hp).bind fun b _ => ?_
  cases b with
  | decl id =>
    dsimp only
    split
    · exact locates_ok nofun
    · exact locates_fail hspan rfl
  | module id => exact locates_fail hspan rfl
  | builtin b => exact locates_fail hspan rfl
  | unresolved => exact locates_ok (List.forall_mem_singleton.2 hspan)

theorem locates_enumerantValue (id : DeclId) (enumerants : List (String × Nat)) {p : Path}
    {i : Ident} (hp : ∀ span ∈ p.spans, sites (l.pathOf scope) span) (hi : i ∈ p.segments) :
    Locates sites (l.enumerantValue scope id enumerants p i) fun v =>
      ∀ q ∈ v.unresolvedPaths, sites (l.pathOf scope) q.span := by
  have hspan := hp i.span (Path.segment_mem hi)
  unfold enumerantValue
  dsimp only
  split
  · exact locates_ok nofun
  · refine (locates_resolvePath hl scope hp).bind fun b _ => ?_
    split
    · split
      · exact locates_ok nofun
      · exact locates_fail hspan rfl
    · exact locates_fail hspan rfl

theorem locates_nameValue (t : SchemaType) {p : Path}
    (hp : ∀ span ∈ p.spans, sites (l.pathOf scope) span) :
    Locates sites (l.nameValue scope t p) fun v =>
      ∀ q ∈ v.unresolvedPaths, sites (l.pathOf scope) q.span := by
  unfold nameValue
  split
  · split
    · next hsegments =>
      exact locates_enumerantValue hl _ _ hp (hsegments ▸ List.mem_cons_self)
    · exact locates_constValue hl hp
  · exact locates_constValue hl hp

/-- The type of a field is blamed where the field is declared, whoever sets the field. -/
theorem locates_fieldType {e : Entry} (he : e ∈ l.entries) {f : FieldEntry}
    (hf : ∀ x ∈ f.content.type?, x ∈ e.types) :
    Locates sites (l.fieldType f.content) fun _ => True := by
  cases hcontent : f.content with
  | typed t home =>
    have hmem : (home, t) ∈ e.types := hf _ (by rw [hcontent]; rfl)
    exact (locates_resolveType hl (hl.types e he _ hmem)).mono fun _ _ => trivial
  | nested id => exact locates_ok trivial

omit hl in
/-- The types of the fields of an entry are among its types. -/
theorem types_of_fields? {e : Entry} {fields : List FieldEntry}
    (h : e.content.fields? = some fields) :
    ∀ f ∈ fields, ∀ x ∈ f.content.type?, x ∈ e.types := by
  intro f hf x hx
  have hmem : x ∈ fields.filterMap fun f => f.content.type? := List.mem_filterMap.2 ⟨f, hf, hx⟩
  unfold Entry.types
  cases hcontent : e.content with
  | struct | union | group =>
    rw [hcontent] at h
    obtain rfl := Option.some.inj h
    exact hmem
  | _ =>
    rw [hcontent] at h
    cases h

end Values

mutual

/-- The errors of a literal and its unresolved names are blamed where it is written. -/
theorem locates_eval (hl : l.Located sites) {scope : ScopeId} :
    ∀ (literal : Literal) (t : SchemaType),
      (∀ span ∈ literal.spans, sites (l.pathOf scope) span) →
        Locates sites (l.eval scope t literal) fun v =>
          ∀ q ∈ v.unresolvedPaths, sites (l.pathOf scope) q.span
  | .name p, t, h => by
    cases t with
    | unresolved => exact locates_ok nofun
    | builtin | decl | list =>
      rw [eval]
      · exact locates_nameValue hl _ h
      · nofun
  | .list span items, t, h => by
    cases t with
    | unresolved => exact locates_ok nofun
    | list element =>
      rw [eval]
      have hitems := (List.forall_mem_cons.1 h).2
      exact (locates_evalItems hl items element hitems).map fun vs hvs => hvs
    | builtin | decl => exact locates_mismatch _ h
  | .struct span inits, t, h => by
    cases t with
    | unresolved => exact locates_ok nofun
    | decl id =>
      rw [eval]
      split
      · next fields hfields =>
        obtain ⟨c, hc, hfields⟩ := Option.bind_eq_some_iff.1 hfields
        obtain ⟨e, he, rfl⟩ := Option.map_eq_some_iff.1 hc
        have hinits := (List.forall_mem_cons.1 h).2
        have hvalues := locates_evalFields hl id (Array.mem_of_getElem? he)
          (types_of_fields? hfields) inits hinits
        exact hvalues.map fun vs hvs => hvs
      · exact locates_mismatch _ h
    | builtin | list => exact locates_mismatch _ h
  | .void _, t, h | .bool _ _, t, h | .int _ _, t, h | .float _ _, t, h | .text _ _, t, h => by
    cases t with
    | unresolved => exact locates_ok nofun
    | builtin b => exact locates_builtinValue b h
    | decl | list => exact locates_mismatch _ h

theorem locates_evalItems (hl : l.Located sites) {scope : ScopeId} :
    ∀ (items : List Literal) (element : SchemaType),
      (∀ span ∈ itemSpans items, sites (l.pathOf scope) span) →
        Locates sites (l.evalItems scope element items) fun vs =>
          ∀ q ∈ unresolvedInItems vs, sites (l.pathOf scope) q.span
  | [], _, _ => locates_ok nofun
  | item :: items, element, h => by
    obtain ⟨hitem, hitems⟩ := List.forall_mem_append.1 h
    rw [evalItems]
    exact (locates_eval hl item element hitem).bind fun v hv =>
      (locates_evalItems hl items element hitems).bind fun vs hvs =>
        locates_ok (List.forall_mem_append.2 ⟨hv, hvs⟩)

theorem locates_evalFields (hl : l.Located sites) {scope : ScopeId} (id : DeclId) {e : Entry}
    (he : e ∈ l.entries) {fields : List FieldEntry}
    (hfields : ∀ f ∈ fields, ∀ x ∈ f.content.type?, x ∈ e.types) :
    ∀ inits : List (Ident × Literal),
      (∀ span ∈ fieldSpans inits, sites (l.pathOf scope) span) →
        Locates sites (l.evalFields scope id fields inits) fun vs =>
          ∀ q ∈ unresolvedInFields vs, sites (l.pathOf scope) q.span
  | [], _ => locates_ok nofun
  | (i, literal) :: inits, h => by
    obtain ⟨h, hinits⟩ := List.forall_mem_append.1 h
    obtain ⟨hi, hliteral⟩ := List.forall_mem_append.1 h
    have hfield : Locates sites (l.fieldNamed scope id fields i) (· ∈ fields) := by
      unfold fieldNamed
      split
      · next h => exact locates_ok (List.mem_of_find?_eq_some h)
      · exact locates_fail (hi i.span List.mem_cons_self) rfl
    rw [evalFields]
    refine hfield.bind fun f hf => ?_
    refine (locates_fieldType hl he (hfields f hf)).bind fun t _ => ?_
    refine (locates_eval hl literal t hliteral).bind fun v hv => ?_
    exact (locates_evalFields hl id he hfields inits hinits).bind fun vs hvs =>
      locates_ok (List.forall_mem_append.2 ⟨hv, hvs⟩)

end

end Loaded

end SchemaLang
