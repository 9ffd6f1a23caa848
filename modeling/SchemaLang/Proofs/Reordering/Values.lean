import SchemaLang.Link.Values
import SchemaLang.Proofs.Reordering.Lookup

/-!
# Values with other numbers

A literal of known names has the same value in two states that are the same up to a renaming, up to
the numbers in the value: `agree_eval`.
-/

namespace SchemaLang

variable {ρ : Renaming} {known : String → Prop} {l l' : Loaded}

namespace Loaded

section Steps

variable (h : l.Renamed ρ known l') (scope : ScopeId)
include h

/-! ## Literals that hold no others -/

omit h in
theorem agree_numeralValue (b : Builtin) (literal : Literal) (span : Span) (s : String) :
    AgreeBy (Value.rename ρ) (l.numeralValue scope b literal span s)
      (l'.numeralValue (ρ.scope scope) b literal span s) := by
  rw [numeralValue, numeralValue]
  cases b.numeric? with
  | none => exact .error
  | some t =>
    dsimp only
    cases t.decode s.toList with
    | error => exact .error
    | ok n =>
      cases n with
      | int => exact .ok rfl
      | float => exact .ok rfl

omit h in
theorem agree_builtinValue (b : Builtin) (literal : Literal) :
    AgreeBy (Value.rename ρ) (l.builtinValue scope b literal)
      (l'.builtinValue (ρ.scope scope) b literal) := by
  have hint (l : Loaded) (scope : ScopeId) (span : Span) (s : String) :
      l.builtinValue scope b (.int span s) = l.numeralValue scope b (.int span s) span s := by
    cases b <;> rfl
  have hfloat (l : Loaded) (scope : ScopeId) (span : Span) (s : String) :
      l.builtinValue scope b (.float span s) = l.numeralValue scope b (.float span s) span s := by
    cases b <;> rfl
  cases literal with
  | int span s =>
    rw [hint, hint]
    exact agree_numeralValue scope b _ span s
  | float span s =>
    rw [hfloat, hfloat]
    exact agree_numeralValue scope b _ span s
  | void | bool | text =>
    cases b with
    | void | bool | text | data => first | exact .ok rfl | exact .error
    | _ => exact .error
  | name | list | struct => cases b <;> exact .error

theorem agree_constValue {p : Path} (hp : ∀ n ∈ p.identifiers, known n) :
    AgreeBy (Value.rename ρ) (l.constValue scope p) (l'.constValue (ρ.scope scope) p) := by
  refine (agree_resolvePath h scope hp).bind fun b => ?_
  cases b with
  | decl id =>
    dsimp only [Binding.rename]
    rw [h.hasKind]
    cases l.hasKind id .const with
    | false => exact .error
    | true => exact .ok rfl
  | unresolved => exact .ok rfl
  | module | builtin => exact .error

theorem agree_enumerantValue (id : DeclId) (enumerants : List (String × Nat)) {p : Path}
    (hp : ∀ n ∈ p.identifiers, known n) (i : Ident) :
    AgreeBy (Value.rename ρ) (l.enumerantValue scope id enumerants p i)
      (l'.enumerantValue (ρ.scope scope) (ρ.decl id) enumerants p i) := by
  rw [enumerantValue, enumerantValue]
  cases enumerants.lookup i.name with
  | some ordinal => exact .ok rfl
  | none =>
    refine (agree_resolvePath h scope hp).bind fun b => ?_
    cases b with
    | decl c =>
      dsimp only [Binding.rename]
      rw [h.hasKind]
      cases l.hasKind c .const with
      | false => exact .error
      | true => exact .ok rfl
    | unresolved | module | builtin => exact .error

theorem agree_nameValue (t : SchemaType) {p : Path} (hp : ∀ n ∈ p.identifiers, known n) :
    AgreeBy (Value.rename ρ) (l.nameValue scope t p)
      (l'.nameValue (ρ.scope scope) (t.rename ρ) p) := by
  cases t with
  | decl id =>
    rw [SchemaType.rename, nameValue, nameValue, h.content?]
    cases l.content? id with
    | none => exact agree_constValue h scope hp
    | some c =>
      cases c with
      | enum enumerants =>
        cases p.segments with
        | nil => exact agree_constValue h scope hp
        | cons i rest =>
          cases rest with
          | nil => exact agree_enumerantValue h scope id enumerants hp i
          | cons => exact agree_constValue h scope hp
      | _ => exact agree_constValue h scope hp
  | builtin | list | unresolved => exact agree_constValue h scope hp

/-! ## All literals -/

omit h in
theorem agree_fieldNamed (id : DeclId) {fields : List FieldEntry}
    (hfields : ∀ f ∈ fields, ∀ n ∈ f.content.identifiers, known n) (i : Ident) :
    Agree (fun f f' => f' = f.rename ρ ∧ ∀ n ∈ f.content.identifiers, known n)
      (l.fieldNamed scope id fields i)
      (l'.fieldNamed (ρ.scope scope) (ρ.decl id) (fields.map (FieldEntry.rename ρ)) i) := by
  have hfind : (fields.map (FieldEntry.rename ρ)).find? (·.name = i.name) =
      (fields.find? (·.name = i.name)).map (FieldEntry.rename ρ) := by
    rw [List.find?_map]
    rfl
  rw [fieldNamed, fieldNamed, hfind]
  cases hfield : fields.find? (·.name = i.name) with
  | none => exact .error
  | some field => exact .ok ⟨rfl, hfields field (List.mem_of_find?_eq_some hfield)⟩

theorem agree_fieldType {content : FieldContent} (hcontent : ∀ n ∈ content.identifiers, known n) :
    AgreeBy (SchemaType.rename ρ) (l.fieldType content) (l'.fieldType (content.rename ρ)) := by
  cases content with
  | typed t home => exact agree_resolveType h home t hcontent
  | nested id => exact .ok rfl

/-- The fields of a declaration are of types that mention known names only. -/
theorem Renamed.fields? {id : DeclId} {fields : List FieldEntry}
    (hfields : (l.content? id).bind (·.fields?) = some fields) :
    ∀ f ∈ fields, ∀ n ∈ f.content.identifiers, known n := by
  obtain ⟨c, hc, hfields⟩ := Option.bind_eq_some_iff.1 hfields
  obtain ⟨e, he, rfl⟩ := Option.map_eq_some_iff.1 hc
  have hcontent := h.contents id e he
  generalize e.content = c at hfields hcontent
  cases c with
  | struct | union | group =>
    obtain rfl := Option.some.inj hfields
    exact List.forall_mem_flatMap.1 hcontent
  | _ => cases hfields

theorem fields?_rename (id : DeclId) : (l'.content? (ρ.decl id)).bind (·.fields?) =
    ((l.content? id).bind (·.fields?)).map (List.map (FieldEntry.rename ρ)) := by
  have hfields : ∀ c : EntryContent,
      (c.rename ρ).fields? = c.fields?.map (List.map (FieldEntry.rename ρ)) :=
    fun c => by cases c <;> rfl
  rw [h.content?]
  cases l.content? id with
  | none => rfl
  | some c => exact hfields c

end Steps

mutual

theorem agree_eval (h : l.Renamed ρ known l') (scope : ScopeId) :
    ∀ (literal : Literal) (t : SchemaType), (∀ n ∈ literal.identifiers, known n) →
      AgreeBy (Value.rename ρ) (l.eval scope t literal)
        (l'.eval (ρ.scope scope) (t.rename ρ) literal)
  | .name p, t, hliteral => by
    cases t with
    | unresolved => exact .ok rfl
    | builtin b => exact agree_nameValue h scope (.builtin b) hliteral
    | decl id => exact agree_nameValue h scope (.decl id) hliteral
    | list element => exact agree_nameValue h scope (.list element) hliteral
  | .list span items, t, hliteral => by
    cases t with
    | unresolved => exact .ok rfl
    | list element => exact (agree_evalItems h scope items element hliteral).map fun _ => rfl
    | builtin | decl => exact .error
  | .struct span inits, t, hliteral => by
    cases t with
    | unresolved => exact .ok rfl
    | decl id =>
      rw [SchemaType.rename, eval, eval, fields?_rename h]
      cases hfields : (l.content? id).bind (·.fields?) with
      | none => exact .error
      | some fields =>
        have hknown := h.fields? hfields
        exact (agree_evalFields h scope inits id hknown hliteral).map fun _ => rfl
    | builtin | list => exact .error
  | .void _, t, _ | .bool _ _, t, _ | .int _ _, t, _ | .float _ _, t, _ | .text _ _, t, _ => by
    cases t with
    | unresolved => exact .ok rfl
    | builtin b => exact agree_builtinValue scope b _
    | decl | list => exact .error

theorem agree_evalItems (h : l.Renamed ρ known l') (scope : ScopeId) :
    ∀ (items : List Literal) (element : SchemaType), (∀ n ∈ itemIdentifiers items, known n) →
      AgreeBy (renameItems ρ) (l.evalItems scope element items)
        (l'.evalItems (ρ.scope scope) (element.rename ρ) items)
  | [], _, _ => .ok rfl
  | item :: items, element, hitems =>
    have ⟨hitem, hitems⟩ := List.forall_mem_append.1 hitems
    (agree_eval h scope item element hitem).bind fun _ =>
      (agree_evalItems h scope items element hitems).bind fun _ => .ok rfl

theorem agree_evalFields (h : l.Renamed ρ known l') (scope : ScopeId) :
    ∀ (inits : List (Ident × Literal)) (id : DeclId) {fields : List FieldEntry},
      (∀ f ∈ fields, ∀ n ∈ f.content.identifiers, known n) →
      (∀ n ∈ fieldIdentifiers inits, known n) →
      AgreeBy (renameFields ρ) (l.evalFields scope id fields inits)
        (l'.evalFields (ρ.scope scope) (ρ.decl id) (fields.map (FieldEntry.rename ρ)) inits)
  | [], _, _, _, _ => .ok rfl
  | (i, literal) :: inits, id, fields, hfields, hinits => by
    obtain ⟨hliteral, hinits⟩ := List.forall_mem_append.1 (List.forall_mem_cons.1 hinits).2
    rw [evalFields, evalFields]
    refine (agree_fieldNamed scope id hfields i).bind fun field _ ⟨hfield, hknown⟩ => ?_
    rw [hfield]
    refine (agree_fieldType h hknown).bind fun t => ?_
    exact (agree_eval h scope literal t hliteral).bind fun _ =>
      (agree_evalFields h scope inits id hfields hinits).bind fun _ => .ok rfl

end

end Loaded

end SchemaLang
