import SchemaLang.Proofs.Spanning.Terms

/-!
# Declarations and files over lexemes

By the rules of the grammar a declaration is spread over the lexemes that it is derived from, and so
is each member of a body.  The roots of a module follow one another in the lexemes of its file.
-/

namespace SchemaLang

open Grammar

/-! ## Declarations without a body -/

theorem spread_using {ls : List Lexeme} {d : Decl} (h : IsUsing ls d) : Spread ls (.decl d) := by
  have hphrase := IsDecl.usingForm h
  cases h with
  | path start stop target =>
    have hpath := Sequence.one (spread_path target)
    refine ⟨hphrase, ?_, .skip _ (hpath.followed _)⟩
    exact Spans.ends (x := .word .usingKw start) (y := .mark .semicolon stop) rfl
      (by simp [List.getLast?_cons])
  | pathAs start equals stop i target =>
    have hpath := Sequence.one (spread_path target)
    refine ⟨hphrase, ?_, .skip _ (.ident i (.skip _ (hpath.followed _)))⟩
    exact Spans.ends (x := .word .usingKw start) (y := .mark .semicolon stop) rfl
      (by simp [List.getLast?_cons])
  | imported start stop target =>
    have himport := sequence_import target
    refine ⟨hphrase, ?_, .skip _ (himport.followed _)⟩
    exact Spans.ends (x := .word .usingKw start) (y := .mark .semicolon stop) rfl
      (by simp [List.getLast?_cons])
  | importedAs start equals stop i target =>
    have himport := sequence_import target
    refine ⟨hphrase, ?_, .skip _ (.ident i (.skip _ (himport.followed _)))⟩
    exact Spans.ends (x := .word .usingKw start) (y := .mark .semicolon stop) rfl
      (by simp [List.getLast?_cons])

theorem spread_const {ls : List Lexeme} {d : Const} (h : IsConst ls d) :
    Spread ls (.decl (.const d)) := by
  have hphrase := IsDecl.const h
  obtain ⟨start, colon, equals, stop, name, isType, isValue, areApplied⟩ := h
  have htype := spread_type isType
  have hvalue := spread_value isValue
  have happlied := (sequence_applications areApplied).followed [.mark .semicolon stop]
  refine ⟨hphrase, ?_, .skip _ (.ident name (.skip _ (.cons htype (.skip _
    (.cons hvalue happlied)))))⟩
  exact Spans.ends (x := .word .constKw start) (y := .mark .semicolon stop) rfl
    (by simp [List.getLast?_cons])

theorem spread_enumerant {ls : List Lexeme} {e : Enumerant} (h : IsEnumerant ls e) :
    Spread ls (.enumerant e) := by
  have hphrase := h
  obtain ⟨stop, name, isOrdinal, areApplied⟩ := h
  have hordinal := spread_ordinal isOrdinal
  have happlied := (sequence_applications areApplied).followed [.mark .semicolon stop]
  refine ⟨hphrase, ?_, .ident name (.cons hordinal happlied)⟩
  exact Spans.ends (x := name.lexeme) (y := .mark .semicolon stop) rfl
    (by simp [List.getLast?_cons])

theorem spread_enum {ls : List Lexeme} {d : Enum} (h : IsEnum ls d) :
    Spread ls (.decl (.enum d)) := by
  have hphrase := IsDecl.enum h
  obtain ⟨start, opening, stop, name, areApplied, areEnumerants⟩ := h
  have happlied := sequence_applications areApplied
  have henumerants := sequence_map_many (fun _ _ he => .one (spread_enumerant he)) areEnumerants
  refine ⟨hphrase, ?_,
    .skip _ (.ident name (happlied.append (.skip _ (henumerants.followed _))))⟩
  exact Spans.ends (x := .word .enumKw start) (y := .mark .closeBrace stop) rfl
    (by simp [List.getLast?_cons])

theorem spread_target {ls : List Lexeme} {t : Span × Target} (h : IsTarget ls t) :
    Spread ls (.target t) := by
  refine ⟨h, fun _ => ?_, .none _⟩
  cases h with
  | star span => exact .single (.mark .star span)
  | keyword span => exact .single (.word _ span)
  | @name t span => exact .single ⟨.name t.name, span⟩

theorem spread_annotationDecl {ls : List Lexeme} {d : AnnotationDecl} (h : IsAnnotationDecl ls d) :
    Spread ls (.decl (.annotationDecl d)) := by
  have hphrase := IsDecl.annotationDecl h
  obtain ⟨start, opening, closing, colon, stop, name, areTargets, isType, areApplied⟩ := h
  have htargets := sequence_map_separated (fun _ _ ht => spread_target ht) areTargets
  have htype := spread_type isType
  have happlied := (sequence_applications areApplied).followed [.mark .semicolon stop]
  refine ⟨hphrase, ?_, .skip _ (.ident name (.skip _
    (htargets.append (.skip _ (.skip _ (.cons htype happlied))))))⟩
  exact Spans.ends (x := .word .annotationKw start) (y := .mark .semicolon stop) rfl
    (by simp [List.getLast?_cons])

/-! ## Methods and fields -/

/-- A parameter up to its type, and then its default and its annotations. -/
theorem sequence_param {ls : List Lexeme} {p : Param} (h : IsParam ls p) :
    Sequence ls (SyntaxNode.ofParam p) := by
  obtain @⟨tys, ds, as, type, default, applied, colon, name, isType, isDefault, areApplied⟩ := h
  have htype := spread_type isType
  have hparam : Spread (name.lexeme :: .mark .colon colon :: tys)
      (.param ⟨name.span.cover type.span, name, type, default, applied⟩) := by
    refine ⟨⟨colon, tys, rfl, isType⟩, fun hls => ?_, .ident name (.skip _ (.one htype))⟩
    have htypeSpan := htype.spans (hls.sublist (by simp))
    exact Spans.cover (.single name.lexeme) htypeSpan ⟨.mark .colon colon :: tys, rfl⟩
      ⟨[name.lexeme, .mark .colon colon], rfl⟩ hls
  have hdefault := sequence_default isDefault
  have happlied := sequence_applications areApplied
  exact .cons hparam (hdefault.append happlied)

theorem sequence_params {ls : List Lexeme} {ps : List Param} (h : IsParams ls ps) :
    Sequence ls (ps.flatMap SyntaxNode.ofParam) := by
  cases h with
  | nil => exact .none _
  | some opening closing areParams =>
    have hparams := sequence_separated (fun _ _ hp => sequence_param hp) areParams
    exact .skip _ (hparams.followed _)

theorem sequence_results {ls : List Lexeme} {results : Option (List Param)}
    (h : IsResults ls results) :
    Sequence ls (results.toList.flatMap (List.flatMap SyntaxNode.ofParam)) := by
  cases h with
  | none => exact .nil
  | some arrow areResults => simpa using (sequence_params areResults).skip _

theorem spread_method {ls : List Lexeme} {m : Method} (h : IsMethod ls m) :
    Spread ls (.interfaceMember (.method m)) := by
  have hphrase := IsInterfaceMember.method h
  obtain ⟨stop, name, isOrdinal, areParams, areResults, areApplied⟩ := h
  have hordinal := spread_ordinal isOrdinal
  have hparams := sequence_params areParams
  have hresults := sequence_results areResults
  have happlied := (sequence_applications areApplied).followed [.mark .semicolon stop]
  refine ⟨hphrase, ?_, .ident name (.cons hordinal (hparams.append (hresults.append happlied)))⟩
  exact Spans.ends (x := name.lexeme) (y := .mark .semicolon stop) rfl
    (by simp [List.getLast?_cons])

theorem spread_field {ls : List Lexeme} {f : Field} (h : IsField ls f) :
    Spread ls (.member (.field f)) := by
  have hphrase := IsMember.field h
  obtain ⟨colon, stop, name, isOrdinal, isType, isDefault, areApplied⟩ := h
  have hordinal := spread_ordinal isOrdinal
  have htype := spread_type isType
  have hdefault := sequence_default isDefault
  have happlied := (sequence_applications areApplied).followed [.mark .semicolon stop]
  refine ⟨hphrase, ?_, .ident name (.cons hordinal (.skip _
    (.cons htype (hdefault.append happlied))))⟩
  exact Spans.ends (x := name.lexeme) (y := .mark .semicolon stop) rfl
    (by simp [List.getLast?_cons])

theorem sequence_bases {ls : List Lexeme} {bases : List TypeRef} (h : IsBases ls bases) :
    Sequence ls (bases.map .type) := by
  cases h with
  | none => exact .nil
  | some start opening closing areBases =>
    have hbases := sequence_map_separated (fun _ _ ht => spread_type ht) areBases
    exact .skip _ (.skip _ (hbases.followed _))

/-! ## Bodies -/

/-- A body ends with its closing brace. -/
theorem getLast?_of_isBody {ls : List Lexeme} {ms : List Member} {stop : Span}
    (h : IsBody ls (ms, stop)) : ls.getLast? = some (.mark .closeBrace stop) := by
  obtain ⟨opening, closing, areMembers, single⟩ := h
  simp [List.getLast?_cons]

mutual

theorem spread_decl : ∀ {d : Decl} {ls : List Lexeme}, IsDecl ls d → Spread ls (.decl d)
  | d, _, h => by
    have hphrase := h
    cases h with
    | usingForm h => exact spread_using h
    | const h => exact spread_const h
    | @struct as bs _ _ stop start name areApplied isBody =>
      have happlied := sequence_applications areApplied
      have hbody := sequence_body isBody
      refine ⟨hphrase, ?_, .skip _ (.ident name (happlied.append hbody))⟩
      exact Spans.ends (x := .word .structKw start) (y := .mark .closeBrace stop) rfl
        (by simp [List.getLast?_cons, getLast?_of_isBody isBody])
    | enum h => exact spread_enum h
    | interface start opening stop name areBases areApplied areMembers =>
      have hbases := sequence_bases areBases
      have happlied := sequence_applications areApplied
      have hmembers := sequence_interfaceMembers areMembers
      refine ⟨hphrase, ?_, .skip _ (.ident name (hbases.append (happlied.append
        (.skip _ (hmembers.followed _)))))⟩
      exact Spans.ends (x := .word .interfaceKw start) (y := .mark .closeBrace stop) rfl
        (by simp [List.getLast?_cons])
    | annotationDecl h => exact spread_annotationDecl h

theorem spread_member : ∀ {m : Member} {ls : List Lexeme}, IsMember ls m → Spread ls (.member m)
  | m, _, h => by
    have hphrase := h
    cases h with
    | field h => exact spread_field h
    | @union as bs _ _ stop colon kw name areApplied isBody =>
      have happlied := sequence_applications areApplied
      have hbody := sequence_body isBody
      refine ⟨hphrase, ?_, .ident name (.skip _ (.skip _ (happlied.append hbody)))⟩
      exact Spans.ends (x := name.lexeme) (y := .mark .closeBrace stop) rfl
        (by simp [List.getLast?_cons, getLast?_of_isBody isBody])
    | @numberedUnion os as bs _ _ _ stop colon kw name isOrdinal areApplied isBody =>
      have hordinal := spread_ordinal isOrdinal
      have happlied := sequence_applications areApplied
      have hbody := sequence_body isBody
      refine ⟨hphrase, ?_,
        .ident name (.cons hordinal (.skip _ (.skip _ (happlied.append hbody))))⟩
      exact Spans.ends (x := name.lexeme) (y := .mark .closeBrace stop) rfl
        (by simp [List.getLast?_cons, getLast?_of_isBody isBody])
    | @anonymousUnion as bs _ _ stop kw areApplied isBody =>
      have happlied := sequence_applications areApplied
      have hbody := sequence_body isBody
      refine ⟨hphrase, ?_, .skip _ (happlied.append hbody)⟩
      exact Spans.ends (x := .word .unionKw kw) (y := .mark .closeBrace stop) rfl
        (by simp [List.getLast?_cons, getLast?_of_isBody isBody])
    | @group as bs _ _ stop colon kw name areApplied isBody =>
      have happlied := sequence_applications areApplied
      have hbody := sequence_body isBody
      refine ⟨hphrase, ?_, .ident name (.skip _ (.skip _ (happlied.append hbody)))⟩
      exact Spans.ends (x := name.lexeme) (y := .mark .closeBrace stop) rfl
        (by simp [List.getLast?_cons, getLast?_of_isBody isBody])
    | decl h =>
      have hdecl := spread_decl h
      exact ⟨hphrase, hdecl.spans, .one hdecl⟩

theorem sequence_members : ∀ {ms : List Member} {ls : List Lexeme}, IsMany IsMember ls ms →
    Sequence ls (ms.map .member)
  | [], _, h => .none _
  | m :: ms, _, h => by
    cases h with
    | cons head tail => exact .cons (spread_member head) (sequence_members tail)

theorem sequence_body : ∀ {ms : List Member} {ls : List Lexeme} {stop : Span},
    IsBody ls (ms, stop) → Sequence ls (ms.map .member)
  | ms, _, _, h => by
    obtain ⟨opening, closing, areMembers, single⟩ := h
    have hmembers := sequence_members areMembers
    exact .skip _ (hmembers.followed _)

theorem spread_interfaceMember : ∀ {m : InterfaceMember} {ls : List Lexeme},
    IsInterfaceMember ls m → Spread ls (.interfaceMember m)
  | m, _, h => by
    have hphrase := h
    cases h with
    | method h => exact spread_method h
    | decl h =>
      have hdecl := spread_decl h
      exact ⟨hphrase, hdecl.spans, .one hdecl⟩

theorem sequence_interfaceMembers : ∀ {ms : List InterfaceMember} {ls : List Lexeme},
    IsMany IsInterfaceMember ls ms → Sequence ls (ms.map .interfaceMember)
  | [], _, h => .none _
  | m :: ms, _, h => by
    cases h with
    | cons head tail =>
      exact .cons (spread_interfaceMember head) (sequence_interfaceMembers tail)

end

/-! ## Files -/

/-- The node of an item of a file. -/
def SyntaxNode.ofFileItem : Application ⊕ Decl → SyntaxNode
  | .inl a => .application a
  | .inr d => .decl d

/-- The semicolon after an annotation of a file belongs to no node. -/
theorem sequence_fileItem {ls : List Lexeme} {item : Application ⊕ Decl}
    (h : IsFileItem ls item) : Sequence ls [.ofFileItem item] := by
  cases h with
  | application stop isApplied => exact (Sequence.one (spread_application isApplied)).followed _
  | decl isDecl => exact .one (spread_decl isDecl)

theorem spread_fileId {s : String} {n : Int} (start number stop : Span)
    (decoded : (NumericType.int ⟨false, .w64⟩).decode s.toList = .ok (.int n)) :
    Spread [.mark .atSign start, .number s number, .mark .semicolon stop]
      (.fileId ⟨start.cover stop, n.toNat⟩) :=
  ⟨⟨start, s, number, stop, n, rfl, decoded, rfl⟩,
    Spans.ends (x := .mark .atSign start) (y := .mark .semicolon stop) rfl rfl, .none _⟩

/-- The id of a file comes first, and its annotations and declarations follow in any order. -/
theorem sequence_module {ls : List Lexeme} {m : Module} (h : IsModule ls m) :
    ∃ items : List (Application ⊕ Decl), m.annotations = items.filterMap Sum.getLeft? ∧
      m.decls = items.filterMap Sum.getRight? ∧
      Sequence ls (.fileId m.id :: items.map .ofFileItem) := by
  obtain ⟨start, number, stop, decoded, areItems⟩ := h
  have hitems := sequence_map_many (fun _ _ hitem => sequence_fileItem hitem) areItems
  exact ⟨_, rfl, rfl, .cons (spread_fileId start number stop decoded) hitems⟩

end SchemaLang
