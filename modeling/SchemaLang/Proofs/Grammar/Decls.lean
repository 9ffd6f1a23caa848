import SchemaLang.Proofs.Grammar.Terms

/-!
# The grammar of declarations

The rules for the declarations of a file and for what stands in their bodies, up to `IsModule`.
-/

namespace SchemaLang.Grammar

/-! ## Declarations without a body -/

/-- The `using` forms: `using Foo.Bar;`, `using T = Foo.Bar;`, `using import "file";` and
`using T = import "file";`, the last two also with segments after the file. -/
inductive IsUsing : Phrases Decl
  | path {ls : List Lexeme} {p : Path} (start stop : Span) (target : IsPath ls p) :
      IsUsing (.word .usingKw start :: (ls ++ [.mark .semicolon stop]))
        (.pathAlias ⟨start.cover stop, none, p⟩)
  | pathAs {ls : List Lexeme} {p : Path} (start equals stop : Span) (i : Ident)
      (target : IsPath ls p) :
      IsUsing (.word .usingKw start :: i.lexeme :: .mark .equals equals ::
        (ls ++ [.mark .semicolon stop])) (.pathAlias ⟨start.cover stop, some i, p⟩)
  | imported {ls : List Lexeme} {kw : Span} {source : ImportPath} {segments : List Ident}
      (start stop : Span) (target : IsImport ls (kw, source, segments)) :
      IsUsing (.word .usingKw start :: (ls ++ [.mark .semicolon stop]))
        (.importAlias ⟨start.cover stop, none, source, segments⟩)
  | importedAs {ls : List Lexeme} {kw : Span} {source : ImportPath} {segments : List Ident}
      (start equals stop : Span) (i : Ident) (target : IsImport ls (kw, source, segments)) :
      IsUsing (.word .usingKw start :: i.lexeme :: .mark .equals equals ::
        (ls ++ [.mark .semicolon stop]))
        (.importAlias ⟨start.cover stop, some i, source, segments⟩)

/-- `const name :type = literal $annotations;`. -/
inductive IsConst : Phrases Const
  | mk {tys vs as : List Lexeme} {type : TypeRef} {value : Literal}
      {applied : List Application} (start colon equals stop : Span) (name : Ident)
      (isType : IsType tys type) (isValue : IsShallow vs value)
      (areApplied : IsApplications as applied) :
      IsConst (.word .constKw start :: name.lexeme :: .mark .colon colon ::
        (tys ++ .mark .equals equals :: (vs ++ (as ++ [.mark .semicolon stop]))))
        ⟨start.cover stop, name, type, value, applied⟩

/-- `name @ordinal $annotations;`. -/
inductive IsEnumerant : Phrases Enumerant
  | mk {os as : List Lexeme} {ordinal : Ordinal} {applied : List Application} (stop : Span)
      (name : Ident) (isOrdinal : IsOrdinal os ordinal) (areApplied : IsApplications as applied) :
      IsEnumerant (name.lexeme :: (os ++ (as ++ [.mark .semicolon stop])))
        ⟨name.span.cover stop, name, ordinal, applied⟩

/-- `enum name $annotations { enumerants }`. -/
inductive IsEnum : Phrases Enum
  | mk {as es : List Lexeme} {applied : List Application} {enumerants : List Enumerant}
      (start opening stop : Span) (name : Ident) (areApplied : IsApplications as applied)
      (areEnumerants : IsMany IsEnumerant es enumerants) :
      IsEnum (.word .enumKw start :: name.lexeme ::
        (as ++ .mark .openBrace opening :: (es ++ [.mark .closeBrace stop])))
        ⟨start.cover stop, name, applied, enumerants⟩

/-- A target of an annotation: `*`, or the target's word, which may be a keyword. -/
inductive IsTarget : Phrases (Span × Target)
  | star (span : Span) : IsTarget [.mark .star span] (span, .any)
  | keyword {k : Keyword} {t : Target} (span : Span) (text : k.text = t.name) :
      IsTarget [.word k span] (span, t)
  | name {t : Target} (span : Span) (named : t ≠ .any) :
      IsTarget [⟨.name t.name, span⟩] (span, t)

/-- `annotation name(targets) :type $annotations;`. -/
inductive IsAnnotationDecl : Phrases AnnotationDecl
  | mk {tgs tys as : List Lexeme} {targets : List (Span × Target)} {type : TypeRef}
      {applied : List Application} (start opening closing colon stop : Span) (name : Ident)
      (areTargets : IsSeparated IsTarget tgs targets) (isType : IsType tys type)
      (areApplied : IsApplications as applied) :
      IsAnnotationDecl (.word .annotationKw start :: name.lexeme :: .mark .openParen opening ::
        (tgs ++ .mark .closeParen closing :: .mark .colon colon ::
          (tys ++ (as ++ [.mark .semicolon stop]))))
        ⟨start.cover stop, name, targets, type, applied⟩

/-! ## Methods and fields -/

/-- `name :type = default $annotations`. -/
inductive IsParam : Phrases Param
  | mk {tys ds as : List Lexeme} {type : TypeRef} {default : Option Literal}
      {applied : List Application} (colon : Span) (name : Ident) (isType : IsType tys type)
      (isDefault : IsDefault ds default) (areApplied : IsApplications as applied) :
      IsParam (name.lexeme :: .mark .colon colon :: (tys ++ (ds ++ as)))
        ⟨name.span.cover type.span, name, type, default, applied⟩

/-- A parenthesised list of parameters, which may be empty. -/
inductive IsParams : Phrases (List Param)
  | nil (opening closing : Span) :
      IsParams [.mark .openParen opening, .mark .closeParen closing] []
  | some {ls : List Lexeme} {params : List Param} (opening closing : Span)
      (areParams : IsSeparated IsParam ls params) :
      IsParams (.mark .openParen opening :: (ls ++ [.mark .closeParen closing])) params

/-- `-> (results)`, or nothing. -/
inductive IsResults : Phrases (Option (List Param))
  | none : IsResults [] none
  | some {ls : List Lexeme} {results : List Param} (arrow : Span)
      (areResults : IsParams ls results) : IsResults (.mark .arrow arrow :: ls) (some results)

/-- `name @ordinal (params) -> (results) $annotations;`. -/
inductive IsMethod : Phrases Method
  | mk {os ps rs as : List Lexeme} {ordinal : Ordinal} {params : List Param}
      {results : Option (List Param)} {applied : List Application} (stop : Span) (name : Ident)
      (isOrdinal : IsOrdinal os ordinal) (areParams : IsParams ps params)
      (areResults : IsResults rs results) (areApplied : IsApplications as applied) :
      IsMethod (name.lexeme :: (os ++ (ps ++ (rs ++ (as ++ [.mark .semicolon stop])))))
        ⟨name.span.cover stop, name, ordinal, params, results, applied⟩

/-- `name @ordinal :type = default $annotations;`. -/
inductive IsField : Phrases Field
  | mk {os tys ds as : List Lexeme} {ordinal : Ordinal} {type : TypeRef}
      {default : Option Literal} {applied : List Application} (colon stop : Span) (name : Ident)
      (isOrdinal : IsOrdinal os ordinal) (isType : IsType tys type)
      (isDefault : IsDefault ds default) (areApplied : IsApplications as applied) :
      IsField (name.lexeme :: (os ++ .mark .colon colon ::
        (tys ++ (ds ++ (as ++ [.mark .semicolon stop])))))
        ⟨name.span.cover stop, name, ordinal, type, default, applied⟩

/-- `extends(bases)`, or nothing. -/
inductive IsBases : Phrases (List TypeRef)
  | none : IsBases [] []
  | some {ls : List Lexeme} {bases : List TypeRef} (start opening closing : Span)
      (areBases : IsSeparated IsType ls bases) :
      IsBases (.word .extendsKw start :: .mark .openParen opening ::
        (ls ++ [.mark .closeParen closing])) bases

/-! ## Bodies -/

mutual

/-- A declaration. -/
inductive IsDecl : Phrases Decl
  | usingForm {ls : List Lexeme} {d : Decl} (isUsing : IsUsing ls d) : IsDecl ls d
  | const {ls : List Lexeme} {d : Const} (isConst : IsConst ls d) : IsDecl ls (.const d)
  | struct {as bs : List Lexeme} {applied : List Application} {ms : List Member} {stop : Span}
      (start : Span) (name : Ident) (areApplied : IsApplications as applied)
      (isBody : IsBody bs (ms, stop)) :
      IsDecl (.word .structKw start :: name.lexeme :: (as ++ bs))
        (.struct ⟨start.cover stop, name, applied⟩ ms)
  | enum {ls : List Lexeme} {d : Enum} (isEnum : IsEnum ls d) : IsDecl ls (.enum d)
  | interface {bs as ls : List Lexeme} {bases : List TypeRef} {applied : List Application}
      {ms : List InterfaceMember} (start opening stop : Span) (name : Ident)
      (areBases : IsBases bs bases) (areApplied : IsApplications as applied)
      (areMembers : IsMany IsInterfaceMember ls ms) :
      IsDecl (.word .interfaceKw start :: name.lexeme :: (bs ++ (as ++
        .mark .openBrace opening :: (ls ++ [.mark .closeBrace stop]))))
        (.interface ⟨start.cover stop, name, applied⟩ bases ms)
  | annotationDecl {ls : List Lexeme} {d : AnnotationDecl} (isDecl : IsAnnotationDecl ls d) :
      IsDecl ls (.annotationDecl d)

/-- An item in the body of a struct, union or group. -/
inductive IsMember : Phrases Member
  | field {ls : List Lexeme} {f : Field} (isField : IsField ls f) : IsMember ls (.field f)
  | union {as bs : List Lexeme} {applied : List Application} {ms : List Member} {stop : Span}
      (colon kw : Span) (name : Ident) (areApplied : IsApplications as applied)
      (isBody : IsBody bs (ms, stop)) :
      IsMember (name.lexeme :: .mark .colon colon :: .word .unionKw kw :: (as ++ bs))
        (.union ⟨name.span.cover stop, name, applied⟩ none ms)
  | numberedUnion {os as bs : List Lexeme} {ordinal : Ordinal} {applied : List Application}
      {ms : List Member} {stop : Span} (colon kw : Span) (name : Ident)
      (isOrdinal : IsOrdinal os ordinal) (areApplied : IsApplications as applied)
      (isBody : IsBody bs (ms, stop)) :
      IsMember (name.lexeme :: (os ++ .mark .colon colon :: .word .unionKw kw :: (as ++ bs)))
        (.union ⟨name.span.cover stop, name, applied⟩ (some ordinal) ms)
  | anonymousUnion {as bs : List Lexeme} {applied : List Application} {ms : List Member}
      {stop : Span} (kw : Span) (areApplied : IsApplications as applied)
      (isBody : IsBody bs (ms, stop)) :
      IsMember (.word .unionKw kw :: (as ++ bs)) (.anonymousUnion (kw.cover stop) applied ms)
  | group {as bs : List Lexeme} {applied : List Application} {ms : List Member} {stop : Span}
      (colon kw : Span) (name : Ident) (areApplied : IsApplications as applied)
      (isBody : IsBody bs (ms, stop)) :
      IsMember (name.lexeme :: .mark .colon colon :: .word .groupKw kw :: (as ++ bs))
        (.group ⟨name.span.cover stop, name, applied⟩ ms)
  | decl {ls : List Lexeme} {d : Decl} (isDecl : IsDecl ls d) : IsMember ls (.decl d)

/-- The braced body of a struct, union or group, which holds at most one union without a name; the
span is that of the closing brace. -/
inductive IsBody : Phrases (List Member × Span)
  | mk {ls : List Lexeme} {ms : List Member} (opening closing : Span)
      (areMembers : IsMany IsMember ls ms) (single : ms.countP Member.isAnonymousUnion ≤ 1) :
      IsBody (.mark .openBrace opening :: (ls ++ [.mark .closeBrace closing])) (ms, closing)

/-- An item in the body of an interface. -/
inductive IsInterfaceMember : Phrases InterfaceMember
  | method {ls : List Lexeme} {m : Method} (isMethod : IsMethod ls m) :
      IsInterfaceMember ls (.method m)
  | decl {ls : List Lexeme} {d : Decl} (isDecl : IsDecl ls d) : IsInterfaceMember ls (.decl d)

end

/-! ## Files -/

/-- An annotation of a file, or a declaration. -/
inductive IsFileItem : Phrases (Application ⊕ Decl)
  | application {ls : List Lexeme} {a : Application} (stop : Span)
      (isApplied : IsApplication ls a) : IsFileItem (ls ++ [.mark .semicolon stop]) (.inl a)
  | decl {ls : List Lexeme} {d : Decl} (isDecl : IsDecl ls d) : IsFileItem ls (.inr d)

/-- A file: `@number;` with a number that fits 64 bits, and then annotations and declarations in any
order. -/
inductive IsModule : Phrases Module
  | mk {s : String} {n : Int} {ls : List Lexeme} {items : List (Application ⊕ Decl)}
      (start number stop : Span)
      (decoded : (NumericType.int ⟨false, .w64⟩).decode s.toList = .ok (.int n))
      (areItems : IsMany IsFileItem ls items) :
      IsModule (.mark .atSign start :: .number s number :: .mark .semicolon stop :: ls)
        ⟨⟨start.cover stop, n.toNat⟩, items.filterMap Sum.getLeft?, items.filterMap Sum.getRight?⟩

/-! ## How phrases begin -/

theorem IsUsing.start {ls : List Lexeme} {d : Decl} (h : IsUsing ls d) :
    ∃ span rest, ls = .word .usingKw span :: rest := by
  cases h <;> exact ⟨_, _, rfl⟩

theorem IsConst.start {ls : List Lexeme} {d : Const} (h : IsConst ls d) :
    ∃ span rest, ls = .word .constKw span :: rest := by
  obtain ⟨start⟩ := h
  exact ⟨start, _, rfl⟩

theorem IsEnum.start {ls : List Lexeme} {d : Enum} (h : IsEnum ls d) :
    ∃ span rest, ls = .word .enumKw span :: rest := by
  obtain ⟨start⟩ := h
  exact ⟨start, _, rfl⟩

theorem IsAnnotationDecl.start {ls : List Lexeme} {d : AnnotationDecl}
    (h : IsAnnotationDecl ls d) : ∃ span rest, ls = .word .annotationKw span :: rest := by
  obtain ⟨start⟩ := h
  exact ⟨start, _, rfl⟩

theorem IsMethod.start {ls : List Lexeme} {m : Method} (h : IsMethod ls m) :
    ∃ i rest, ls = Ident.lexeme i :: rest := by
  obtain ⟨stop, name⟩ := h
  exact ⟨name, _, rfl⟩

/-- The keywords that a declaration begins with. -/
def declKeywords : List Keyword :=
  [.usingKw, .constKw, .structKw, .enumKw, .interfaceKw, .annotationKw]

theorem IsDecl.start {ls : List Lexeme} {d : Decl} (h : IsDecl ls d) :
    ∃ k ∈ declKeywords, ∃ span rest, ls = .word k span :: rest := by
  cases h with
  | usingForm h =>
    obtain ⟨span, rest, rfl⟩ := h.start
    exact ⟨.usingKw, by decide, span, rest, rfl⟩
  | const h =>
    obtain ⟨span, rest, rfl⟩ := h.start
    exact ⟨.constKw, by decide, span, rest, rfl⟩
  | struct start => exact ⟨.structKw, by decide, start, _, rfl⟩
  | enum h =>
    obtain ⟨span, rest, rfl⟩ := h.start
    exact ⟨.enumKw, by decide, span, rest, rfl⟩
  | interface start => exact ⟨.interfaceKw, by decide, start, _, rfl⟩
  | annotationDecl h =>
    obtain ⟨span, rest, rfl⟩ := h.start
    exact ⟨.annotationKw, by decide, span, rest, rfl⟩

theorem IsApplication.start {ls : List Lexeme} {a : Application} (h : IsApplication ls a) :
    ∃ span rest, ls = .mark .dollar span :: rest := by
  cases h <;> exact ⟨_, _, rfl⟩

theorem IsMember.ne_nil {ls : List Lexeme} {m : Member} (h : IsMember ls m) : ls ≠ [] := by
  cases h with
  | field h => obtain ⟨colon⟩ := h; simp
  | decl h => obtain ⟨k, -, span, rest, rfl⟩ := h.start; simp
  | _ => simp

theorem IsInterfaceMember.ne_nil {ls : List Lexeme} {m : InterfaceMember}
    (h : IsInterfaceMember ls m) : ls ≠ [] := by
  cases h with
  | method h => obtain ⟨i, rest, rfl⟩ := h.start; simp
  | decl h => obtain ⟨k, -, span, rest, rfl⟩ := h.start; simp

theorem IsFileItem.ne_nil {ls : List Lexeme} {item : Application ⊕ Decl} (h : IsFileItem ls item) :
    ls ≠ [] := by
  cases h with
  | application => simp
  | decl h => obtain ⟨k, -, span, rest, rfl⟩ := h.start; simp

end SchemaLang.Grammar
