import SchemaLang.Proofs.Grammar.Completeness
import SchemaLang.Proofs.Loading.Mentioned

/-!
# Imports in the order of the source

`importPhrases ls` reads off the phrases `import "file"` among the lexemes `ls`, without regard to
what stands around them.  They are the imports of the module that the lexemes are, in this order:
`imports_of_parse`.
-/

namespace SchemaLang

open Grammar

/-! ## The phrases among some lexemes -/

/-- The file that a lexeme and those after it import. -/
def importAt? : Lexeme → List Lexeme → Option ImportPath
  | ⟨.keyword .importKw, _⟩, ⟨.text raw, span⟩ :: _ =>
    (Escape.decode raw.toList).toOption.map fun cs => ⟨span, String.ofList cs⟩
  | _, _ => none

/-- The files that the lexemes import, one after another. -/
def importPhrases : List Lexeme → List ImportPath
  | [] => []
  | x :: ls => (importAt? x ls).toList ++ importPhrases ls

/-- The lexemes import these files, whatever follows them. -/
def Imports (ls : List Lexeme) (is : List ImportPath) : Prop :=
  ∀ rest, importPhrases (ls ++ rest) = is ++ importPhrases rest

theorem imports_nil : Imports [] [] := fun _ => rfl

theorem Imports.append {ls ls' : List Lexeme} {is is' : List ImportPath} (h : Imports ls is)
    (h' : Imports ls' is') : Imports (ls ++ ls') (is ++ is') := by
  intro rest
  rw [List.append_assoc, h, h', List.append_assoc]

/-- What imports nothing may follow. -/
theorem Imports.then_nothing {ls ls' : List Lexeme} {is : List ImportPath} (h : Imports ls is)
    (h' : Imports ls' []) : Imports (ls ++ ls') is := by
  have happend := h.append h'
  rwa [List.append_nil] at happend

/-- A lexeme that is not the keyword imports nothing by itself. -/
theorem Imports.cons {x : Lexeme} {ls : List Lexeme} {is : List ImportPath}
    (hx : x.token ≠ .keyword .importKw) (h : Imports ls is) : Imports (x :: ls) is := by
  intro rest
  have hnone : importAt? x (ls ++ rest) = none := by
    unfold importAt?
    split
    · exact absurd rfl hx
    · rfl
  rw [List.cons_append, importPhrases, hnone, h]
  rfl

theorem imports_word {k : Keyword} {span : Span} {ls : List Lexeme} {is : List ImportPath}
    (hk : k ≠ .importKw) (h : Imports ls is) : Imports (.word k span :: ls) is :=
  h.cons fun e => hk (Token.keyword.inj e)

theorem imports_mark {m : Mark} {span : Span} {ls : List Lexeme} {is : List ImportPath}
    (h : Imports ls is) : Imports (.mark m span :: ls) is := h.cons nofun

theorem imports_name {i : Ident} {ls : List Lexeme} {is : List ImportPath}
    (h : Imports ls is) : Imports (i.lexeme :: ls) is := h.cons nofun

/-! ## Sequences -/

section Sequences

variable {α : Type} {item : Phrases α} {f : α → List ImportPath} {ls : List Lexeme} {as : List α}

theorem imports_many (hf : ∀ a ∈ as, ∀ ls, item ls a → Imports ls (f a)) (h : IsMany item ls as) :
    Imports ls (as.flatMap f) := by
  induction h with
  | nil => exact imports_nil
  | cons head _ ih =>
    obtain ⟨ha, has⟩ := List.forall_mem_cons.1 hf
    exact (ha _ head).append (ih has)

theorem imports_separated (hf : ∀ a ∈ as, ∀ ls, item ls a → Imports ls (f a))
    (h : IsSeparated item ls as) : Imports ls (as.flatMap f) := by
  induction h with
  | last head =>
    rw [List.flatMap_singleton]
    exact hf _ List.mem_cons_self _ head
  | cons comma head _ ih =>
    obtain ⟨ha, has⟩ := List.forall_mem_cons.1 hf
    exact (ha _ head).append (imports_mark (ih has))

theorem imports_listed (hf : ∀ a ∈ as, ∀ ls, item ls a → Imports ls (f a))
    (h : IsListed item ls as) : Imports ls (as.flatMap f) := by
  induction h with
  | nil => exact imports_nil
  | last head =>
    rw [List.flatMap_singleton]
    exact hf _ List.mem_cons_self _ head
  | cons comma head _ ih =>
    obtain ⟨ha, has⟩ := List.forall_mem_cons.1 hf
    exact (ha _ head).append (imports_mark (ih has))

end Sequences

theorem flatMap_nil {α : Type} (as : List α) : as.flatMap (fun _ => ([] : List ImportPath)) = [] :=
  List.flatMap_eq_nil_iff.2 fun _ _ => rfl

/-! ## Terms -/

theorem imports_segments {ls : List Lexeme} {is : List Ident} (h : IsMany IsSegment ls is) :
    Imports ls [] := by
  rw [← flatMap_nil is]
  refine imports_many (fun i _ ls hi => ?_) h
  obtain ⟨dot, i⟩ := hi
  exact imports_mark (imports_name imports_nil)

theorem imports_path {ls : List Lexeme} {p : Path} (h : IsPath ls p) : Imports ls [] := by
  obtain ⟨first, tail⟩ := h
  exact imports_name (imports_segments tail)

theorem imports_import {ls : List Lexeme} {start : Span} {source : ImportPath}
    {segments : List Ident} (h : IsImport ls (start, source, segments)) :
    Imports ls [source] := by
  obtain @⟨raw, cs, ls, segments, start, file, decoded, tail⟩ := h
  intro rest
  have hat : importAt? (.word .importKw start) (.text raw file :: (ls ++ rest)) =
      some ⟨file, String.ofList cs⟩ := by
    simp only [importAt?, Lexeme.word, Lexeme.text, decoded]
    rfl
  rw [List.cons_append, List.cons_append, importPhrases, hat]
  exact congrArg (List.cons _) (imports_segments tail rest)

theorem imports_ordinal {ls : List Lexeme} {o : Ordinal} (h : IsOrdinal ls o) :
    Imports ls [] := by
  obtain ⟨start, number⟩ := h
  exact imports_mark (imports_nil.cons nofun)

theorem imports_type {ls : List Lexeme} {t : TypeRef} (h : IsType ls t) :
    Imports ls t.imports := by
  induction h with
  | named path => exact imports_path path
  | list list opening closing _ ih =>
    exact imports_name (imports_mark (ih.then_nothing (imports_mark imports_nil)))
  | imported target => exact imports_import target

/-! ## Literals -/

mutual

theorem imports_literal : ∀ (l : Literal) {ls : List Lexeme}, IsLiteral ls l → Imports ls []
  | l, _, .number span _ => imports_nil.cons nofun
  | l, _, .negative minus number _ => imports_mark (imports_nil.cons nofun)
  | .text .., _, .text span _ => imports_nil.cons nofun
  | .bool .., _, .true span => imports_word nofun imports_nil
  | .bool .., _, .false span => imports_word nofun imports_nil
  | .void .., _, .void span => imports_word nofun imports_nil
  | .name .., _, .name path => imports_path path
  | .list _ items, _, .list opening closing body => by
    have hitems := imports_listed (imports_items items) body
    rw [flatMap_nil] at hitems
    exact imports_mark (hitems.append (imports_mark imports_nil))
  | .struct _ fields, _, .struct opening closing body => by
    have hfields := imports_listed (imports_fields fields) body
    rw [flatMap_nil] at hfields
    exact imports_mark (hfields.append (imports_mark imports_nil))

theorem imports_items : ∀ (items : List Literal), ∀ l ∈ items, ∀ ls, IsLiteral ls l → Imports ls []
  | [] => nofun
  | l :: items => List.forall_mem_cons.2 ⟨fun _ h => imports_literal l h, imports_items items⟩

theorem imports_fields : ∀ (fields : List (Ident × Literal)), ∀ f ∈ fields,
    ∀ ls, IsInit IsLiteral ls f → Imports ls []
  | [] => nofun
  | (i, l) :: fields => by
    refine List.forall_mem_cons.2 ⟨fun ls h => ?_, imports_fields fields⟩
    obtain ⟨i, equals, set⟩ := h
    exact imports_name (imports_mark (imports_literal l set))

end

theorem imports_default {ls : List Lexeme} {default : Option Literal} (h : IsDefault ls default) :
    Imports ls [] := by
  cases h with
  | none => exact imports_nil
  | some equals value => exact imports_mark (imports_literal _ value.1)

theorem imports_application {ls : List Lexeme} {a : Application} (h : IsApplication ls a) :
    Imports ls [] := by
  cases h with
  | bare start name => exact imports_mark (imports_path name)
  | void start opening closing name =>
    exact imports_mark ((imports_path name).append (imports_mark (imports_mark imports_nil)))
  | @fields _ body _ fields start opening closing name inits =>
    have hfields : Imports body (fields.flatMap fun _ => []) := by
      refine imports_listed (fun f _ ls hf => ?_) inits
      obtain ⟨i, equals, set⟩ := hf
      exact imports_name (imports_mark (imports_literal _ set.1))
    rw [flatMap_nil] at hfields
    exact imports_mark ((imports_path name).append
      (imports_mark (hfields.append (imports_mark imports_nil))))
  | value start opening closing name value =>
    exact imports_mark ((imports_path name).append
      (imports_mark ((imports_literal _ value.1).append (imports_mark imports_nil))))

theorem imports_applications {ls : List Lexeme} {as : List Application}
    (h : IsApplications ls as) : Imports ls [] := by
  rw [← flatMap_nil as]
  exact imports_many (fun _ _ _ ha => imports_application ha) h

/-- The annotations before a semicolon import nothing. -/
theorem imports_ending {ls : List Lexeme} {as : List Application} (h : IsApplications ls as)
    (stop : Span) : Imports (ls ++ [.mark .semicolon stop]) [] :=
  (imports_applications h).append (imports_mark imports_nil)

/-! ## Declarations without a body -/

theorem imports_using {ls : List Lexeme} {d : Decl} (h : IsUsing ls d) : Imports ls d.imports := by
  cases h with
  | path start stop target =>
    exact imports_word nofun ((imports_path target).append (imports_mark imports_nil))
  | pathAs start equals stop i target =>
    exact imports_word nofun (imports_name (imports_mark
      ((imports_path target).append (imports_mark imports_nil))))
  | imported start stop target =>
    exact imports_word nofun ((imports_import target).then_nothing (imports_mark imports_nil))
  | importedAs start equals stop i target =>
    exact imports_word nofun (imports_name (imports_mark
      ((imports_import target).then_nothing (imports_mark imports_nil))))

theorem imports_const {ls : List Lexeme} {d : Const} (h : IsConst ls d) :
    Imports ls d.type.imports := by
  obtain ⟨start, colon, equals, stop, name, isType, isValue, areApplied⟩ := h
  have hend := imports_ending areApplied stop
  exact imports_word nofun (imports_name (imports_mark ((imports_type isType).then_nothing
    (imports_mark ((imports_literal _ isValue.1).append hend)))))

theorem imports_enumerant {ls : List Lexeme} {e : Enumerant} (h : IsEnumerant ls e) :
    Imports ls [] := by
  obtain ⟨stop, name, isOrdinal, areApplied⟩ := h
  exact imports_name ((imports_ordinal isOrdinal).append (imports_ending areApplied stop))

theorem imports_enum {ls : List Lexeme} {d : Enum} (h : IsEnum ls d) : Imports ls [] := by
  obtain @⟨as, es, applied, enumerants, start, opening, stop, name, areApplied, areEnumerants⟩ := h
  have hbody : Imports es (enumerants.flatMap fun _ => []) :=
    imports_many (fun _ _ _ he => imports_enumerant he) areEnumerants
  rw [flatMap_nil] at hbody
  exact imports_word nofun (imports_name ((imports_applications areApplied).append
    (imports_mark (hbody.append (imports_mark imports_nil)))))

theorem imports_target {ls : List Lexeme} {t : Span × Target} (h : IsTarget ls t) :
    Imports ls [] := by
  cases h with
  | star span => exact imports_mark imports_nil
  | @keyword k t span text =>
    refine imports_word ?_ imports_nil
    rintro rfl
    cases t <;> exact absurd text (by decide)
  | name span named => exact imports_nil.cons nofun

theorem imports_annotationDecl {ls : List Lexeme} {d : AnnotationDecl}
    (h : IsAnnotationDecl ls d) : Imports ls d.type.imports := by
  obtain @⟨tgs, tys, as, targets, type, applied, start, opening, closing, colon, stop, name,
    areTargets, isType, areApplied⟩ := h
  have htargets : Imports tgs (targets.flatMap fun _ => []) :=
    imports_separated (fun _ _ _ ht => imports_target ht) areTargets
  rw [flatMap_nil] at htargets
  have hend := imports_ending areApplied stop
  exact imports_word nofun (imports_name (imports_mark (htargets.append
    (imports_mark (imports_mark ((imports_type isType).then_nothing hend))))))

/-! ## Methods and fields -/

theorem imports_param {ls : List Lexeme} {x : Param} (h : IsParam ls x) :
    Imports ls x.type.imports := by
  obtain ⟨colon, name, isType, isDefault, areApplied⟩ := h
  have hend := (imports_default isDefault).append (imports_applications areApplied)
  exact imports_name (imports_mark ((imports_type isType).then_nothing hend))

theorem imports_params {ls : List Lexeme} {xs : List Param} (h : IsParams ls xs) :
    Imports ls (xs.flatMap fun x => x.type.imports) := by
  cases h with
  | nil opening closing => exact imports_mark (imports_mark imports_nil)
  | some opening closing areParams =>
    have hparams := imports_separated (fun _ _ _ hx => imports_param hx) areParams
    exact imports_mark (hparams.then_nothing (imports_mark imports_nil))

theorem imports_results {ls : List Lexeme} {xs : Option (List Param)} (h : IsResults ls xs) :
    Imports ls ((xs.getD []).flatMap fun x => x.type.imports) := by
  cases h with
  | none => exact imports_nil
  | some arrow areResults => exact imports_mark (imports_params areResults)

theorem imports_method {ls : List Lexeme} {m : Method} (h : IsMethod ls m) :
    Imports ls m.imports := by
  obtain ⟨stop, name, isOrdinal, areParams, areResults, areApplied⟩ := h
  have hend := imports_ending areApplied stop
  have htypes := (imports_params areParams).append ((imports_results areResults).then_nothing hend)
  rw [← List.flatMap_append] at htypes
  exact imports_name ((imports_ordinal isOrdinal).append htypes)

theorem imports_field {ls : List Lexeme} {f : Field} (h : IsField ls f) :
    Imports ls f.type.imports := by
  obtain ⟨colon, stop, name, isOrdinal, isType, isDefault, areApplied⟩ := h
  have hend := imports_ending areApplied stop
  exact imports_name ((imports_ordinal isOrdinal).append (imports_mark
    ((imports_type isType).then_nothing ((imports_default isDefault).append hend))))

theorem imports_bases {ls : List Lexeme} {ts : List TypeRef} (h : IsBases ls ts) :
    Imports ls (ts.flatMap TypeRef.imports) := by
  cases h with
  | none => exact imports_nil
  | some start opening closing areBases =>
    have hbases := imports_separated (fun _ _ _ ht => imports_type ht) areBases
    exact imports_word nofun (imports_mark (hbases.then_nothing (imports_mark imports_nil)))

/-! ## Declarations and members -/

/-- A body imports what its members do. -/
theorem imports_body {bs : List Lexeme} {ms : List Member} {stop : Span}
    (hms : ∀ m ∈ ms, ∀ ls, IsMember ls m → Imports ls m.imports) (h : IsBody bs (ms, stop)) :
    Imports bs (memberImports ms) := by
  obtain ⟨opening, stop, areMembers, -⟩ := h
  rw [memberImports_eq_flatMap]
  exact imports_mark ((imports_many hms areMembers).then_nothing (imports_mark imports_nil))

mutual

theorem imports_decl : ∀ (d : Decl) {ls : List Lexeme}, IsDecl ls d → Imports ls d.imports
  | d, _, .usingForm isUsing => imports_using isUsing
  | .const _, _, .const isConst => imports_const isConst
  | .struct _ ms, _, .struct start name areApplied isBody =>
    imports_word nofun (imports_name ((imports_applications areApplied).append
      (imports_body (imports_members ms) isBody)))
  | .enum _, _, .enum isEnum => imports_enum isEnum
  | .interface _ _ ms, _, .interface start opening stop name areBases areApplied areMembers => by
    have hmembers := imports_many (imports_interfaceMembers ms) areMembers
    rw [← interfaceMemberImports_eq_flatMap] at hmembers
    exact imports_word nofun (imports_name ((imports_bases areBases).append
      ((imports_applications areApplied).append
        (imports_mark (hmembers.then_nothing (imports_mark imports_nil))))))
  | .annotationDecl _, _, .annotationDecl isDecl => imports_annotationDecl isDecl

theorem imports_member : ∀ (m : Member) {ls : List Lexeme}, IsMember ls m → Imports ls m.imports
  | .field _, _, .field isField => imports_field isField
  | .union _ _ ms, _, .union colon kw name areApplied isBody =>
    imports_name (imports_mark (imports_word nofun ((imports_applications areApplied).append
      (imports_body (imports_members ms) isBody))))
  | .union _ _ ms, _, .numberedUnion colon kw name isOrdinal areApplied isBody =>
    imports_name ((imports_ordinal isOrdinal).append (imports_mark (imports_word nofun
      ((imports_applications areApplied).append (imports_body (imports_members ms) isBody)))))
  | .anonymousUnion _ _ ms, _, .anonymousUnion kw areApplied isBody =>
    imports_word nofun ((imports_applications areApplied).append
      (imports_body (imports_members ms) isBody))
  | .group _ ms, _, .group colon kw name areApplied isBody =>
    imports_name (imports_mark (imports_word nofun ((imports_applications areApplied).append
      (imports_body (imports_members ms) isBody))))
  | .decl d, _, .decl isDecl => imports_decl d isDecl

theorem imports_members : ∀ (ms : List Member), ∀ m ∈ ms,
    ∀ ls, IsMember ls m → Imports ls m.imports
  | [] => nofun
  | m :: ms => List.forall_mem_cons.2 ⟨fun _ h => imports_member m h, imports_members ms⟩

theorem imports_interfaceMember : ∀ (m : InterfaceMember) {ls : List Lexeme},
    IsInterfaceMember ls m → Imports ls m.imports
  | .method _, _, .method isMethod => imports_method isMethod
  | .decl d, _, .decl isDecl => imports_decl d isDecl

theorem imports_interfaceMembers : ∀ (ms : List InterfaceMember), ∀ m ∈ ms,
    ∀ ls, IsInterfaceMember ls m → Imports ls m.imports
  | [] => nofun
  | m :: ms =>
    List.forall_mem_cons.2 ⟨fun _ h => imports_interfaceMember m h, imports_interfaceMembers ms⟩

end

/-! ## Files -/

/-- The files that an item of a file imports. -/
def itemImports : Application ⊕ Decl → List ImportPath
  | .inl _ => []
  | .inr d => d.imports

theorem imports_fileItem {ls : List Lexeme} {item : Application ⊕ Decl} (h : IsFileItem ls item) :
    Imports ls (itemImports item) := by
  cases h with
  | application stop isApplied =>
    exact (imports_application isApplied).append (imports_mark imports_nil)
  | decl isDecl => exact imports_decl _ isDecl

theorem flatMap_itemImports (items : List (Application ⊕ Decl)) :
    items.flatMap itemImports = (items.filterMap Sum.getRight?).flatMap Decl.imports := by
  induction items with
  | nil => rfl
  | cons item items ih =>
    rw [List.flatMap_cons, ih]
    cases item <;> rfl

theorem imports_of_isModule {ls : List Lexeme} {m : Module} (h : IsModule ls m) :
    m.imports = importPhrases ls := by
  obtain @⟨s, n, ls, items, start, number, stop, decoded, areItems⟩ := h
  have hitems := imports_many (fun _ _ _ h => imports_fileItem h) areItems
  rw [flatMap_itemImports] at hitems
  have hfile : Imports (.mark .atSign start :: .number s number :: .mark .semicolon stop :: ls) _ :=
    imports_mark (.cons nofun (imports_mark hitems))
  have hall := hfile []
  rw [List.append_nil] at hall
  rw [hall]
  exact (List.append_nil _).symm

/-- The imports of a module that was read are the phrases `import "file"` of its text, in their
order. -/
theorem imports_of_parse {text : String} {m : Module} (h : Module.parse text = .ok m) :
    m.imports = importPhrases (Lexed.ofText text).lexemes :=
  imports_of_isModule (parse_eq_ok_iff.1 h).2

end SchemaLang
