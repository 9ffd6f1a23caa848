import SchemaLang.Proofs.Spanning.Reports

/-!
# Where the grammar is violated

The error of lexemes that are no file stands at lexemes, from the start of one to the end of the
same or a later one, or it is the empty span at the end of the source: `reported_of_ofLexemes`.
-/

namespace SchemaLang

namespace Parser

variable {all : List Lexeme} {stop : Nat}

/-! ## Declarations without a body -/

theorem reports_usingDecl : Reports all stop usingDecl fun _ => True := by
  have haliased (start : Span) (name : Option Ident) (target : Path) :
      Reports all stop (usingDecl.aliased start name target) fun _ => True :=
    reports_bind (reports_mark _) fun _ _ => reports_pure True.intro
  have himported (start : Span) (name : Option Ident) :
      Reports all stop (usingDecl.imported start name) fun _ => True := by
    refine reports_bind reports_importTarget fun _ _ => ?_
    exact reports_bind (reports_mark _) fun _ _ => reports_pure True.intro
  refine reports_bind (reports_keyword _) fun start _ => reports_peek fun _ => ?_
  refine reports_ite (himported start none) (reports_bind reports_ident fun first hfirst => ?_)
  refine reports_afterMark? _ (reports_peek fun _ => ?_) ?_
  · exact reports_ite (himported start _) (reports_bind reports_path fun _ _ => haliased start _ _)
  · exact reports_bind (reports_pathFrom hfirst) fun _ _ => haliased start _ _

theorem reports_constDecl : Reports all stop constDecl fun _ => True := by
  refine reports_bind (reports_keyword _) fun _ _ => reports_bind reports_ident fun _ _ => ?_
  refine reports_bind (reports_mark _) fun _ _ => reports_bind reports_type fun _ _ => ?_
  refine reports_bind (reports_mark _) fun _ _ => reports_bind reports_literal fun _ _ => ?_
  refine reports_bind reports_applications fun _ _ => ?_
  exact reports_bind (reports_mark _) fun _ _ => reports_pure True.intro

theorem reports_enumerant? : Reports all stop enumerant? fun o => ∀ e ∈ o, True := by
  refine reports_peek fun _ => reports_ite reports_none ?_
  refine reports_bind reports_ident fun _ _ => reports_bind reports_ordinal fun _ _ => ?_
  refine reports_bind reports_applications fun _ _ => ?_
  exact reports_bind (reports_mark _) fun _ _ => reports_pure fun _ _ => True.intro

theorem reports_enumDecl : Reports all stop enumDecl fun _ => True := by
  refine reports_bind (reports_keyword _) fun _ _ => reports_bind reports_ident fun _ _ => ?_
  refine reports_bind reports_applications fun _ _ => reports_bind (reports_mark _) fun _ _ => ?_
  refine reports_bind (reports_many reports_enumerant?) fun _ _ => ?_
  exact reports_bind (reports_mark _) fun _ _ => reports_pure True.intro

theorem reports_target : Reports all stop target fun _ => True := by
  refine reports_peek fun t => ?_
  split
  · split
    · exact reports_bind reports_bump fun _ _ => reports_pure True.intro
    · exact reports_bind reports_peekSpan fun _ hspan => reports_fail hspan
    · exact reports_unexpected _
  · exact reports_unexpected _

theorem reports_annotationDecl : Reports all stop annotationDecl fun _ => True := by
  refine reports_bind (reports_keyword _) fun _ _ => reports_bind reports_ident fun _ _ => ?_
  refine reports_bind (reports_mark _) fun _ _ => ?_
  refine reports_bind (reports_separated _ reports_target) fun _ _ => ?_
  refine reports_bind (reports_mark _) fun _ _ => reports_bind (reports_mark _) fun _ _ => ?_
  refine reports_bind reports_type fun _ _ => reports_bind reports_applications fun _ _ => ?_
  exact reports_bind (reports_mark _) fun _ _ => reports_pure True.intro

/-! ## Methods and fields -/

theorem reports_param : Reports all stop param fun _ => True := by
  refine reports_bind reports_ident fun _ _ => reports_bind (reports_mark _) fun _ _ => ?_
  refine reports_bind reports_type fun _ _ => reports_bind reports_default? fun _ _ => ?_
  exact reports_bind reports_applications fun _ _ => reports_pure True.intro

theorem reports_params : Reports all stop params fun _ => True := by
  refine reports_bind (reports_mark _) fun _ _ => ?_
  refine reports_afterMark? _ (reports_pure True.intro) ?_
  refine reports_bind (reports_separated _ reports_param) fun _ _ => ?_
  exact reports_bind (reports_mark _) fun _ _ => reports_pure True.intro

theorem reports_results? : Reports all stop results? fun _ => True :=
  reports_afterMark? _ (reports_some reports_params).trivial (reports_pure True.intro)

theorem reports_method : Reports all stop method fun _ => True := by
  refine reports_bind reports_ident fun _ _ => reports_bind reports_ordinal fun _ _ => ?_
  refine reports_bind reports_params fun _ _ => reports_bind reports_results? fun _ _ => ?_
  refine reports_bind reports_applications fun _ _ => ?_
  exact reports_bind (reports_mark _) fun _ _ => reports_pure True.intro

theorem reports_field (name : Ident) (number : Ordinal) :
    Reports all stop (field name number) fun _ => True := by
  refine reports_bind reports_type fun _ _ => reports_bind reports_default? fun _ _ => ?_
  refine reports_bind reports_applications fun _ _ => ?_
  exact reports_bind (reports_mark _) fun _ _ => reports_pure True.intro

/-! ## Bodies -/

section Bodies

variable {body : Parser (List Member × Span)} {decl : Parser (Option Decl)}

theorem reports_namedUnion (hbody : Reports all stop body fun r => r.2.OfLexemes all)
    (name : Ident) (number : Option Ordinal) :
    Reports all stop (namedUnion body name number) fun _ => True := by
  refine reports_bind (reports_keyword _) fun _ _ => ?_
  refine reports_bind reports_applications fun _ _ => ?_
  exact reports_bind hbody fun _ _ => reports_pure True.intro

/-- A second union without a name is reported from its keyword to its closing brace. -/
theorem reports_anonymousUnion (hbody : Reports all stop body fun r => r.2.OfLexemes all)
    (earlier : List Member) : Reports all stop (anonymousUnion body earlier) fun _ => True := by
  refine reports_bind (reports_keyword _) fun start hstart => ?_
  refine reports_bind reports_applications fun _ _ => reports_bind hbody fun r hr => ?_
  dsimp only
  split
  · exact reports_bind (reports_fail (P := fun _ => True) (.inl (hstart.cover hr)))
      fun _ _ => reports_pure True.intro
  · exact reports_pure True.intro

theorem reports_group (hbody : Reports all stop body fun r => r.2.OfLexemes all) (name : Ident) :
    Reports all stop (group body name) fun _ => True := by
  refine reports_bind (reports_keyword _) fun _ _ => ?_
  refine reports_bind reports_applications fun _ _ => ?_
  exact reports_bind hbody fun _ _ => reports_pure True.intro

theorem reports_namedMember (hbody : Reports all stop body fun r => r.2.OfLexemes all) :
    Reports all stop (namedMember body) fun _ => True := by
  refine reports_bind reports_ident fun name _ => reports_peek fun t => ?_
  split
  · refine reports_bind reports_ordinal fun number _ => reports_bind (reports_mark _) fun _ _ => ?_
    exact reports_peek fun _ => reports_ite (reports_namedUnion hbody name _)
      (reports_field name number)
  · refine reports_bind reports_bump fun _ _ => reports_peek fun t => ?_
    split
    · exact reports_namedUnion hbody name none
    · exact reports_group hbody name
    · exact reports_unexpected _
  · exact reports_unexpected _

/-- A declaration, and what becomes of it, unless none is found. -/
theorem reports_orUnexpected {α : Type} (hdecl : Reports all stop decl fun _ => True)
    (f : Decl → α) (expected : String) : Reports all stop (do
      match ← decl with
      | some d => return some (f d)
      | none => unexpected expected) fun o => ∀ a ∈ o, True := by
  refine reports_bind hdecl fun o _ => ?_
  cases o with
  | some d => exact reports_pure fun _ _ => True.intro
  | none => exact reports_unexpected _

theorem reports_member? (hbody : Reports all stop body fun r => r.2.OfLexemes all)
    (hdecl : Reports all stop decl fun _ => True) (earlier : List Member) :
    Reports all stop (member? body decl earlier) fun o => ∀ m ∈ o, True := by
  refine reports_peek fun t => ?_
  split
  · exact reports_none
  · exact reports_some (reports_anonymousUnion hbody earlier)
  · exact reports_some (reports_namedMember hbody)
  · exact reports_orUnexpected hdecl Member.decl _
  · exact reports_unexpected _

theorem reports_members (hbody : Reports all stop body fun r => r.2.OfLexemes all)
    (hdecl : Reports all stop decl fun _ => True) :
    Reports all stop (members body decl) fun r => r.2.OfLexemes all := by
  refine reports_bind (reports_mark _) fun _ _ => ?_
  refine reports_bind (reports_manyGiven (reports_member? hbody hdecl)) fun _ _ => ?_
  exact reports_bind (reports_mark _) fun _ hclose => reports_pure hclose

theorem reports_interfaceMember? (hdecl : Reports all stop decl fun _ => True) :
    Reports all stop (interfaceMember? decl) fun o => ∀ m ∈ o, True := by
  refine reports_peek fun t => ?_
  split
  · exact reports_none
  · exact reports_some (P := fun _ => True) (reports_map reports_method fun _ _ => True.intro)
  · exact reports_orUnexpected hdecl InterfaceMember.decl _
  · exact reports_unexpected _

theorem reports_bases : Reports all stop bases fun _ => True := by
  refine reports_bind (reports_accept? _) fun o _ => reports_ite ?_ (reports_pure True.intro)
  refine reports_bind (reports_mark _) fun _ _ => ?_
  refine reports_bind (reports_separated _ reports_type) fun _ _ => ?_
  exact reports_bind (reports_mark _) fun _ _ => reports_pure True.intro

theorem reports_interfaceDecl (hdecl : Reports all stop decl fun _ => True) :
    Reports all stop (interfaceDecl decl) fun _ => True := by
  refine reports_bind (reports_keyword _) fun _ _ => reports_bind reports_ident fun _ _ => ?_
  refine reports_bind reports_bases fun _ _ => reports_bind reports_applications fun _ _ => ?_
  refine reports_bind (reports_mark _) fun _ _ => ?_
  refine reports_bind (reports_many (reports_interfaceMember? hdecl)) fun _ _ => ?_
  exact reports_bind (reports_mark _) fun _ _ => reports_pure True.intro

theorem reports_structDecl (hbody : Reports all stop body fun r => r.2.OfLexemes all) :
    Reports all stop (structDecl body) fun _ => True := by
  refine reports_bind (reports_keyword _) fun _ _ => reports_bind reports_ident fun _ _ => ?_
  refine reports_bind reports_applications fun _ _ => ?_
  exact reports_bind hbody fun _ _ => reports_pure True.intro

theorem reports_declWith (hbody : Reports all stop body fun r => r.2.OfLexemes all)
    (hdecl : Reports all stop decl fun _ => True) :
    Reports all stop (declWith body decl) fun _ => True := by
  refine reports_peek fun t => ?_
  split
  · exact (reports_some reports_usingDecl).trivial
  · exact (reports_some reports_constDecl).trivial
  · exact (reports_some (reports_structDecl hbody)).trivial
  · exact (reports_some reports_enumDecl).trivial
  · exact (reports_some (reports_interfaceDecl hdecl)).trivial
  · exact (reports_some reports_annotationDecl).trivial
  · exact reports_pure True.intro

end Bodies

/-! ## The knot -/

theorem reports_declWithin_and_membersWithin (bound : Nat) :
    Reports all stop (declWithin bound) (fun _ => True) ∧
      Reports all stop (membersWithin bound) fun r => r.2.OfLexemes all := by
  induction bound with
  | zero => exact ⟨reports_pure True.intro, reports_unexpected _⟩
  | succ bound ih => exact ⟨reports_declWith ih.2 ih.1, reports_members ih.2 ih.1⟩

theorem reports_decl : Reports all stop decl fun _ => True :=
  reports_bind reports_bound fun _ _ => (reports_declWithin_and_membersWithin _).1

/-! ## Files -/

theorem reports_fileId : Reports all stop fileId fun _ => True := by
  refine reports_bind (reports_accept? _) fun o _ => ?_
  cases o with
  | none => exact reports_bind reports_peekSpan fun _ hspan => reports_fail hspan
  | some start =>
    refine reports_bind (reports_natural _) fun _ _ => ?_
    exact reports_bind (reports_mark _) fun _ _ => reports_pure True.intro

theorem reports_fileItem? : Reports all stop fileItem? fun o => ∀ item ∈ o, True := by
  refine reports_peek fun t => ?_
  split
  · exact reports_none
  · refine reports_bind reports_application fun _ _ => ?_
    exact reports_bind (reports_mark _) fun _ _ => reports_pure fun _ _ => True.intro
  · exact reports_bind reports_peekSpan fun _ hspan => reports_fail hspan
  · exact reports_orUnexpected reports_decl Sum.inr _

theorem reports_file : Reports all stop file fun _ => True := by
  refine reports_bind reports_fileId fun _ _ => ?_
  exact reports_bind (reports_many reports_fileItem?) fun _ _ => reports_pure True.intro

end Parser

/-- The error of lexemes that are no file stands at lexemes or at the end of the source. -/
theorem reported_of_ofLexemes {lexemes : List Lexeme} {stop : Nat} {e : GrammarError}
    (h : Module.ofLexemes lexemes stop = .error e) : e.span.Reported lexemes stop := by
  have hfile := Parser.reports_file ⟨lexemes, stop, lexemes.length⟩ ⟨List.Subset.refl _, rfl⟩
  cases hrun : Parser.file.run ⟨lexemes, stop, lexemes.length⟩ with
  | ok r =>
    rw [Module.ofLexemes, hrun] at h
    cases h
  | error e' =>
    rw [Module.ofLexemes, hrun] at h
    obtain rfl := Except.error.inj h
    exact hfile.2 _ hrun

end SchemaLang
