import SchemaLang.Proofs.Grammar.Soundness

/-!
# What is derived is read

Every production of the parser reads each phrase of its rule, whatever comes after it that could not
continue the phrase.  With soundness this makes the parser a decision procedure for the grammar:
`parse_eq_ok_iff`.
-/

namespace SchemaLang

open Grammar

namespace Grammar

/-! ## What may stand at an optional part -/

/-- Phrases that all begin with the same mark stand before nothing else than what follows them. -/
theorem IsMany.clear {α : Type} {item : Phrases α} {m : Mark} {marks : List Mark}
    {ls rest : List Lexeme} {as : List α} (h : IsMany item ls as)
    (hstart : ∀ ls a, item ls a → ∃ span more, ls = .mark m span :: more) (hm : m ∉ marks)
    (hr : Clear marks rest) : Clear marks (ls ++ rest) := by
  cases h with
  | nil => exact hr
  | cons ha _ =>
    obtain ⟨span, more, rfl⟩ := hstart _ _ ha
    exact clear_mark hm

theorem IsApplications.clear {marks : List Mark} {as rest : List Lexeme}
    {applied : List Application} (h : IsApplications as applied) (hd : .dollar ∉ marks)
    (hr : Clear marks rest) : Clear marks (as ++ rest) :=
  IsMany.clear h (fun _ _ ha => ha.start) hd hr

theorem clear_segments {marks : List Mark} {ls rest : List Lexeme} {segments : List Ident}
    (h : IsMany IsSegment ls segments) (hd : .dot ∉ marks) (hr : Clear marks rest) :
    Clear marks (ls ++ rest) :=
  h.clear (fun _ _ ⟨dot, _⟩ => ⟨dot, _, rfl⟩) hd hr

theorem IsDefault.clear {marks : List Mark} {ds rest : List Lexeme} {default : Option Literal}
    (h : IsDefault ds default) (he : .equals ∉ marks) (hr : Clear marks rest) :
    Clear marks (ds ++ rest) := by
  cases h with
  | none => exact hr
  | some equals => exact clear_mark he

theorem IsResults.clear {marks : List Mark} {ls rest : List Lexeme}
    {results : Option (List Param)} (h : IsResults ls results) (ha : .arrow ∉ marks)
    (hr : Clear marks rest) : Clear marks (ls ++ rest) := by
  cases h with
  | none => exact hr
  | some arrow => exact clear_mark ha

theorem IsBases.clear {marks : List Mark} {bs rest : List Lexeme} {bases : List TypeRef}
    (h : IsBases bs bases) (hr : Clear marks rest) : Clear marks (bs ++ rest) := by
  cases h with
  | none => exact hr
  | some start => exact clear_cons fun m _ => by simp

theorem IsBody.clear {marks : List Mark} {bs rest : List Lexeme} {r : List Member × Span}
    (h : IsBody bs r) (hb : .openBrace ∉ marks) : Clear marks (bs ++ rest) := by
  obtain ⟨opening⟩ := h
  exact clear_mark hb

/-! ## How terms begin -/

theorem IsPath.start {ls : List Lexeme} {p : Path} (h : IsPath ls p) :
    ∃ i rest, ls = Ident.lexeme i :: rest := by
  obtain ⟨first, -⟩ := h
  exact ⟨first, _, rfl⟩

theorem IsType.start {ls : List Lexeme} {t : TypeRef} (h : IsType ls t) :
    ∃ x rest, ls = x :: rest ∧ ((∃ s, x.token = .name s) ∨ x.token = .keyword .importKw) := by
  cases h with
  | named h =>
    obtain ⟨i, rest, rfl⟩ := h.start
    exact ⟨_, rest, rfl, Or.inl ⟨i.name, rfl⟩⟩
  | list list => exact ⟨_, _, rfl, Or.inl ⟨"List", rfl⟩⟩
  | imported h =>
    obtain ⟨start⟩ := h
    exact ⟨_, _, rfl, Or.inr rfl⟩

/-- The marks that a literal may begin with. -/
def literalMarks : List Mark := [.minus, .openBracket, .openParen]

theorem IsLiteral.start {ls : List Lexeme} {l : Literal} (h : IsLiteral ls l) :
    ∃ x rest, ls = x :: rest ∧ ∀ m ∉ literalMarks, x.token ≠ .mark m := by
  have of_mark {m : Mark} (hm : m ∈ literalMarks) (span : Span) :
      ∀ m' ∉ literalMarks, (Lexeme.mark m span).token ≠ .mark m' := by
    rintro m' hm' e
    exact hm' (Token.mark.inj e ▸ hm)
  cases h with
  | number span => exact ⟨_, _, rfl, fun m _ => by simp⟩
  | negative minus => exact ⟨_, _, rfl, of_mark (by decide) minus⟩
  | text span => exact ⟨_, _, rfl, fun m _ => by simp⟩
  | true span => exact ⟨_, _, rfl, fun m _ => by simp⟩
  | false span => exact ⟨_, _, rfl, fun m _ => by simp⟩
  | void span => exact ⟨_, _, rfl, fun m _ => by simp⟩
  | name h =>
    obtain ⟨i, rest, rfl⟩ := h.start
    exact ⟨_, rest, rfl, fun m _ => by simp⟩
  | list opening => exact ⟨_, _, rfl, of_mark (by decide) opening⟩
  | struct opening => exact ⟨_, _, rfl, of_mark (by decide) opening⟩

/-- A literal does not look like the first field of a struct. -/
theorem IsLiteral.not_init {ls rest : List Lexeme} {l : Literal} {s : String}
    (h : IsLiteral ls l) (hr : Clear [.equals] rest)
    (hname : nextToken (ls ++ rest) = some (.name s)) :
    nextToken (ls ++ rest).tail ≠ some (.mark .equals) := by
  cases h with
  | name h =>
    obtain ⟨first, tail⟩ := h
    cases tail with
    | nil => exact hr.ne (by simp)
    | cons head _ => obtain ⟨dot⟩ := head; simp
  | number span => simp at hname
  | negative minus => simp at hname
  | text span => simp at hname
  | true span => simp at hname
  | false span => simp at hname
  | void span => simp at hname
  | list opening => simp at hname
  | struct opening => simp at hname

end Grammar

namespace Parser

/-- The phrases of at most `n` lexemes. -/
def UpTo {α : Type} (n : Nat) (r : Phrases α) : Phrases α :=
  fun used a => r used a ∧ used.length ≤ n

theorem isMany_upTo {α : Type} {r : Phrases α} {n : Nat} {used : List Lexeme} {as : List α}
    (h : IsMany r used as) (hn : used.length ≤ n) : IsMany (UpTo n r) used as := by
  induction h with
  | nil => exact .nil
  | cons ha _ ih =>
    rw [List.length_append] at hn
    exact .cons ⟨ha, by omega⟩ (ih (by omega))

/-- `p` reads every phrase of `r`, whatever follows, and does not take it for the end. -/
def CompleteSome {α : Type} (p : Parser (Option α)) (r : Phrases α) : Prop :=
  ∀ ⦃u w : List Lexeme⦄ ⦃e b : Nat⦄ ⦃a : α⦄, r u a → u.length ≤ b →
    p.run ⟨u ++ w, e, b⟩ = .ok (some a, ⟨w, e, b⟩)

/-! ## Names and numbers -/

theorem complete_moreSegments : Complete moreSegments (IsMany IsSegment) (Clear [.dot]) := by
  intro used rest stop bound segments h hr hb
  refine complete_many (f := fun _ => True) h ?_ ?_ (fun _ _ _ _ => trivial) trivial ?_ hb
  · intro ls i hi
    obtain ⟨dot, i⟩ := hi
    simp
  · intro i ls tail hi _ _
    obtain ⟨dot, i⟩ := hi
    simp
  · simp [run_mark?_of_ne (hr.ne (List.mem_singleton_self _))]

theorem complete_pathFrom {u w : List Lexeme} {segments : List Ident} {e b : Nat}
    (first : Ident) (h : IsMany IsSegment u segments) (hr : Clear [.dot] w)
    (hb : u.length ≤ b) :
    (pathFrom first).run ⟨u ++ w, e, b⟩ =
      .ok (⟨segments.foldl (fun span segment => span.cover segment.span) first.span,
        first :: segments⟩, ⟨w, e, b⟩) := by
  simp [pathFrom, complete_moreSegments h hr hb]

theorem complete_path : Complete path IsPath (Clear [.dot]) := by
  intro used rest stop bound p h hr hb
  obtain ⟨first, tail⟩ := h
  simp [path, complete_pathFrom first tail hr (Nat.le_of_succ_le hb)]

theorem complete_importTarget : Complete importTarget IsImport (Clear [.dot]) := by
  intro used rest stop bound target h hr hb
  obtain ⟨start, file, decoded, tail⟩ := h
  have htail := complete_moreSegments (e := stop) (b := bound) tail hr
    (by simp only [List.length_cons] at hb; omega)
  simp [importTarget, run_text file decoded, htail]

theorem complete_ordinal : Complete ordinal IsOrdinal fun _ => True := by
  intro used rest stop bound o h _ _
  obtain ⟨start, number, decoded⟩ := h
  simp [ordinal, run_natural number decoded]

/-! ## Types -/

theorem complete_typeWithin :
    ∀ n, Complete (typeWithin n) (UpTo n IsType) (Clear [.dot, .openParen])
  | 0 => by
    intro used rest stop bound t ⟨h, hn⟩ _ _
    obtain ⟨x, ls, rfl, -⟩ := h.start
    simp at hn
  | n + 1 => by
    intro used rest stop bound t ⟨h, hn⟩ hr hb
    cases h with
    | named h =>
      have hpath := complete_path h (e := stop) (hr.mono (by simp)) hb
      obtain ⟨first, tail⟩ := h
      simp only [List.cons_append] at hpath ⊢
      simp [typeWithin, hpath, run_mark?_of_ne (hr.ne (m := .openParen) (by simp))]
    | @list ls t list opening closing h =>
      simp only [List.length_cons, List.length_append, List.length_nil] at hn hb
      have hpath := complete_path (IsPath.mk ⟨list, "List"⟩ .nil)
        (w := .mark .openParen opening :: (ls ++ .mark .closeParen closing :: rest))
        (e := stop) (b := bound) (clear_mark (by decide)) (by simp; omega)
      have helement := complete_separated (e := stop) (b := bound)
        (w := .mark .closeParen closing :: rest) (r := UpTo n IsType)
        (IsSeparated.last ⟨h, by omega⟩)
        (fun a used tail ha ht hb => complete_typeWithin n ha ht hb)
        (fun _ _ => clear_mark (by decide)) (clear_mark (by decide)) (by simp) (by omega)
      simp only [List.singleton_append] at hpath
      simp [typeWithin, hpath, helement, applyParameters]
    | imported h =>
      have htarget := complete_importTarget h (e := stop) (hr.mono (by simp)) hb
      obtain ⟨start, file, decoded, tail⟩ := h
      simp only [List.cons_append] at htarget ⊢
      simp [typeWithin, htarget]

theorem complete_type : Complete type IsType (Clear [.dot, .openParen]) := by
  intro used rest stop bound t h hr hb
  simp [type, complete_typeWithin bound ⟨h, hb⟩ hr hb]

/-! ## Literals -/

theorem run_numeral {span : Span} {s : String} {l : Literal} (h : IsNumeral span s l)
    (stream : Stream) : (numeral span s).run stream = .ok (l, stream) := by
  cases h with
  | int shape decoded => simp [numeral, shape, decoded]
  | float shape decoded => simp [numeral, shape, decoded]

/-- The fields of a struct are read by whatever reads the values up to the closing mark. -/
theorem complete_structFields {value : Parser Literal} {r : Phrases Literal}
    (hvalue : Complete value r (Clear [.dot])) :
    Complete (structFields value) (IsListed (IsInit r)) fun rest =>
      nextToken rest = some (.mark .closeParen) := by
  intro used rest stop bound fields h hr hb
  refine complete_listUntil (f := Clear [.dot]) h (by decide) ?_ ?_
    (fun _ _ => clear_mark (by decide)) (fun m hm => ?_) hr hb
  · rintro field used tail ⟨i, equals, set⟩ ht hb
    simp only [List.length_cons] at hb
    have hset := hvalue set ht (e := stop) (b := bound) (by omega)
    simp [hset]
  · rintro used field ⟨i, equals, set⟩
    exact ⟨_, _, rfl, by simp⟩
  · obtain rfl := List.mem_singleton.1 hm
    simp [hr]

/-- A literal is read if its list or struct is read from the opening mark on. -/
theorem complete_literalWith {list struct : Span → Parser Literal} {room : Nat}
    (hlist : ∀ ls items opening closing w e b, IsListed IsLiteral ls items →
      itemsDepth items < room → ls.length ≤ b →
      (list opening).run
        ⟨.mark .openBracket opening :: (ls ++ .mark .closeBracket closing :: w), e, b⟩ =
        .ok (.list (opening.cover closing) items, ⟨w, e, b⟩))
    (hstruct : ∀ ls fields opening closing w e b, IsListed (IsInit IsLiteral) ls fields →
      fieldsDepth fields < room → ls.length ≤ b →
      (struct opening).run
        ⟨.mark .openParen opening :: (ls ++ .mark .closeParen closing :: w), e, b⟩ =
        .ok (.struct (opening.cover closing) fields, ⟨w, e, b⟩)) :
    Complete (literalWith list struct) (IsWithin room) (Clear [.dot]) := by
  intro used rest stop bound l ⟨h, hd⟩ hr hb
  cases h with
  | number span numeral => simp [literalWith, run_numeral numeral]
  | negative minus number numeral => simp [literalWith, run_numeral numeral]
  | text span decoded => simp [literalWith, run_text span decoded]
  | true span => simp [literalWith]
  | false span => simp [literalWith]
  | void span => simp [literalWith]
  | name path =>
    have hpath := complete_path path hr hb (e := stop)
    obtain ⟨first, rest', rfl⟩ := path.start
    simp only [List.cons_append] at hpath
    simp [literalWith, hpath]
  | list opening closing body =>
    simp only [List.length_cons, List.length_append, List.length_nil] at hb
    have hrun := hlist _ _ opening closing rest stop bound body hd (by omega)
    simp [literalWith, hrun]
  | struct opening closing body =>
    simp only [List.length_cons, List.length_append, List.length_nil] at hb
    have hrun := hstruct _ _ opening closing rest stop bound body hd (by omega)
    simp [literalWith, hrun]

theorem complete_literalWithin :
    ∀ room, Complete (literalWithin room) (IsWithin room) (Clear [.dot])
  | 0 => complete_literalWith (fun _ _ _ _ _ _ _ _ h => by omega)
      fun _ _ _ _ _ _ _ _ h => by omega
  | room + 1 => by
    refine complete_literalWith ?_ ?_
    · intro ls items opening closing rest stop bound h hd hb
      have hitems := complete_listUntil (c := .closeBracket) (e := stop) (b := bound)
        (f := Clear [.dot]) (w := .mark .closeBracket closing :: rest)
        (isListed_within_iff.2 ⟨h, Nat.le_of_lt_succ hd⟩) (by decide)
        (fun _ _ _ hl ht hb => complete_literalWithin room hl ht hb)
        (fun _ _ hl => by
          obtain ⟨x, more, rfl, hx⟩ := hl.1.start
          exact ⟨x, more, rfl, hx _ (by decide)⟩)
        (fun _ _ => clear_mark (by decide)) (clear_mark (by decide)) (by simp) hb
      simp [listLiteral, hitems]
    · intro ls fields opening closing rest stop bound h hd hb
      have hfields := complete_structFields (complete_literalWithin room) (e := stop)
        (b := bound) (w := .mark .closeParen closing :: rest)
        (isListed_init_within_iff.2 ⟨h, Nat.le_of_lt_succ hd⟩) (by simp) hb
      simp [structLiteral, hfields]

theorem complete_literal : Complete literal IsShallow (Clear [.dot]) := complete_literalWithin _

theorem complete_default? : Complete default? IsDefault (Clear [.equals, .dot]) := by
  intro used rest stop bound o h hr hb
  cases h with
  | none => simp [default?, run_mark?_of_ne (hr.ne (m := .equals) (by simp))]
  | some equals value =>
    simp only [List.length_cons] at hb
    have hvalue := complete_literal value (hr.mono (by simp)) (e := stop) (b := bound)
      (by omega)
    simp [default?, hvalue]

/-! ## Annotations -/

theorem complete_application :
    Complete application IsApplication (Clear [.dot, .openParen]) := by
  intro used rest stop bound a h hr hb
  cases h with
  | bare start name =>
    simp only [List.length_cons] at hb
    have hname := complete_path name (hr.mono (by simp)) (e := stop) (b := bound) (by omega)
    simp [application, hname, run_accept?_of_ne (hr.ne (m := .openParen) (by simp))]
  | void start opening closing name =>
    simp only [List.length_cons, List.length_append, List.length_nil] at hb
    have hname := complete_path name (e := stop) (b := bound)
      (w := .mark .openParen opening :: .mark .closeParen closing :: rest)
      (clear_mark (by decide)) (by omega)
    simp [application, hname]
  | @fields ls body p fields start opening closing name inits nonempty =>
    simp only [List.length_cons, List.length_append, List.length_nil] at hb
    have hname := complete_path name (e := stop) (b := bound)
      (w := .mark .openParen opening :: (body ++ .mark .closeParen closing :: rest))
      (clear_mark (by decide)) (by omega)
    have hfields := complete_structFields complete_literal inits (e := stop) (b := bound)
      (w := .mark .closeParen closing :: rest) (by simp) (by omega)
    obtain ⟨i, equals, more, rfl⟩ :
        ∃ i equals more, body = Ident.lexeme i :: .mark .equals equals :: more := by
      cases inits with
      | nil => exact absurd rfl nonempty
      | last hi => obtain ⟨i, equals⟩ := hi; exact ⟨i, equals, _, rfl⟩
      | cons comma hi => obtain ⟨i, equals⟩ := hi; exact ⟨i, equals, _, rfl⟩
    simp only [List.cons_append] at hname hfields
    simp [application, hname, hfields]
  | @value ls body p l start opening closing name value =>
    simp only [List.length_cons, List.length_append, List.length_nil] at hb
    have hname := complete_path name (e := stop) (b := bound)
      (w := .mark .openParen opening :: (body ++ .mark .closeParen closing :: rest))
      (clear_mark (by decide)) (by omega)
    have hvalue := complete_literal value (e := stop) (b := bound)
      (w := .mark .closeParen closing :: rest) (clear_mark (by decide)) (by omega)
    simp only [application, StateT.run_bind, List.cons_append, List.append_assoc, run_mark, ok_bind,
      List.nil_append, hname, run_accept?_mark, run_peek, run_peekSecond]
    split
    · next hclose =>
      obtain ⟨x, more, rfl, hx⟩ := value.1.start
      exact absurd (Option.some.inj hclose) (hx _ (by decide))
    · next hinit hequals =>
      exact absurd hequals (value.1.not_init (clear_mark (by decide)) hinit)
    · simp [hvalue]

theorem complete_applications :
    Complete applications IsApplications (Clear [.dot, .openParen, .dollar]) := by
  intro used rest stop bound applied h hr hb
  refine complete_many (f := Clear [.dot, .openParen]) h ?_ ?_ ?_ (hr.mono (by simp)) ?_ hb
  · intro ls a ha
    obtain ⟨span, more, rfl⟩ := ha.start
    simp
  · intro a ls tail ha ht hb
    have happlication := complete_application ha ht hb (e := stop)
    obtain ⟨span, more, rfl⟩ := ha.start
    simp only [List.cons_append] at happlication ⊢
    simp [happlication]
  · intro ls a tail ha
    obtain ⟨span, more, rfl⟩ := ha.start
    exact clear_mark (by decide)
  · simp [hr.ne (m := .dollar) (by simp)]

/-! ## Declarations without a body -/

theorem complete_usingDecl : Complete usingDecl IsUsing fun _ => True := by
  intro used rest stop bound d h _ hb
  cases h with
  | path start semicolon target =>
    obtain ⟨first, tail⟩ := target
    simp only [List.length_cons, List.length_append, List.length_nil] at hb
    have hpath := complete_pathFrom (e := stop) (b := bound)
      (w := .mark .semicolon semicolon :: rest) first tail (clear_mark (by decide)) (by omega)
    have hequals : Clear [.equals] (_ ++ .mark .semicolon semicolon :: rest) :=
      clear_segments tail (by decide) (clear_mark (by decide))
    have hne := hequals.ne (List.mem_singleton_self _)
    simp [usingDecl, usingDecl.aliased, hpath, run_mark?_of_ne hne]
  | pathAs start equals semicolon i target =>
    simp only [List.length_cons, List.length_append, List.length_nil] at hb
    have hpath := complete_path (e := stop) (b := bound)
      (w := .mark .semicolon semicolon :: rest) target (clear_mark (by decide)) (by omega)
    obtain ⟨first, more, rfl⟩ := target.start
    simp only [List.cons_append] at hpath
    simp [usingDecl, usingDecl.aliased, hpath]
  | imported start semicolon target =>
    simp only [List.length_cons, List.length_append, List.length_nil] at hb
    have htarget := complete_importTarget (e := stop) (b := bound)
      (w := .mark .semicolon semicolon :: rest) target (clear_mark (by decide)) (by omega)
    obtain ⟨kw⟩ := target
    simp only [List.cons_append] at htarget
    simp [usingDecl, usingDecl.imported, htarget]
  | importedAs start equals semicolon i target =>
    simp only [List.length_cons, List.length_append, List.length_nil] at hb
    have htarget := complete_importTarget (e := stop) (b := bound)
      (w := .mark .semicolon semicolon :: rest) target (clear_mark (by decide)) (by omega)
    obtain ⟨kw⟩ := target
    simp only [List.cons_append] at htarget
    simp [usingDecl, usingDecl.imported, htarget]

theorem complete_constDecl :
    Complete constDecl (fun used d => ∃ c, d = .const c ∧ IsConst used c) fun _ => True := by
  rintro used rest stop bound d ⟨c, rfl, h⟩ _ hb
  obtain @⟨tys, vs, as, _, _, _, start, colon, equals, semicolon, name, htype, hvalue,
    happlied⟩ := h
  simp only [List.length_cons, List.length_append, List.length_nil] at hb
  have htype := complete_type htype (e := stop) (b := bound)
    (w := .mark .equals equals :: (vs ++ (as ++ .mark .semicolon semicolon :: rest)))
    (clear_mark (by decide)) (by omega)
  have hvalue := complete_literal hvalue (e := stop) (b := bound)
    (w := as ++ .mark .semicolon semicolon :: rest)
    (happlied.clear (by decide) (clear_mark (by decide))) (by omega)
  have happlied := complete_applications happlied (e := stop) (b := bound)
    (w := .mark .semicolon semicolon :: rest) (clear_mark (by decide)) (by omega)
  simp [constDecl, htype, hvalue, happlied]

theorem complete_enumerant? : CompleteSome enumerant? IsEnumerant := by
  intro used rest stop bound e h hb
  obtain @⟨os, as, _, _, semicolon, name, hnumber, happlied⟩ := h
  simp only [List.length_cons, List.length_append, List.length_nil] at hb
  have hnumber := complete_ordinal hnumber (e := stop) (b := bound)
    (w := as ++ .mark .semicolon semicolon :: rest) trivial (by omega)
  have happlied := complete_applications happlied (e := stop) (b := bound)
    (w := .mark .semicolon semicolon :: rest) (clear_mark (by decide)) (by omega)
  simp [enumerant?, hnumber, happlied]

theorem complete_enumDecl :
    Complete enumDecl (fun used d => ∃ e, d = .enum e ∧ IsEnum used e) fun _ => True := by
  rintro used rest stop bound d ⟨e, rfl, h⟩ _ hb
  obtain @⟨as, es, _, _, start, opening, closing, name, happlied, henumerants⟩ := h
  simp only [List.length_cons, List.length_append, List.length_nil] at hb
  have happlied := complete_applications happlied (e := stop) (b := bound)
    (w := .mark .openBrace opening :: (es ++ .mark .closeBrace closing :: rest))
    (clear_mark (by decide)) (by omega)
  have henumerants := complete_many (p := enumerant?) (f := fun _ => True)
    (w := .mark .closeBrace closing :: rest) (e := stop) (b := bound) henumerants
    (fun _ _ h => by obtain ⟨semicolon⟩ := h; simp)
    (fun _ _ _ h _ hb => complete_enumerant? h hb) (fun _ _ _ _ => trivial) trivial
    (by simp [enumerant?]) (by omega)
  simp [enumDecl, happlied, henumerants]

theorem complete_target : Complete target IsTarget fun _ => True := by
  intro used rest stop bound r h _ _
  obtain ⟨x, rfl, hx⟩ : ∃ x, used = [x] ∧ x.span = r.1 := by cases h <;> exact ⟨_, rfl, rfl⟩
  obtain ⟨span, t⟩ := r
  obtain rfl : x.span = span := hx
  have htarget := (isTarget_iff_targetOf? x t).1 h
  simp [target, htarget]

theorem complete_annotationDecl : Complete annotationDecl
    (fun used d => ∃ a, d = .annotationDecl a ∧ IsAnnotationDecl used a) fun _ => True := by
  rintro used rest stop bound d ⟨a, rfl, h⟩ _ hb
  obtain @⟨tgs, tys, as, _, _, _, start, opening, closing, colon, semicolon, name, htargets, htype,
    happlied⟩ := h
  simp only [List.length_cons, List.length_append, List.length_nil] at hb
  have htargets := complete_separated (p := target) (f := fun _ => True)
    (w := .mark .closeParen closing :: .mark .colon colon ::
      (tys ++ (as ++ .mark .semicolon semicolon :: rest))) (e := stop) (b := bound) htargets
    (fun _ _ _ h _ hb => complete_target h trivial hb) (fun _ _ => trivial) trivial (by simp)
    (by omega)
  have htype := complete_type htype (e := stop) (b := bound)
    (w := as ++ .mark .semicolon semicolon :: rest)
    (happlied.clear (by decide) (clear_mark (by decide))) (by omega)
  have happlied := complete_applications happlied (e := stop) (b := bound)
    (w := .mark .semicolon semicolon :: rest) (clear_mark (by decide)) (by omega)
  simp [annotationDecl, htargets, htype, happlied]

/-! ## Methods and fields -/

theorem complete_param : Complete param IsParam (Clear [.dot, .openParen, .dollar, .equals]) := by
  intro used rest stop bound p h hr hb
  obtain @⟨tys, ds, as, _, _, _, colon, name, htype, hdefault, happlied⟩ := h
  simp only [List.length_cons, List.length_append] at hb
  have htype := complete_type htype (e := stop) (b := bound) (w := ds ++ (as ++ rest))
    (hdefault.clear (by decide) (happlied.clear (by decide) (hr.mono (by simp)))) (by omega)
  have hdefault := complete_default? hdefault (e := stop) (b := bound) (w := as ++ rest)
    (happlied.clear (by decide) (hr.mono (by simp))) (by omega)
  have happlied := complete_applications happlied (e := stop) (b := bound)
    (hr.mono (by simp)) (by omega)
  simp [param, htype, hdefault, happlied]

theorem complete_params : Complete params IsParams fun _ => True := by
  intro used rest stop bound ps h _ hb
  cases h with
  | nil opening closing => simp [params]
  | @some ls _ opening closing h =>
    simp only [List.length_cons, List.length_append, List.length_nil] at hb
    have hparams := complete_separated (p := param)
      (f := Clear [.dot, .openParen, .dollar, .equals]) (e := stop) (b := bound)
      (w := .mark .closeParen closing :: rest) h
      (fun _ _ _ h ht hb => complete_param h ht hb) (fun _ _ => clear_mark (by decide))
      (clear_mark (by decide)) (by simp) (by omega)
    obtain ⟨i, more, rfl⟩ : ∃ i more, ls = Ident.lexeme i :: more := by
      cases h with
      | last h => obtain ⟨colon, i⟩ := h; exact ⟨i, _, rfl⟩
      | cons comma h => obtain ⟨colon, i⟩ := h; exact ⟨i, _, rfl⟩
    simp only [List.cons_append] at hparams
    have hclose : nextToken (i.lexeme :: (more ++ .mark .closeParen closing :: rest)) ≠
        some (.mark .closeParen) := by simp
    simp [params, run_mark?_of_ne hclose, hparams]

theorem complete_results? : Complete results? IsResults (Clear [.arrow]) := by
  intro used rest stop bound rs h hr hb
  cases h with
  | none => simp [results?, run_mark?_of_ne (hr.ne (List.mem_singleton_self _))]
  | some arrow h =>
    simp only [List.length_cons] at hb
    have hparams := complete_params h (e := stop) (b := bound) (w := rest) trivial
      (by omega)
    simp [results?, hparams]

theorem complete_method : Complete method IsMethod fun _ => True := by
  intro used rest stop bound m h _ hb
  obtain @⟨os, ps, rs, as, _, _, _, _, semicolon, name, hnumber, hparams, hresults, happlied⟩ := h
  simp only [List.length_cons, List.length_append, List.length_nil] at hb
  have hnumber := complete_ordinal hnumber (e := stop) (b := bound)
    (w := ps ++ (rs ++ (as ++ .mark .semicolon semicolon :: rest))) trivial (by omega)
  have hparams := complete_params hparams (e := stop) (b := bound)
    (w := rs ++ (as ++ .mark .semicolon semicolon :: rest)) trivial (by omega)
  have hresults := complete_results? hresults (e := stop) (b := bound)
    (w := as ++ .mark .semicolon semicolon :: rest)
    (happlied.clear (by decide) (clear_mark (by decide))) (by omega)
  have happlied := complete_applications happlied (e := stop) (b := bound)
    (w := .mark .semicolon semicolon :: rest) (clear_mark (by decide)) (by omega)
  simp [method, hnumber, hparams, hresults, happlied]

theorem complete_bases : Complete bases IsBases fun rest =>
    nextToken rest ≠ some (.keyword .extendsKw) := by
  intro used rest stop bound ts h hr hb
  cases h with
  | none => simp [bases, run_accept?_of_ne hr]
  | some start opening closing h =>
    simp only [List.length_cons, List.length_append, List.length_nil] at hb
    have htypes := complete_separated (p := type) (f := Clear [.dot, .openParen])
      (e := stop) (b := bound) (w := .mark .closeParen closing :: rest) h
      (fun _ _ _ h ht hb => complete_type h ht hb) (fun _ _ => clear_mark (by decide))
      (clear_mark (by decide)) (by simp) (by omega)
    simp [bases, htypes]

/-! ## Bodies -/

section Bodies

variable {n : Nat} {body : Parser (List Member × Span)} {decl : Parser (Option Decl)}

/-- A named union from its keyword on. -/
theorem complete_namedUnion (hbody : Complete body (UpTo n IsBody) fun _ => True) (name : Ident)
    (number : Option Ordinal) {as bs w : List Lexeme} {applied : List Application}
    {ms : List Member} {e b : Nat} {k closing : Span} (happlied : IsApplications as applied)
    (hms : IsBody bs (ms, closing)) (hn : bs.length ≤ n) (hb : (as ++ bs).length ≤ b) :
    (namedUnion body name number).run ⟨.word .unionKw k :: (as ++ (bs ++ w)), e, b⟩ =
      .ok (.union ⟨name.span.cover closing, name, applied⟩ number ms, ⟨w, e, b⟩) := by
  rw [List.length_append] at hb
  have happlied := complete_applications happlied (e := e) (b := b)
    (w := bs ++ w) (hms.clear (by decide)) (by omega)
  have hms := hbody ⟨hms, hn⟩ (e := e) (b := b) (w := w) trivial (by omega)
  simp [namedUnion, happlied, hms]

/-- A group from its keyword on. -/
theorem complete_group (hbody : Complete body (UpTo n IsBody) fun _ => True) (name : Ident)
    {as bs w : List Lexeme} {applied : List Application} {ms : List Member} {e b : Nat}
    {k closing : Span} (happlied : IsApplications as applied) (hms : IsBody bs (ms, closing))
    (hn : bs.length ≤ n) (hb : (as ++ bs).length ≤ b) :
    (group body name).run ⟨.word .groupKw k :: (as ++ (bs ++ w)), e, b⟩ =
      .ok (.group ⟨name.span.cover closing, name, applied⟩ ms, ⟨w, e, b⟩) := by
  rw [List.length_append] at hb
  have happlied := complete_applications happlied (e := e) (b := b)
    (w := bs ++ w) (hms.clear (by decide)) (by omega)
  have hms := hbody ⟨hms, hn⟩ (e := e) (b := b) (w := w) trivial (by omega)
  simp [group, happlied, hms]

/-- A field from its type on. -/
theorem complete_field (name : Ident) (number : Ordinal) {tys ds as w : List Lexeme}
    {type : TypeRef} {default : Option Literal} {applied : List Application} {e b : Nat}
    {s : Span} (htype : IsType tys type) (hdefault : IsDefault ds default)
    (happlied : IsApplications as applied) (hb : (tys ++ (ds ++ as)).length ≤ b) :
    (field name number).run
        ⟨tys ++ (ds ++ (as ++ .mark .semicolon s :: w)), e, b⟩ =
      .ok (.field ⟨name.span.cover s, name, number, type, default, applied⟩,
        ⟨w, e, b⟩) := by
  simp only [List.length_append] at hb
  have htype := complete_type htype (e := e) (b := b)
    (w := ds ++ (as ++ .mark .semicolon s :: w))
    (hdefault.clear (by decide) (happlied.clear (by decide) (clear_mark (by decide)))) (by omega)
  have hdefault := complete_default? hdefault (e := e) (b := b)
    (w := as ++ .mark .semicolon s :: w)
    (happlied.clear (by decide) (clear_mark (by decide))) (by omega)
  have happlied := complete_applications happlied (e := e) (b := b)
    (w := .mark .semicolon s :: w) (clear_mark (by decide)) (by omega)
  simp [field, htype, hdefault, happlied]

/-- A union without a name is read as long as none stands before it. -/
theorem complete_anonymousUnion (hbody : Complete body (UpTo n IsBody) fun _ => True)
    {earlier : List Member} (hearlier : earlier.any Member.isAnonymousUnion = false)
    {as bs w : List Lexeme} {applied : List Application} {ms : List Member} {e b : Nat}
    {k closing : Span} (happlied : IsApplications as applied) (hms : IsBody bs (ms, closing))
    (hn : bs.length ≤ n) (hb : (as ++ bs).length ≤ b) :
    (anonymousUnion body earlier).run ⟨.word .unionKw k :: (as ++ (bs ++ w)), e, b⟩ =
      .ok (.anonymousUnion (k.cover closing) applied ms, ⟨w, e, b⟩) := by
  rw [List.length_append] at hb
  have happlied := complete_applications happlied (e := e) (b := b)
    (w := bs ++ w) (hms.clear (by decide)) (by omega)
  have hms := hbody ⟨hms, hn⟩ (e := e) (b := b) (w := w) trivial (by omega)
  simp [anonymousUnion, happlied, hms, hearlier]

theorem complete_member? (hbody : Complete body (UpTo n IsBody) fun _ => True)
    (hdecl : CompleteSome decl (UpTo n IsDecl)) {earlier : List Member} {m : Member}
    (hsingle : (m :: earlier).countP Member.isAnonymousUnion ≤ 1) {used rest : List Lexeme}
    {stop bound : Nat} (h : IsMember used m) (hn : used.length ≤ n) (hb : used.length ≤ bound) :
    (member? body decl earlier).run ⟨used ++ rest, stop, bound⟩ =
      .ok (some m, ⟨rest, stop, bound⟩) := by
  cases h with
  | field h =>
    obtain @⟨_, tys, ds, as, _, _, _, _, colon, semicolon, name, hnumber, htype, hdefault,
      happlied⟩ := h
    obtain @⟨_, value, start, number, decoded⟩ := hnumber
    simp only [List.length_cons, List.length_append, List.length_nil] at hb
    have hfield := complete_field name ⟨start.cover number, value.toNat⟩ htype hdefault happlied
      (w := rest) (e := stop) (b := bound) (s := semicolon)
      (by simp only [List.length_append]; omega)
    obtain ⟨x, more, rfl, hx⟩ := htype.start
    have hunion : x.token ≠ .keyword .unionKw := by
      rcases hx with ⟨s, hx⟩ | hx <;> simp [hx]
    simp only [List.cons_append] at hfield
    simp [member?, namedMember, ordinal, run_natural number decoded, hunion, hfield]
  | @union as bs applied ms closing colon kw name happlied hms =>
    simp only [List.length_cons, List.length_append] at hb hn
    have hunion := complete_namedUnion hbody name none happlied hms (w := rest) (k := kw)
      (e := stop) (b := bound) (by omega) (by rw [List.length_append]; omega)
    simp [member?, namedMember, hunion]
  | @numberedUnion _ as bs _ applied ms closing colon kw name hnumber happlied hms =>
    obtain @⟨_, value, start, number, decoded⟩ := hnumber
    simp only [List.length_cons, List.length_append] at hb hn
    have hunion := complete_namedUnion hbody name (some ⟨start.cover number, value.toNat⟩)
      happlied hms (w := rest) (k := kw) (e := stop) (b := bound) (by omega)
      (by rw [List.length_append]; omega)
    simp [member?, namedMember, ordinal, run_natural number decoded, hunion]
  | @anonymousUnion as bs applied ms closing kw happlied hms =>
    simp only [List.length_cons, List.length_append] at hb hn
    have hearlier : earlier.any Member.isAnonymousUnion = false := by
      have hzero : earlier.countP Member.isAnonymousUnion = 0 := by
        rw [List.countP_cons_of_pos rfl] at hsingle
        omega
      simpa [List.countP_eq_zero] using hzero
    have hunion := complete_anonymousUnion hbody hearlier happlied hms (w := rest) (k := kw)
      (e := stop) (b := bound) (by omega) (by rw [List.length_append]; omega)
    simp [member?, hunion]
  | @group as bs applied ms closing colon kw name happlied hms =>
    simp only [List.length_cons, List.length_append] at hb hn
    have hgroup := complete_group hbody name happlied hms (w := rest) (k := kw)
      (e := stop) (b := bound) (by omega) (by rw [List.length_append]; omega)
    simp [member?, namedMember, hgroup]
  | decl h =>
    have hrun := hdecl ⟨h, hn⟩ hb (w := rest) (e := stop)
    obtain ⟨k, hk, span, more, rfl⟩ := h.start
    have hunion : k ≠ .unionKw := by
      rintro rfl
      exact absurd hk (by decide)
    simp only [List.cons_append] at hrun
    simp [member?, hunion, hrun]

theorem complete_members (hbody : Complete body (UpTo n IsBody) fun _ => True)
    (hdecl : CompleteSome decl (UpTo n IsDecl)) :
    Complete (members body decl) (UpTo (n + 1) IsBody) fun _ => True := by
  rintro used rest stop bound r ⟨h, hn⟩ _ hb
  obtain @⟨ls, ms, opening, closing, hmany, hsingle⟩ := h
  simp only [List.length_cons, List.length_append, List.length_nil] at hn hb
  have hms := complete_manyGiven (p := member? body decl) (r := UpTo n IsMember)
    (k := fun ms => ms.countP Member.isAnonymousUnion ≤ 1) (f := fun _ => True)
    (w := .mark .closeBrace closing :: rest) (e := stop) (b := bound)
    (isMany_upTo hmany (by omega)) (fun _ _ h => h.1.ne_nil)
    (fun _ _ _ _ hk h _ hb => complete_member? hbody hdecl hk h.1 h.2 hb)
    (fun _ _ _ _ => trivial) trivial (fun _ => by simp [member?])
    (fun _ _ h => Nat.le_trans (List.Sublist.countP_le (List.sublist_cons_self _ _)) h)
    (by simpa using hsingle) (by omega)
  simp [members, hms]

theorem complete_interfaceMember? (hdecl : CompleteSome decl (UpTo n IsDecl)) :
    CompleteSome (interfaceMember? decl) (UpTo n IsInterfaceMember) := by
  rintro used rest stop bound m ⟨h, hn⟩ hb
  cases h with
  | method h =>
    have hmethod := complete_method h (w := rest) (e := stop) trivial hb
    obtain ⟨i, more, rfl⟩ := h.start
    simp only [List.cons_append] at hmethod
    simp [interfaceMember?, hmethod]
  | decl h =>
    have hrun := hdecl ⟨h, hn⟩ hb (w := rest) (e := stop)
    obtain ⟨k, hk, span, more, rfl⟩ := h.start
    simp only [List.cons_append] at hrun
    simp [interfaceMember?, hrun]

theorem complete_declWith (hbody : Complete body (UpTo n IsBody) fun _ => True)
    (hdecl : CompleteSome decl (UpTo n IsDecl)) :
    CompleteSome (declWith body decl) (UpTo (n + 1) IsDecl) := by
  rintro used rest stop bound d ⟨h, hn⟩ hb
  cases h with
  | usingForm h =>
    have hrun := complete_usingDecl h (w := rest) (e := stop) trivial hb
    obtain ⟨span, more, rfl⟩ := h.start
    simp only [List.cons_append] at hrun
    simp [declWith, hrun]
  | const h =>
    have hrun := complete_constDecl ⟨_, rfl, h⟩ (w := rest) (e := stop) trivial hb
    obtain ⟨span, more, rfl⟩ := h.start
    simp only [List.cons_append] at hrun
    simp [declWith, hrun]
  | @struct as bs applied ms closing start name happlied hms =>
    simp only [List.length_cons, List.length_append] at hn hb
    have happlied := complete_applications happlied (e := stop) (b := bound)
      (w := bs ++ rest) (hms.clear (by decide)) (by omega)
    have hms := hbody ⟨hms, by omega⟩ (e := stop) (b := bound) (w := rest) trivial
      (by omega)
    simp [declWith, structDecl, happlied, hms]
  | enum h =>
    have hrun := complete_enumDecl ⟨_, rfl, h⟩ (w := rest) (e := stop) trivial hb
    obtain ⟨span, more, rfl⟩ := h.start
    simp only [List.cons_append] at hrun
    simp [declWith, hrun]
  | @interface bs as ls types applied ms start opening closing name htypes happlied hmany =>
    simp only [List.length_cons, List.length_append, List.length_nil] at hn hb
    have hextends : nextToken (as ++ .mark .openBrace opening ::
        (ls ++ .mark .closeBrace closing :: rest)) ≠ some (.keyword .extendsKw) := by
      cases happlied with
      | nil => simp
      | cons ha _ => obtain ⟨span, more, rfl⟩ := ha.start; simp
    have htypes := complete_bases htypes (e := stop) (b := bound)
      (w := as ++ .mark .openBrace opening :: (ls ++ .mark .closeBrace closing :: rest))
      hextends (by omega)
    have happlied := complete_applications happlied (e := stop) (b := bound)
      (w := .mark .openBrace opening :: (ls ++ .mark .closeBrace closing :: rest))
      (clear_mark (by decide)) (by omega)
    have hms := complete_many (p := interfaceMember? decl) (r := UpTo n IsInterfaceMember)
      (f := fun _ => True) (w := .mark .closeBrace closing :: rest) (e := stop)
      (b := bound) (isMany_upTo hmany (by omega)) (fun _ _ h => h.1.ne_nil)
      (fun _ _ _ h _ hb => complete_interfaceMember? hdecl h hb) (fun _ _ _ _ => trivial) trivial
      (by simp [interfaceMember?]) (by omega)
    simp [declWith, interfaceDecl, htypes, happlied, hms]
  | annotationDecl h =>
    have hrun := complete_annotationDecl ⟨_, rfl, h⟩ (w := rest) (e := stop) trivial hb
    obtain ⟨span, more, rfl⟩ := h.start
    simp only [List.cons_append] at hrun
    simp [declWith, hrun]

end Bodies

/-! ## The knot -/

theorem complete_declWithin_and_membersWithin (n : Nat) :
    CompleteSome (declWithin n) (UpTo n IsDecl) ∧
      Complete (membersWithin n) (UpTo n IsBody) fun _ => True := by
  induction n with
  | zero =>
    constructor
    · rintro used rest stop bound d ⟨h, hn⟩ _
      obtain ⟨k, -, span, more, rfl⟩ := h.start
      simp at hn
    · rintro used rest stop bound r ⟨h, hn⟩ _ _
      obtain ⟨opening⟩ := h
      simp at hn
  | succ n ih => exact ⟨complete_declWith ih.2 ih.1, complete_members ih.2 ih.1⟩

theorem complete_decl : CompleteSome decl IsDecl := by
  intro used rest stop bound d h hb
  have hrun := (complete_declWithin_and_membersWithin bound).1 ⟨h, hb⟩ hb (w := rest)
    (e := stop)
  simp [decl, hrun]

/-! ## Files -/

theorem complete_fileItem? : CompleteSome fileItem? IsFileItem := by
  intro used rest stop bound item h hb
  cases h with
  | application semicolon h =>
    simp only [List.length_append, List.length_cons, List.length_nil] at hb
    have hrun := complete_application h (w := .mark .semicolon semicolon :: rest) (e := stop)
      (b := bound) (clear_mark (by decide)) (by omega)
    obtain ⟨span, more, rfl⟩ := h.start
    simp only [List.cons_append] at hrun
    simp [fileItem?, hrun]
  | decl h =>
    have hrun := complete_decl h (w := rest) (e := stop) hb
    obtain ⟨k, -, span, more, rfl⟩ := h.start
    simp only [List.cons_append] at hrun
    simp [fileItem?, hrun]

end Parser

/-- A file of the grammar is read, whatever the length of its source. -/
theorem ofLexemes_of_isModule {ls : List Lexeme} {m : Module} (h : IsModule ls m) (stop : Nat) :
    Module.ofLexemes ls stop = .ok m := by
  obtain @⟨s, n, ls, items, start, number, semicolon, decoded, hmany⟩ := h
  have hitems := Parser.complete_many (p := Parser.fileItem?) (f := fun _ => True)
    (w := []) (e := stop) (b := ls.length + 3) hmany (fun _ _ => IsFileItem.ne_nil)
    (fun _ _ _ h _ hb => Parser.complete_fileItem? h hb) (fun _ _ _ _ => trivial) trivial
    (by simp [Parser.fileItem?]) (by omega)
  rw [List.append_nil] at hitems
  simp [Module.ofLexemes, Parser.file, Parser.fileId, Parser.run_natural number decoded, hitems]

/-- A text is read as a module exactly if it falls into lexemes that are one. -/
theorem parse_eq_ok_iff {source : String} {m : Module} :
    Module.parse source = .ok m ↔
      (Lexed.ofText source).error = none ∧ IsModule (Lexed.ofText source).lexemes m := by
  unfold Module.parse
  cases Lexed.ofText source with
  | mk ls error =>
    cases error with
    | some e => simp
    | none =>
      dsimp only
      constructor
      · intro h
        cases hfile : Module.ofLexemes ls source.utf8ByteSize with
        | error e =>
          rw [hfile] at h
          cases h
        | ok m' =>
          rw [hfile] at h
          obtain rfl := Except.ok.inj h
          exact ⟨rfl, isModule_of_ofLexemes hfile⟩
      · rintro ⟨-, h⟩
        rw [ofLexemes_of_isModule h]
        rfl

/-- The parser decides the grammar: a sequence of lexemes is read as a module exactly if all of it
derives that module, and no sequence derives two modules. -/
theorem ofLexemes_eq_ok_iff_isModule (ls : List Lexeme) (stop : Nat) :
    (∀ m, Module.ofLexemes ls stop = .ok m ↔ IsModule ls m) ∧
      ∀ m m', IsModule ls m → IsModule ls m' → m = m' := by
  refine ⟨fun m => ⟨isModule_of_ofLexemes, fun h => ofLexemes_of_isModule h stop⟩, ?_⟩
  intro m m' h h'
  exact Except.ok.inj ((ofLexemes_of_isModule h stop).symm.trans (ofLexemes_of_isModule h' stop))

/-- The least file, `@5;`. -/
theorem ofLexemes_fileId_only :
    IsModule [.mark .atSign ⟨0, 1⟩, .number "5" ⟨1, 2⟩, .mark .semicolon ⟨2, 3⟩]
        ⟨⟨⟨0, 3⟩, 5⟩, [], []⟩ ∧
      Module.ofLexemes [.mark .atSign ⟨0, 1⟩, .number "5" ⟨1, 2⟩, .mark .semicolon ⟨2, 3⟩] 3 =
        .ok ⟨⟨⟨0, 3⟩, 5⟩, [], []⟩ := by
  have h : IsModule [.mark .atSign ⟨0, 1⟩, .number "5" ⟨1, 2⟩, .mark .semicolon ⟨2, 3⟩]
      ⟨⟨⟨0, 3⟩, 5⟩, [], []⟩ := .mk (n := 5) ⟨0, 1⟩ ⟨1, 2⟩ ⟨2, 3⟩ rfl .nil
  exact ⟨h, ((ofLexemes_eq_ok_iff_isModule _ 3).1 _).2 h⟩

end SchemaLang
