import SchemaLang.Proofs.Varying.Parallel
import SchemaLang.Tree.Parser.Decl

/-!
# Productions that run in parallel

The grammar only copies spans and names, joins two spans by `Span.cover`, places errors at spans,
and looks at no name but for the words that it knows.  So on lexemes that differ by a variation each
production gives trees that differ by it, or errors for causes that do: `ofLexemes_varied`.
-/

namespace SchemaLang

namespace Parser

open Related

variable {V : Variation}

/-! ## Names and numbers -/

theorem parallel_moreSegments : Parallel V moreSegments moreSegments :=
  parallel_many (parallel_afterMark? _ (parallel_some parallel_ident) (parallel_pure .none))

theorem parallel_pathFrom {first first' : Ident} (h : first.Varied V first') :
    Parallel V (pathFrom first) (pathFrom first') := by
  refine parallel_bind parallel_moreSegments fun rest rest' hrest => parallel_pure ?_
  refine ⟨?_, .cons h hrest, by simp⟩
  exact List.rel_foldl (fun _ _ hspan _ _ hi => V.cover hspan hi.span) h.span hrest

theorem parallel_path : Parallel V path path :=
  parallel_bind parallel_ident fun _ _ h => parallel_pathFrom h

theorem parallel_importTarget : Parallel V importTarget importTarget := by
  refine parallel_bind (parallel_keyword _) fun start start' hstart => ?_
  refine parallel_bind parallel_text ?_
  rintro ⟨span, file⟩ ⟨span', file'⟩ ⟨hspan, rfl⟩
  refine parallel_bind parallel_moreSegments fun segments segments' hs => ?_
  exact parallel_pure ⟨hstart, ⟨hspan, rfl⟩, hs⟩

theorem parallel_ordinal : Parallel V ordinal ordinal := by
  refine parallel_bind (parallel_mark _) fun start start' hstart => ?_
  refine parallel_bind (parallel_natural _) ?_
  rintro ⟨span, value⟩ ⟨span', value'⟩ ⟨hspan, rfl⟩
  exact parallel_pure ⟨V.cover hstart hspan, rfl⟩

/-! ## Types -/

theorem applyParameters_of_ne {p : Path} (h : p.segments.map Ident.name ≠ ["List"]) (span : Span)
    (ts : List TypeRef) :
    applyParameters p span ts = fail span (.unexpectedTypeParameters p.text) := by
  unfold applyParameters
  split
  · next hnames => exact absurd hnames h
  · rfl

theorem parallel_applyParameters {p p' : Path} {span span' : Span} {ts ts' : List TypeRef}
    (hp : p.Varied V p') (h : V.span span span')
    (ht : List.Forall₂ (TypeRef.Varied V) ts ts') :
    Parallel V (applyParameters p span ts) (applyParameters p' span' ts') := by
  have hcause : (GrammarCause.unexpectedTypeParameters p.text).Varied V
      (.unexpectedTypeParameters p'.text) :=
    .unexpectedTypeParameters (by simpa using hp.nonempty) hp.names
  by_cases hlist : p.segments.map Ident.name = ["List"]
  · unfold applyParameters
    rw [hlist, (isList_iff hp.names).1 hlist]
    cases ht with
    | nil => exact parallel_fail h hcause
    | cons ht hts =>
      cases hts with
      | nil => exact parallel_pure (.list h ht)
      | cons => exact parallel_fail h hcause
  · rw [applyParameters_of_ne hlist, applyParameters_of_ne (mt (isList_iff hp.names).2 hlist)]
    exact parallel_fail h hcause

/-- The ends of imports: their last segments, or else the imported paths. -/
theorem rel_importStop {source source' : ImportPath} {segments segments' : List Ident}
    (hsource : source.Varied V source') (hs : List.Forall₂ (Ident.Varied V) segments segments') :
    V.span ((segments.getLast?.map Ident.span).getD source.span)
      ((segments'.getLast?.map Ident.span).getD source'.span) := by
  rw [List.getLast?_eq_head?_reverse, List.getLast?_eq_head?_reverse]
  have hreverse := List.rel_reverse hs
  revert hreverse
  generalize segments.reverse = l, segments'.reverse = l'
  rintro (_ | ⟨h, -⟩)
  · exact hsource.span
  · exact h.span

theorem parallel_typeWithin : ∀ bound, Parallel V (typeWithin bound) (typeWithin bound)
  | 0 => parallel_unexpected _
  | bound + 1 => by
    refine parallel_ifKeyword _ ?_ ?_
    · refine parallel_bind parallel_importTarget ?_
      rintro ⟨start, source, segments⟩ ⟨start', source', segments'⟩ ⟨hstart, hsource, hs⟩
      exact parallel_pure (.imported (V.cover hstart (rel_importStop hsource hs)) hsource hs)
    · refine parallel_bind parallel_path fun p p' hp => parallel_afterMark? _ ?_ ?_
      · refine parallel_bind (parallel_separated _ (parallel_typeWithin bound)) fun ts ts' ht => ?_
        refine parallel_bind (parallel_mark _) fun stop stop' hstop => ?_
        exact parallel_applyParameters hp (V.cover hp.span hstop) ht
      · exact parallel_pure (.named hp)

theorem parallel_type : Parallel V type type := by
  refine parallel_bind parallel_bound ?_
  rintro bound _ rfl
  exact parallel_typeWithin bound

/-! ## Literals -/

theorem parallel_numeral {span span' : Span} (h : V.span span span') (s : String) :
    Parallel V (numeral span s) (numeral span' s) := by
  unfold numeral
  cases Numeral.shape s.toList with
  | error e => exact parallel_fail h (.same trivial)
  | ok shape =>
    cases shape with
    | float =>
      cases (NumericType.float .float64).decodeDecimal s.toList with
      | error e => exact parallel_fail h (.same trivial)
      | ok x => exact parallel_pure (.float s h)
    | integer base =>
      cases (NumericType.int ⟨s.toList.head? = some '-', .w64⟩).decode s.toList with
      | error e => exact parallel_fail h (.same trivial)
      | ok n => exact parallel_pure (.int s h)

/-- The names of fields and their values, which are read in pairs. -/
theorem varied_struct {span span' : Span} {fs fs' : List (Ident × Literal)}
    (h : V.span span span')
    (hf : List.Forall₂ (fun f f' => f.1.Varied V f'.1 ∧ f.2.Varied V f'.2) fs fs') :
    (Literal.struct span fs).Varied V (.struct span' fs') :=
  .struct h (List.rel_map (fun _ _ hf => hf.1) hf) (List.rel_map (fun _ _ hf => hf.2) hf)

theorem parallel_structFields {value value' : Parser Literal} (h : Parallel V value value') :
    Parallel V (structFields value) (structFields value') := by
  refine parallel_listUntil _ (parallel_bind parallel_ident fun name name' hname => ?_)
  refine parallel_bind (parallel_mark _) fun _ _ _ => parallel_bind h fun l l' hl => ?_
  exact parallel_pure ⟨hname, hl⟩

theorem parallel_listLiteral {item item' : Parser Literal} {start start' : Span}
    (h : Parallel V item item') (hstart : V.span start start') :
    Parallel V (listLiteral item start) (listLiteral item' start') := by
  refine parallel_bind parallel_bump fun _ _ _ => ?_
  refine parallel_bind (parallel_listUntil _ h) fun items items' hitems => ?_
  refine parallel_bind (parallel_mark _) fun stop stop' hstop => ?_
  exact parallel_pure (Literal.Varied.list (V.cover hstart hstop) hitems)

theorem parallel_structLiteral {value value' : Parser Literal} {start start' : Span}
    (h : Parallel V value value') (hstart : V.span start start') :
    Parallel V (structLiteral value start) (structLiteral value' start') := by
  refine parallel_bind parallel_bump fun _ _ _ => ?_
  refine parallel_bind (parallel_structFields h) fun fields fields' hfields => ?_
  refine parallel_bind (parallel_mark _) fun stop stop' hstop => ?_
  exact parallel_pure (varied_struct (V.cover hstart hstop) hfields)

theorem parallel_literalWith {list list' struct struct' : Span → Parser Literal}
    (hl : ∀ {span span'}, V.span span span' → Parallel V (list span) (list' span'))
    (hs : ∀ {span span'}, V.span span span' → Parallel V (struct span) (struct' span')) :
    Parallel V (literalWith list struct) (literalWith list' struct') := by
  refine parallel_bind parallel_peekSpan fun start start' hstart => ?_
  refine parallel_peek (fun n n' _ => ?_) fun t ht => ?_
  · exact parallel_bind parallel_path fun _ _ h => parallel_pure (Literal.Varied.name h)
  split
  · refine parallel_bind parallel_bump fun _ _ _ => parallel_bind parallel_number ?_
    rintro ⟨span, s⟩ ⟨span', s'⟩ ⟨hspan, rfl⟩
    exact parallel_numeral (V.cover hstart hspan) _
  · exact parallel_bind parallel_bump fun _ _ _ => parallel_numeral hstart _
  · refine parallel_bind parallel_text ?_
    rintro ⟨span, s⟩ ⟨span', s'⟩ ⟨hspan, rfl⟩
    exact parallel_pure (.text s hspan)
  · exact parallel_bind parallel_bump fun _ _ h => parallel_pure (.bool true h)
  · exact parallel_bind parallel_bump fun _ _ h => parallel_pure (.bool false h)
  · exact parallel_bind parallel_bump fun _ _ h => parallel_pure (.void h)
  · exact absurd rfl (ht _)
  · exact hl hstart
  · exact hs hstart
  · exact parallel_unexpected _

theorem parallel_literalWithin : ∀ room, Parallel V (literalWithin room) (literalWithin room)
  | 0 => parallel_literalWith (parallel_fail · (.same trivial)) (parallel_fail · (.same trivial))
  | room + 1 => parallel_literalWith
    (parallel_listLiteral (parallel_literalWithin room))
    (parallel_structLiteral (parallel_literalWithin room))

theorem parallel_literal : Parallel V literal literal := parallel_literalWithin _

theorem parallel_default? : Parallel V default? default? :=
  parallel_afterMark? _ (parallel_some parallel_literal) (parallel_pure .none)

/-! ## Annotations -/

/-- Both runs find nothing, fields or a literal between the parentheses of an annotation. -/
theorem rel_argument {α : Type} {S : α → α → Prop} {t t' u u' : Option Token}
    {void void' fields fields' value value' : α} (hvoid : S void void')
    (hfields : S fields fields') (hvalue : S value value') :
    Option.Rel (Token.Varied V) t t' → Option.Rel (Token.Varied V) u u' →
    S (match t, u with
        | some (.mark .closeParen), _ => void
        | some (.name _), some (.mark .equals) => fields
        | _, _ => value)
      (match t', u' with
        | some (.mark .closeParen), _ => void'
        | some (.name _), some (.mark .equals) => fields'
        | _, _ => value') := by
  intro ht hu
  rcases nextToken_cases ht with ⟨n, n', -, rfl, rfl⟩ | ⟨rfl, hother⟩
  · rcases nextToken_cases hu with ⟨m, m', -, rfl, rfl⟩ | ⟨rfl, -⟩
    · exact hvalue
    · cases u with
      | none => exact hvalue
      | some u =>
        cases u with
        | mark m => cases m <;> first | exact hfields | exact hvalue
        | _ => exact hvalue
  · cases t with
    | none => exact hvalue
    | some t =>
      cases t with
      | name n => exact absurd rfl (hother n)
      | mark m => cases m <;> first | exact hvoid | exact hvalue
      | _ => exact hvalue

theorem parallel_application : Parallel V application application := by
  refine parallel_bind (parallel_mark _) fun start start' hstart => ?_
  refine parallel_bind parallel_path fun name name' hname => ?_
  refine parallel_bind (parallel_accept? (by simp)) fun o o' ho => ?_
  cases ho with
  | none => exact parallel_pure ⟨V.cover hstart hname.span, hname, .none⟩
  | some hopen =>
    refine parallel_next fun t t' ht => parallel_second fun u u' hu => ?_
    refine rel_argument ?_ ?_ ?_ ht hu
    · refine parallel_bind parallel_bump fun stop stop' hstop => parallel_pure ?_
      exact ⟨V.cover hstart hstop, hname, .some (.void (V.cover hopen hstop))⟩
    · refine parallel_bind (parallel_structFields parallel_literal) fun fs fs' hfs => ?_
      refine parallel_bind (parallel_mark _) fun stop stop' hstop => parallel_pure ?_
      exact ⟨V.cover hstart hstop, hname, .some (varied_struct (V.cover hopen hstop) hfs)⟩
    · refine parallel_bind parallel_literal fun value value' hvalue => ?_
      refine parallel_bind (parallel_mark _) fun stop stop' hstop => parallel_pure ?_
      exact ⟨V.cover hstart hstop, hname, .some hvalue⟩

theorem parallel_applications : Parallel V applications applications :=
  parallel_many (parallel_ifMark _ (parallel_some parallel_application) (parallel_pure .none))

/-! ## Declarations without a body -/

theorem parallel_aliased {start start' : Span} {name name' : Option Ident} {p p' : Path}
    (hstart : V.span start start') (hname : Option.Rel (Ident.Varied V) name name')
    (hp : p.Varied V p') :
    Parallel V (usingDecl.aliased start name p) (usingDecl.aliased start' name' p') :=
  parallel_bind (parallel_mark _) fun _ _ hstop =>
    parallel_pure (.pathAlias ⟨V.cover hstart hstop, hname, hp⟩)

theorem parallel_importedAlias {start start' : Span} {name name' : Option Ident}
    (hstart : V.span start start') (hname : Option.Rel (Ident.Varied V) name name') :
    Parallel V (usingDecl.imported start name) (usingDecl.imported start' name') := by
  refine parallel_bind parallel_importTarget ?_
  rintro ⟨_, source, segments⟩ ⟨_, source', segments'⟩ ⟨-, hsource, hs⟩
  refine parallel_bind (parallel_mark _) fun stop stop' hstop => parallel_pure ?_
  exact .importAlias ⟨V.cover hstart hstop, hname, hsource, hs⟩

theorem parallel_usingDecl : Parallel V usingDecl usingDecl := by
  refine parallel_bind (parallel_keyword _) fun start start' hstart => ?_
  refine parallel_ifKeyword _ (parallel_importedAlias hstart .none) ?_
  refine parallel_bind parallel_ident fun first first' hfirst => parallel_afterMark? _ ?_ ?_
  · refine parallel_ifKeyword _ (parallel_importedAlias hstart (.some hfirst)) ?_
    exact parallel_bind parallel_path fun p p' hp => parallel_aliased hstart (.some hfirst) hp
  · exact parallel_bind (parallel_pathFrom hfirst) fun p p' hp => parallel_aliased hstart .none hp

theorem parallel_constDecl : Parallel V constDecl constDecl := by
  refine parallel_bind (parallel_keyword _) fun start start' hstart => ?_
  refine parallel_bind parallel_ident fun name name' hname => ?_
  refine parallel_bind (parallel_mark _) fun _ _ _ => ?_
  refine parallel_bind parallel_type fun type type' htype => ?_
  refine parallel_bind (parallel_mark _) fun _ _ _ => ?_
  refine parallel_bind parallel_literal fun value value' hvalue => ?_
  refine parallel_bind parallel_applications fun as as' has => ?_
  refine parallel_bind (parallel_mark _) fun stop stop' hstop => parallel_pure ?_
  exact .const ⟨V.cover hstart hstop, hname, htype, hvalue, has⟩

theorem parallel_enumerant? : Parallel V enumerant? enumerant? := by
  refine parallel_ifMark _ (parallel_pure .none) ?_
  refine parallel_bind parallel_ident fun name name' hname => ?_
  refine parallel_bind parallel_ordinal fun ordinal ordinal' hordinal => ?_
  refine parallel_bind parallel_applications fun as as' has => ?_
  refine parallel_bind (parallel_mark _) fun stop stop' hstop => parallel_pure (.some ?_)
  exact ⟨V.cover hname.span hstop, hname, hordinal, has⟩

theorem parallel_enumDecl : Parallel V enumDecl enumDecl := by
  refine parallel_bind (parallel_keyword _) fun start start' hstart => ?_
  refine parallel_bind parallel_ident fun name name' hname => ?_
  refine parallel_bind parallel_applications fun as as' has => ?_
  refine parallel_bind (parallel_mark _) fun _ _ _ => ?_
  refine parallel_bind (parallel_many parallel_enumerant?) fun es es' hes => ?_
  refine parallel_bind (parallel_mark _) fun stop stop' hstop => parallel_pure ?_
  exact .enum ⟨V.cover hstart hstop, hname, has, hes⟩

theorem parallel_target : Parallel V target target := by
  refine parallel_peek (fun n n' hn => ?_) fun t ht => ?_
  · have htarget : targetOf? (.name n) = targetOf? (.name n') := V.target_eq hn
    dsimp only
    rw [htarget]
    cases targetOf? (.name n') with
    | some t =>
      have hread : Parallel V (do return (← bump, t)) (do return (← bump, t)) :=
        parallel_bind parallel_bump fun _ _ h => parallel_pure ⟨h, rfl⟩
      exact hread
    | none => exact parallel_bind parallel_peekSpan fun _ _ h => parallel_fail h (.unknownTarget hn)
  · split
    · split
      · exact parallel_bind parallel_bump fun _ _ h => parallel_pure ⟨h, rfl⟩
      · exact absurd rfl (ht _)
      · exact parallel_unexpected _
    · exact parallel_unexpected _

theorem parallel_annotationDecl : Parallel V annotationDecl annotationDecl := by
  refine parallel_bind (parallel_keyword _) fun start start' hstart => ?_
  refine parallel_bind parallel_ident fun name name' hname => ?_
  refine parallel_bind (parallel_mark _) fun _ _ _ => ?_
  refine parallel_bind (parallel_separated _ parallel_target) fun targets targets' htargets => ?_
  refine parallel_bind (parallel_mark _) fun _ _ _ => ?_
  refine parallel_bind (parallel_mark _) fun _ _ _ => ?_
  refine parallel_bind parallel_type fun type type' htype => ?_
  refine parallel_bind parallel_applications fun as as' has => ?_
  refine parallel_bind (parallel_mark _) fun stop stop' hstop => parallel_pure ?_
  exact .annotationDecl ⟨V.cover hstart hstop, hname, htargets, htype, has⟩

/-! ## Methods and fields -/

theorem parallel_param : Parallel V param param := by
  refine parallel_bind parallel_ident fun name name' hname => ?_
  refine parallel_bind (parallel_mark _) fun _ _ _ => ?_
  refine parallel_bind parallel_type fun type type' htype => ?_
  refine parallel_bind parallel_default? fun default default' hdefault => ?_
  refine parallel_bind parallel_applications fun as as' has => parallel_pure ?_
  exact ⟨V.cover hname.span htype.span, hname, htype, hdefault, has⟩

theorem parallel_params : Parallel V params params := by
  refine parallel_bind (parallel_mark _) fun _ _ _ => ?_
  refine parallel_afterMark? _ (parallel_pure .nil) ?_
  refine parallel_bind (parallel_separated _ parallel_param) fun ps ps' hps => ?_
  exact parallel_bind (parallel_mark _) fun _ _ _ => parallel_pure hps

theorem parallel_results? : Parallel V results? results? :=
  parallel_afterMark? _ (parallel_some parallel_params) (parallel_pure .none)

theorem parallel_method : Parallel V method method := by
  refine parallel_bind parallel_ident fun name name' hname => ?_
  refine parallel_bind parallel_ordinal fun ordinal ordinal' hordinal => ?_
  refine parallel_bind parallel_params fun ps ps' hps => ?_
  refine parallel_bind parallel_results? fun rs rs' hrs => ?_
  refine parallel_bind parallel_applications fun as as' has => ?_
  refine parallel_bind (parallel_mark _) fun stop stop' hstop => parallel_pure ?_
  exact ⟨V.cover hname.span hstop, hname, hordinal, hps, hrs, has⟩

theorem parallel_field {name name' : Ident} {ordinal ordinal' : Ordinal}
    (hname : name.Varied V name') (hordinal : ordinal.Varied V ordinal') :
    Parallel V (field name ordinal) (field name' ordinal') := by
  refine parallel_bind parallel_type fun type type' htype => ?_
  refine parallel_bind parallel_default? fun default default' hdefault => ?_
  refine parallel_bind parallel_applications fun as as' has => ?_
  refine parallel_bind (parallel_mark _) fun stop stop' hstop => parallel_pure ?_
  exact .field ⟨V.cover hname.span hstop, hname, hordinal, htype, hdefault, has⟩

/-! ## Bodies -/

section Bodies

variable {body body' : Parser (List Member × Span)} {decl decl' : Parser (Option Decl)}

theorem parallel_namedUnion {name name' : Ident} {o o' : Option Ordinal}
    (hbody : Parallel V body body') (hname : name.Varied V name')
    (ho : Option.Rel (Ordinal.Varied V) o o') :
    Parallel V (namedUnion body name o) (namedUnion body' name' o') := by
  refine parallel_bind (parallel_keyword _) fun _ _ _ => ?_
  refine parallel_bind parallel_applications fun as as' has => ?_
  refine parallel_bind hbody ?_
  rintro ⟨ms, stop⟩ ⟨ms', stop'⟩ ⟨hms, hstop⟩
  exact parallel_pure (.union ⟨V.cover hname.span hstop, hname, has⟩ ho hms)

theorem parallel_anonymousUnion {earlier earlier' : List Member}
    (hbody : Parallel V body body') (he : List.Forall₂ (Member.Varied V) earlier earlier') :
    Parallel V (anonymousUnion body earlier) (anonymousUnion body' earlier') := by
  refine parallel_bind (parallel_keyword _) fun start start' hstart => ?_
  refine parallel_bind parallel_applications fun as as' has => ?_
  refine parallel_bind hbody ?_
  rintro ⟨ms, stop⟩ ⟨ms', stop'⟩ ⟨hms, hstop⟩
  dsimp only
  rw [any_isAnonymousUnion_eq he]
  split
  · exact fun _ _ _ => .error (V.cover hstart hstop) (.same trivial)
  · exact parallel_pure (.anonymousUnion (V.cover hstart hstop) has hms)

theorem parallel_group {name name' : Ident} (hbody : Parallel V body body')
    (hname : name.Varied V name') : Parallel V (group body name) (group body' name') := by
  refine parallel_bind (parallel_keyword _) fun _ _ _ => ?_
  refine parallel_bind parallel_applications fun as as' has => ?_
  refine parallel_bind hbody ?_
  rintro ⟨ms, stop⟩ ⟨ms', stop'⟩ ⟨hms, hstop⟩
  exact parallel_pure (.group ⟨V.cover hname.span hstop, hname, has⟩ hms)

theorem parallel_namedMember (hbody : Parallel V body body') :
    Parallel V (namedMember body) (namedMember body') := by
  refine parallel_bind parallel_ident fun name name' hname => ?_
  refine parallel_peek (fun _ _ _ => parallel_unexpected _) fun t _ => ?_
  split
  · refine parallel_bind parallel_ordinal fun ordinal ordinal' hordinal => ?_
    refine parallel_bind (parallel_mark _) fun _ _ _ => ?_
    exact parallel_ifKeyword _ (parallel_namedUnion hbody hname (.some hordinal))
      (parallel_field hname hordinal)
  · refine parallel_bind parallel_bump fun _ _ _ => ?_
    refine parallel_peek (fun _ _ _ => parallel_unexpected _) fun t' _ => ?_
    split
    · exact parallel_namedUnion hbody hname .none
    · exact parallel_group hbody hname
    · exact parallel_unexpected _
  · exact parallel_unexpected _

theorem parallel_member? {earlier earlier' : List Member} (hbody : Parallel V body body')
    (hdecl : Parallel V decl decl') (he : List.Forall₂ (Member.Varied V) earlier earlier') :
    Parallel V (member? body decl earlier) (member? body' decl' earlier') := by
  refine parallel_peek (fun _ _ _ => parallel_some (parallel_namedMember hbody)) fun t ht => ?_
  split
  · exact parallel_pure .none
  · exact parallel_some (parallel_anonymousUnion hbody he)
  · exact absurd rfl (ht _)
  · refine parallel_bind hdecl fun o o' ho => ?_
    cases ho with
    | some hd => exact parallel_pure (.some (.decl hd))
    | none => exact parallel_unexpected _
  · exact parallel_unexpected _

theorem parallel_members (hbody : Parallel V body body') (hdecl : Parallel V decl decl') :
    Parallel V (members body decl) (members body' decl') := by
  refine parallel_bind (parallel_mark _) fun _ _ _ => ?_
  refine parallel_bind (parallel_manyGiven fun _ _ => parallel_member? hbody hdecl)
    fun ms ms' hms => ?_
  exact parallel_bind (parallel_mark _) fun stop stop' hstop => parallel_pure ⟨hms, hstop⟩

theorem parallel_interfaceMember? (hdecl : Parallel V decl decl') :
    Parallel V (interfaceMember? decl) (interfaceMember? decl') := by
  have hmethod : Parallel V (some <$> InterfaceMember.method <$> method)
      (some <$> InterfaceMember.method <$> method) :=
    parallel_some (parallel_map parallel_method fun _ _ => .method)
  refine parallel_peek (fun _ _ _ => hmethod) fun t ht => ?_
  split
  · exact parallel_pure .none
  · exact absurd rfl (ht _)
  · refine parallel_bind hdecl fun o o' ho => ?_
    cases ho with
    | some hd => exact parallel_pure (.some (.decl hd))
    | none => exact parallel_unexpected _
  · exact parallel_unexpected _

theorem parallel_bases : Parallel V bases bases := by
  refine parallel_bind (parallel_accept? (by simp)) fun o o' ho => ?_
  cases ho with
  | some _ =>
    refine parallel_bind (parallel_mark _) fun _ _ _ => ?_
    refine parallel_bind (parallel_separated _ parallel_type) fun ts ts' hts => ?_
    exact parallel_bind (parallel_mark _) fun _ _ _ => parallel_pure hts
  | none => exact parallel_pure .nil

theorem parallel_interfaceDecl (hdecl : Parallel V decl decl') :
    Parallel V (interfaceDecl decl) (interfaceDecl decl') := by
  refine parallel_bind (parallel_keyword _) fun start start' hstart => ?_
  refine parallel_bind parallel_ident fun name name' hname => ?_
  refine parallel_bind parallel_bases fun ts ts' hts => ?_
  refine parallel_bind parallel_applications fun as as' has => ?_
  refine parallel_bind (parallel_mark _) fun _ _ _ => ?_
  refine parallel_bind (parallel_many (parallel_interfaceMember? hdecl)) fun is is' his => ?_
  refine parallel_bind (parallel_mark _) fun stop stop' hstop => parallel_pure ?_
  exact .interface ⟨V.cover hstart hstop, hname, has⟩ hts his

theorem parallel_structDecl (hbody : Parallel V body body') :
    Parallel V (structDecl body) (structDecl body') := by
  refine parallel_bind (parallel_keyword _) fun start start' hstart => ?_
  refine parallel_bind parallel_ident fun name name' hname => ?_
  refine parallel_bind parallel_applications fun as as' has => ?_
  refine parallel_bind hbody ?_
  rintro ⟨ms, stop⟩ ⟨ms', stop'⟩ ⟨hms, hstop⟩
  exact parallel_pure (.struct ⟨V.cover hstart hstop, hname, has⟩ hms)

theorem parallel_declWith (hbody : Parallel V body body') (hdecl : Parallel V decl decl') :
    Parallel V (declWith body decl) (declWith body' decl') := by
  refine parallel_peek (fun _ _ _ => parallel_pure .none) fun t _ => ?_
  split
  · exact parallel_some parallel_usingDecl
  · exact parallel_some parallel_constDecl
  · exact parallel_some (parallel_structDecl hbody)
  · exact parallel_some parallel_enumDecl
  · exact parallel_some (parallel_interfaceDecl hdecl)
  · exact parallel_some parallel_annotationDecl
  · exact parallel_pure .none

end Bodies

mutual

theorem parallel_declWithin : ∀ bound, Parallel V (declWithin bound) (declWithin bound)
  | 0 => parallel_pure .none
  | bound + 1 => parallel_declWith (parallel_membersWithin bound) (parallel_declWithin bound)

theorem parallel_membersWithin : ∀ bound, Parallel V (membersWithin bound) (membersWithin bound)
  | 0 => parallel_unexpected _
  | bound + 1 => parallel_members (parallel_membersWithin bound) (parallel_declWithin bound)

end

theorem parallel_decl : Parallel V decl decl := by
  refine parallel_bind parallel_bound ?_
  rintro bound _ rfl
  exact parallel_declWithin bound

/-! ## Files -/

theorem parallel_fileId : Parallel V fileId fileId := by
  refine parallel_bind (parallel_accept? (by simp)) fun o o' ho => ?_
  cases ho with
  | none => exact parallel_bind parallel_peekSpan fun _ _ h => parallel_fail h (.same trivial)
  | some hstart =>
    refine parallel_bind (parallel_natural _) ?_
    rintro ⟨span, value⟩ ⟨span', value'⟩ ⟨-, rfl⟩
    refine parallel_bind (parallel_mark _) fun stop stop' hstop => parallel_pure ?_
    exact ⟨V.cover hstart hstop, rfl⟩

theorem parallel_fileItem? : Parallel V fileItem? fileItem? := by
  refine parallel_peek (fun n n' hn => ?_) fun t ht => ?_
  · exact parallel_bind parallel_peekSpan fun _ _ h => parallel_fail h (.expectedKeyword hn)
  split
  · exact parallel_pure .none
  · refine parallel_bind parallel_application fun a a' ha => ?_
    exact parallel_bind (parallel_mark _) fun _ _ _ => parallel_pure (.some (.inl ha))
  · exact absurd rfl (ht _)
  · refine parallel_bind parallel_decl fun o o' ho => ?_
    cases ho with
    | some hd => exact parallel_pure (.some (.inr hd))
    | none => exact parallel_unexpected _

theorem parallel_file : Parallel V file file := by
  refine parallel_bind parallel_fileId fun id id' hid => ?_
  refine parallel_bind (parallel_many parallel_fileItem?) fun items items' hitems => ?_
  refine parallel_pure ⟨hid, ?_, ?_⟩
  · refine List.rel_filterMap ?_ hitems
    rintro _ _ (h | h)
    · exact .some h
    · exact .none
  · refine List.rel_filterMap ?_ hitems
    rintro _ _ (h | h)
    · exact .none
    · exact .some h

end Parser

/-- Lexemes that differ by a variation are read as modules that differ by it, or rejected for causes
that do, at related spans. -/
theorem ofLexemes_varied {V : Variation} {lexemes lexemes' : List Lexeme} {stop stop' : Nat}
    (hlexemes : List.Forall₂ (Lexeme.Varied V) lexemes lexemes')
    (hstop : V.span (.point stop) (.point stop')) :
    SameOutcome V (Module.Varied V) (Module.ofLexemes lexemes stop)
      (Module.ofLexemes lexemes' stop') := by
  have hfile := Parser.parallel_file (V := V) ⟨lexemes, stop, lexemes.length⟩
    ⟨lexemes', stop', lexemes'.length⟩ ⟨hlexemes, hstop, hlexemes.length_eq⟩
  exact hfile.map fun _ _ hm => hm.1

end SchemaLang
