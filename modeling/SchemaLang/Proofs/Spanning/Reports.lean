import SchemaLang.Proofs.Grammar.Reading
import SchemaLang.Tree.Parser.Decl

/-!
# What the parser reports

`Reports all stop p P` says of a step that reads from the lexemes `all` of a source of `stop` bytes
that it gives results that `P` holds of, and that its errors stand either at lexemes, from the
start of one to the end of one, or at the end of the source.  The rules here cover the primitive
steps, the loops, and the grammar of names, types, literals and annotations.

A step may look at the end of the source, but no span that it joins with another comes from there:
`P` keeps track of the spans that are known to be those of lexemes.
-/

namespace SchemaLang

/-- The span runs from the start of a lexeme to the end of the same one or a later one. -/
def Span.OfLexemes (all : List Lexeme) (span : Span) : Prop :=
  ∃ first ∈ all, ∃ last ∈ all, first.span.start ≤ last.span.start ∧
    span = ⟨first.span.start, last.span.stop⟩

/-- The span runs from the start of a lexeme to the end of one, or is empty at the end of the
source. -/
def Span.Reported (all : List Lexeme) (stop : Nat) (span : Span) : Prop :=
  span.OfLexemes all ∨ span = .point stop

theorem Span.OfLexemes.of_mem {all : List Lexeme} {x : Lexeme} (h : x ∈ all) :
    x.span.OfLexemes all := ⟨x, h, x, h, Nat.le_refl _, rfl⟩

/-- Spans that run from lexeme to lexeme do so after they are joined. -/
theorem Span.OfLexemes.cover {all : List Lexeme} {a b : Span} (ha : a.OfLexemes all)
    (hb : b.OfLexemes all) : (a.cover b).OfLexemes all := by
  obtain ⟨x, hx, x', hx', hle, rfl⟩ := ha
  obtain ⟨y, hy, y', hy', hle', rfl⟩ := hb
  obtain ⟨first, hfirst, hstart, hstarts⟩ : ∃ first ∈ all,
      first.span.start = min x.span.start y.span.start ∧
      first.span.start ≤ x'.span.start ∧ first.span.start ≤ y'.span.start := by
    rcases Nat.le_total x.span.start y.span.start with h | h
    · exact ⟨x, hx, by omega, hle, by omega⟩
    · exact ⟨y, hy, by omega, by omega, hle'⟩
  rcases Nat.le_total x'.span.stop y'.span.stop with h | h
  · exact ⟨first, hfirst, y', hy', hstarts.2, by
      rw [Span.cover, hstart, Nat.max_eq_right h]⟩
  · exact ⟨first, hfirst, x', hx', hstarts.1, by
      rw [Span.cover, hstart, Nat.max_eq_left h]⟩

namespace Parser

variable {α β : Type} {all : List Lexeme} {stop : Nat} {P : α → Prop} {Q : β → Prop}

/-- The stream has lexemes of `all` left and ends at `stop`. -/
structure ReadsFrom (all : List Lexeme) (stop : Nat) (s : Stream) : Prop where
  lexemes : s.lexemes ⊆ all
  stop : s.stop = stop

/-- The step gives a result that `P` holds of, and leaves lexemes of `all`, or stops at a span of
lexemes or at the end of the source. -/
def Reports (all : List Lexeme) (stop : Nat) (p : Parser α) (P : α → Prop) : Prop :=
  ∀ s, ReadsFrom all stop s →
    (∀ a s', p.run s = .ok (a, s') → P a ∧ ReadsFrom all stop s') ∧
      ∀ e, p.run s = .error e → e.span.Reported all stop

/-! ## Sequences -/

theorem Reports.mono {P' : α → Prop} {p : Parser α} (h : Reports all stop p P)
    (hP : ∀ a, P a → P' a) : Reports all stop p P' := fun s hs =>
  ⟨fun a s' hrun => ⟨hP a ((h s hs).1 a s' hrun).1, ((h s hs).1 a s' hrun).2⟩, (h s hs).2⟩

theorem Reports.trivial {p : Parser α} (h : Reports all stop p P) :
    Reports all stop p fun _ => True := h.mono fun _ _ => True.intro

theorem reports_pure {a : α} (h : P a) : Reports all stop (pure a) P := by
  refine fun s hs => ⟨fun a' s' hrun => ?_, fun e hrun => by cases hrun⟩
  obtain ⟨rfl, rfl⟩ : a = a' ∧ s = s' := by simpa using hrun
  exact ⟨h, hs⟩

theorem reports_none :
    Reports all stop (pure none : Parser (Option α)) fun o => ∀ a ∈ o, P a :=
  reports_pure fun a h => absurd h (Option.not_mem_none a)

theorem reports_bind {p : Parser α} {f : α → Parser β} (hp : Reports all stop p P)
    (hf : ∀ a, P a → Reports all stop (f a) Q) : Reports all stop (p >>= f) Q := by
  intro s hs
  rw [StateT.run_bind]
  constructor
  · intro b s'' hrun
    obtain ⟨⟨a, s'⟩, hfirst, hrest⟩ := bind_eq_ok.1 hrun
    obtain ⟨ha, hs'⟩ := (hp s hs).1 a s' hfirst
    exact (hf a ha s' hs').1 b s'' hrest
  · intro e hrun
    rcases bind_eq_error.1 hrun with hfirst | ⟨⟨a, s'⟩, hfirst, hrest⟩
    · exact (hp s hs).2 e hfirst
    · obtain ⟨ha, hs'⟩ := (hp s hs).1 a s' hfirst
      exact (hf a ha s' hs').2 e hrest

theorem reports_map {p : Parser α} {f : α → β} (hp : Reports all stop p P)
    (hf : ∀ a, P a → Q (f a)) : Reports all stop (f <$> p) Q := by
  rw [map_eq_pure_bind]
  exact reports_bind hp fun a ha => reports_pure (hf a ha)

theorem reports_some {p : Parser α} (hp : Reports all stop p P) :
    Reports all stop (some <$> p) fun o => ∀ a ∈ o, P a :=
  reports_map hp fun _ ha _ hmem => Option.some.inj hmem ▸ ha

theorem reports_ite {c : Prop} [Decidable c] {p q : Parser α} (hp : Reports all stop p P)
    (hq : Reports all stop q P) : Reports all stop (if c then p else q) P := by
  split
  · exact hp
  · exact hq

/-! ## Primitive steps -/

theorem reports_fail {span : Span} {cause : GrammarCause} (h : span.Reported all stop) :
    Reports all stop (fail span cause : Parser α) P := by
  refine fun s _ => ⟨nofun, fun e hrun => ?_⟩
  obtain rfl := Except.error.inj hrun
  exact h

theorem reports_peek {f : Option Token → Parser β} (h : ∀ t, Reports all stop (f t) Q) :
    Reports all stop (peek >>= f) Q := fun s hs => h (nextToken s.lexemes) s hs

theorem reports_peekSecond {f : Option Token → Parser β} (h : ∀ t, Reports all stop (f t) Q) :
    Reports all stop (peekSecond >>= f) Q := fun s hs => h (nextToken s.lexemes.tail) s hs

/-- The span of the next token is that of a lexeme if there is a next token. -/
theorem reports_next {f : Span → Option Token → Parser β}
    (hsome : ∀ span t, span.OfLexemes all → Reports all stop (f span (some t)) Q)
    (hnone : Reports all stop (f (.point stop) none) Q) :
    Reports all stop (do let span ← peekSpan; let t ← peek; f span t) Q := by
  rintro ⟨_ | ⟨x, l⟩, stop, bound⟩ ⟨hlexemes, rfl⟩
  · exact hnone _ ⟨hlexemes, rfl⟩
  · exact hsome x.span x.token (.of_mem (hlexemes List.mem_cons_self)) _ ⟨hlexemes, rfl⟩

theorem reports_peekSpan : Reports all stop peekSpan (Span.Reported all stop) := by
  rintro ⟨_ | ⟨x, l⟩, stop, bound⟩ ⟨hlexemes, rfl⟩
  · exact reports_pure (.inr rfl) _ ⟨hlexemes, rfl⟩
  · exact reports_pure (.inl (.of_mem (hlexemes List.mem_cons_self))) _ ⟨hlexemes, rfl⟩

theorem reports_bump : Reports all stop bump (Span.Reported all stop) := by
  refine reports_bind reports_peekSpan fun span hspan s hs => ?_
  refine ⟨fun a s' hrun => ?_, fun e hrun => by cases hrun⟩
  obtain ⟨rfl, rfl⟩ : span = a ∧ _ = s' := by simpa using hrun
  exact ⟨hspan, List.Subset.trans (List.tail_sublist _).subset hs.lexemes, hs.stop⟩

theorem reports_bound : Reports all stop Parser.bound fun _ => True := by
  refine fun s hs => ⟨fun a s' hrun => ?_, fun e hrun => by cases hrun⟩
  obtain ⟨rfl, rfl⟩ : s.bound = a ∧ s = s' := by simpa [Parser.bound] using hrun
  exact ⟨True.intro, hs⟩

theorem reports_unexpected (expected : String) :
    Reports all stop (unexpected expected : Parser α) P := by
  refine reports_bind reports_peekSpan fun span hspan => reports_peek fun t => ?_
  split <;> exact reports_fail hspan

/-! ## Single tokens -/

/-- What is known of a result otherwise. -/
theorem Reports.of_ok {p : Parser α} (h : Reports all stop p fun _ => True)
    (hok : ∀ l bound a s', l ⊆ all → p.run ⟨l, stop, bound⟩ = .ok (a, s') → P a) :
    Reports all stop p P := by
  rintro ⟨l, _, bound⟩ ⟨hlexemes, rfl⟩
  have hrun := h _ ⟨hlexemes, rfl⟩
  exact ⟨fun a s' hp => ⟨hok l bound a s' hlexemes hp, (hrun.1 a s' hp).2⟩, hrun.2⟩

theorem reports_accept? (t : Token) :
    Reports all stop (accept? t) fun o => ∀ span ∈ o, span.OfLexemes all := by
  refine Reports.of_ok (reports_peek fun _ => reports_ite (reports_some reports_bump).trivial
    (reports_pure True.intro)) fun l bound o s' hl hrun span ho => ?_
  rcases accept?_ok hrun with ⟨span', rest, rfl, rfl, -⟩ | ⟨rfl, -⟩
  · obtain rfl := Option.some.inj ho
    exact .of_mem (hl List.mem_cons_self)
  · cases ho

theorem reports_expect (t : Token) :
    Reports all stop (expect t) fun span => span.OfLexemes all := by
  refine reports_bind (reports_accept? t) fun o ho => ?_
  cases o with
  | some span => exact reports_pure (ho span rfl)
  | none => exact reports_unexpected _

theorem reports_mark (m : Mark) : Reports all stop (mark m) fun span => span.OfLexemes all :=
  reports_expect _

theorem reports_keyword (k : Keyword) :
    Reports all stop (keyword k) fun span => span.OfLexemes all := reports_expect _

theorem reports_mark? (m : Mark) : Reports all stop (mark? m) fun _ => True :=
  reports_bind (reports_accept? _) fun _ _ => reports_pure True.intro

/-- What is read after a mark, if it is there, and else. -/
theorem reports_afterMark? (m : Mark) {p q : Parser α} (hp : Reports all stop p P)
    (hq : Reports all stop q P) : Reports all stop (do if ← mark? m then p else q) P :=
  reports_bind (reports_mark? m) fun _ _ => reports_ite hp hq

theorem reports_ident : Reports all stop ident fun i => i.span.OfLexemes all := by
  refine Reports.of_ok (reports_peek fun t => ?_) fun l bound i s' hl hrun => ?_
  · split
    · exact reports_bind reports_bump fun _ _ => reports_pure True.intro
    · exact reports_unexpected _
  · obtain ⟨rest, rfl, -⟩ := ident_ok hrun
    exact .of_mem (hl List.mem_cons_self)

theorem reports_number : Reports all stop number fun r => r.1.OfLexemes all := by
  refine Reports.of_ok (reports_peek fun t => ?_) fun l bound r s' hl hrun => ?_
  · split
    · exact reports_bind reports_bump fun _ _ => reports_pure True.intro
    · exact reports_unexpected _
  · obtain ⟨rest, rfl, -⟩ := number_ok hrun
    exact .of_mem (hl List.mem_cons_self)

theorem reports_text : Reports all stop text fun _ => True := by
  refine reports_peek fun t => ?_
  split
  · refine reports_bind reports_bump fun span hspan => ?_
    split
    · exact reports_pure True.intro
    · exact reports_fail hspan
  · exact reports_unexpected _

theorem reports_natural (type : IntType) : Reports all stop (natural type) fun _ => True := by
  refine reports_bind reports_number fun r hr => ?_
  dsimp only
  split
  · exact reports_pure True.intro
  · exact reports_fail (.inl hr)
  · exact reports_fail (.inl hr)

/-! ## Loops -/

theorem reports_manyFrom {item : List α → Parser (Option α)}
    (h : ∀ earlier, Reports all stop (item earlier) fun o => ∀ a ∈ o, P a) :
    ∀ bound earlier, (∀ a ∈ earlier, P a) →
      Reports all stop (manyFrom item bound earlier) fun as => ∀ a ∈ as, P a := by
  intro bound
  induction bound with
  | zero => exact fun earlier he => reports_pure fun a ha => he a (List.mem_reverse.1 ha)
  | succ bound ih =>
    intro earlier he
    refine reports_bind (h earlier) fun o ho => ?_
    cases o with
    | some a => exact ih _ (List.forall_mem_cons.2 ⟨ho a rfl, he⟩)
    | none => exact reports_pure fun a ha => he a (List.mem_reverse.1 ha)

theorem reports_manyGiven {item : List α → Parser (Option α)}
    (h : ∀ earlier, Reports all stop (item earlier) fun o => ∀ a ∈ o, P a) :
    Reports all stop (manyGiven item) fun as => ∀ a ∈ as, P a :=
  reports_bind reports_bound fun _ _ => reports_manyFrom h _ _ nofun

theorem reports_many {item : Parser (Option α)}
    (h : Reports all stop item fun o => ∀ a ∈ o, P a) :
    Reports all stop (many item) fun as => ∀ a ∈ as, P a := reports_manyGiven fun _ => h

theorem reports_separated (separator : Mark) {item : Parser α}
    (h : Reports all stop item fun _ => True) :
    Reports all stop (separated separator item) fun _ => True := by
  refine reports_bind h fun first _ => ?_
  have hrest : Reports all stop (do if ← mark? separator then some <$> item else return none)
      fun o => ∀ a ∈ o, True := reports_afterMark? _ (reports_some h) reports_none
  exact reports_bind (reports_many hrest) fun _ _ => reports_pure True.intro

theorem reports_listUntil (close : Mark) {item : Parser α}
    (h : Reports all stop item fun _ => True) :
    Reports all stop (listUntil close item) fun _ => True := by
  refine reports_bind reports_bound fun bound _ => ?_
  induction bound + 1 with
  | zero => exact reports_pure True.intro
  | succ bound ih =>
    refine reports_peek fun _ => reports_ite (reports_pure True.intro) ?_
    refine reports_bind h fun first _ => reports_afterMark? _ ?_ (reports_pure True.intro)
    exact reports_bind ih fun _ _ => reports_pure True.intro

/-! ## Names, types and literals -/

theorem reports_moreSegments :
    Reports all stop moreSegments fun is => ∀ i ∈ is, i.span.OfLexemes all :=
  reports_many (reports_afterMark? _ (reports_some reports_ident) reports_none)

theorem ofLexemes_foldl {is : List Ident} (h : ∀ i ∈ is, i.span.OfLexemes all) {span : Span}
    (hspan : span.OfLexemes all) :
    (is.foldl (fun span i => span.cover i.span) span).OfLexemes all := by
  induction is generalizing span with
  | nil => exact hspan
  | cons i is ih =>
    rw [List.forall_mem_cons] at h
    exact ih h.2 (hspan.cover h.1)

theorem reports_pathFrom {first : Ident} (h : first.span.OfLexemes all) :
    Reports all stop (pathFrom first) fun p => p.span.OfLexemes all :=
  reports_bind reports_moreSegments fun _ hrest => reports_pure (ofLexemes_foldl hrest h)

theorem reports_path : Reports all stop path fun p => p.span.OfLexemes all :=
  reports_bind reports_ident fun _ h => reports_pathFrom h

theorem reports_importTarget : Reports all stop importTarget fun _ => True := by
  refine reports_bind (reports_keyword _) fun _ _ => reports_bind reports_text fun _ _ => ?_
  exact reports_bind reports_moreSegments fun _ _ => reports_pure True.intro

theorem reports_ordinal : Reports all stop ordinal fun _ => True := by
  refine reports_bind (reports_mark _) fun _ _ => ?_
  exact reports_bind (reports_natural _) fun _ _ => reports_pure True.intro

theorem reports_applyParameters (p : Path) {span : Span} (h : span.OfLexemes all)
    (ts : List TypeRef) : Reports all stop (applyParameters p span ts) fun _ => True := by
  unfold applyParameters
  split
  · exact reports_pure True.intro
  · exact reports_fail (.inl h)

theorem reports_typeWithin : ∀ bound, Reports all stop (typeWithin bound) fun _ => True
  | 0 => reports_unexpected _
  | bound + 1 => by
    refine reports_peek fun _ => reports_ite ?_ ?_
    · exact reports_bind reports_importTarget fun _ _ => reports_pure True.intro
    · refine reports_bind reports_path fun p hp => reports_afterMark? _ ?_
        (reports_pure True.intro)
      refine reports_bind (reports_separated _ (reports_typeWithin bound)) fun ts _ => ?_
      refine reports_bind (reports_mark _) fun close hclose => ?_
      exact reports_applyParameters p (hp.cover hclose) ts

theorem reports_type : Reports all stop type fun _ => True :=
  reports_bind reports_bound fun _ _ => reports_typeWithin _

theorem reports_numeral {span : Span} (h : span.OfLexemes all) (s : String) :
    Reports all stop (numeral span s) fun _ => True := by
  unfold numeral
  dsimp only
  split
  · exact reports_pure True.intro
  · exact reports_fail (.inl h)

theorem reports_structFields {value : Parser Literal}
    (h : Reports all stop value fun _ => True) :
    Reports all stop (structFields value) fun _ => True := by
  refine reports_listUntil _ (reports_bind reports_ident fun _ _ => ?_)
  refine reports_bind (reports_mark _) fun _ _ => ?_
  exact reports_bind h fun _ _ => reports_pure True.intro

theorem reports_listLiteral {item : Parser Literal} (h : Reports all stop item fun _ => True)
    (start : Span) : Reports all stop (listLiteral item start) fun _ => True := by
  refine reports_bind reports_bump fun _ _ => reports_bind (reports_listUntil _ h) fun _ _ => ?_
  exact reports_bind (reports_mark _) fun _ _ => reports_pure True.intro

theorem reports_structLiteral {value : Parser Literal}
    (h : Reports all stop value fun _ => True) (start : Span) :
    Reports all stop (structLiteral value start) fun _ => True := by
  refine reports_bind reports_bump fun _ _ => ?_
  refine reports_bind (reports_structFields h) fun _ _ => ?_
  exact reports_bind (reports_mark _) fun _ _ => reports_pure True.intro

theorem reports_literalWith {list struct : Span → Parser Literal}
    (hlist : ∀ start, start.OfLexemes all → Reports all stop (list start) fun _ => True)
    (hstruct : ∀ start, start.OfLexemes all → Reports all stop (struct start) fun _ => True) :
    Reports all stop (literalWith list struct) fun _ => True := by
  refine reports_next (fun start t hstart => ?_) (reports_unexpected _)
  split
  · refine reports_bind reports_bump fun _ _ => reports_bind reports_number fun r hr => ?_
    exact reports_numeral (hstart.cover hr) _
  · exact reports_bind reports_bump fun _ _ => reports_numeral hstart _
  · exact reports_bind reports_text fun _ _ => reports_pure True.intro
  · exact reports_bind reports_bump fun _ _ => reports_pure True.intro
  · exact reports_bind reports_bump fun _ _ => reports_pure True.intro
  · exact reports_bind reports_bump fun _ _ => reports_pure True.intro
  · exact reports_bind reports_path fun _ _ => reports_pure True.intro
  · exact hlist start hstart
  · exact hstruct start hstart
  · exact reports_unexpected _

theorem reports_literalWithin : ∀ room, Reports all stop (literalWithin room) fun _ => True
  | 0 => reports_literalWith (fun _ h => reports_fail (.inl h)) fun _ h => reports_fail (.inl h)
  | room + 1 => reports_literalWith
      (fun start _ => reports_listLiteral (reports_literalWithin room) start)
      fun start _ => reports_structLiteral (reports_literalWithin room) start

theorem reports_literal : Reports all stop literal fun _ => True := reports_literalWithin _

theorem reports_default? : Reports all stop default? fun _ => True :=
  reports_afterMark? _ (reports_some reports_literal).trivial (reports_pure True.intro)

/-! ## Annotations -/

theorem reports_application : Reports all stop application fun _ => True := by
  refine reports_bind (reports_mark _) fun start _ => reports_bind reports_path fun name _ => ?_
  refine reports_bind (reports_accept? _) fun o _ => ?_
  cases o with
  | none => exact reports_pure True.intro
  | some opening =>
    refine reports_peek fun t => reports_peekSecond fun t' => ?_
    split
    · exact reports_bind reports_bump fun _ _ => reports_pure True.intro
    · refine reports_bind (reports_structFields reports_literal) fun _ _ => ?_
      exact reports_bind (reports_mark _) fun _ _ => reports_pure True.intro
    · refine reports_bind reports_literal fun _ _ => ?_
      exact reports_bind (reports_mark _) fun _ _ => reports_pure True.intro

theorem reports_applications : Reports all stop applications fun _ => True :=
  (reports_many (P := fun _ => True) (reports_peek fun _ =>
    reports_ite (reports_some reports_application) reports_none)).trivial

end Parser

end SchemaLang
