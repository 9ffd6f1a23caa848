import SchemaLang.Proofs.Grammar.Reading
import SchemaLang.Proofs.Varying.Trees

/-!
# Parsers that run in parallel

`Parallel V p p'` compares a run of `p` with a run of `p'` on lexemes that differ by the variation
`V`: either both go on, with results that differ by the variation, or both stop for causes that do,
at related spans.  The rules here cover the primitive steps and the loops.
-/

namespace SchemaLang

open Related

variable {α β : Type} {V : Variation}

/-! ## Streams and outcomes -/

/-- The lexemes have tokens that may stand for each other, at related spans. -/
structure Lexeme.Varied (V : Variation) (x x' : Lexeme) : Prop where
  token : x.token.Varied V x'.token
  span : V.span x.span x'.span

/-- The streams have such lexemes and end at related places. -/
structure Stream.Varied (V : Variation) (s s' : Stream) : Prop where
  lexemes : List.Forall₂ (Lexeme.Varied V) s.lexemes s'.lexemes
  stop : V.span (.point s.stop) (.point s'.stop)
  bound : s.bound = s'.bound

/-- Both outcomes are results that `S` relates, or both are errors for related causes at related
spans. -/
inductive SameOutcome (V : Variation) (S : α → α → Prop) :
    Except GrammarError α → Except GrammarError α → Prop
  | ok {a a' : α} (result : S a a') : SameOutcome V S (.ok a) (.ok a')
  | error {span span' : Span} {cause cause' : GrammarCause} (spans : V.span span span')
    (causes : cause.Varied V cause') :
    SameOutcome V S (.error ⟨span, cause⟩) (.error ⟨span', cause'⟩)

theorem SameOutcome.bind {S : α → α → Prop} {T : β → β → Prop} {x x' : Except GrammarError α}
    {f f' : α → Except GrammarError β} (h : SameOutcome V S x x')
    (hf : ∀ a a', S a a' → SameOutcome V T (f a) (f' a')) :
    SameOutcome V T (x >>= f) (x' >>= f') := by
  cases h with
  | ok result => exact hf _ _ result
  | error spans causes => exact .error spans causes

theorem SameOutcome.map {S : α → α → Prop} {T : β → β → Prop} {x x' : Except GrammarError α}
    {f f' : α → β} (h : SameOutcome V S x x') (hf : ∀ a a', S a a' → T (f a) (f' a')) :
    SameOutcome V T (f <$> x) (f' <$> x') := by
  cases h with
  | ok result => exact .ok (hf _ _ result)
  | error spans causes => exact .error spans causes

theorem SameOutcome.mono {S T : α → α → Prop} {x x' : Except GrammarError α}
    (h : SameOutcome V S x x') (hT : ∀ a a', S a a' → T a a') : SameOutcome V T x x' := by
  cases h with
  | ok result => exact .ok (hT _ _ result)
  | error spans causes => exact .error spans causes

theorem rel_nextToken {l l' : List Lexeme} (h : List.Forall₂ (Lexeme.Varied V) l l') :
    Option.Rel (Token.Varied V) (nextToken l) (nextToken l') := by
  cases h with
  | nil => exact .none
  | cons h _ => exact .some h.token

theorem forall₂_tail {S : α → β → Prop} {l : List α} {l' : List β} (h : List.Forall₂ S l l') :
    List.Forall₂ S l.tail l'.tail := by
  cases h with
  | nil => exact .nil
  | cons _ h => exact h

/-- Both runs see the same next token unless it is a name. -/
theorem nextToken_cases {t t' : Option Token} (h : Option.Rel (Token.Varied V) t t') :
    (∃ n n', V.name n n' ∧ t = some (.name n) ∧ t' = some (.name n')) ∨
      t = t' ∧ ∀ n, t ≠ some (.name n) := by
  cases h with
  | none => exact .inr ⟨rfl, nofun⟩
  | some h =>
    cases h with
    | name h => exact .inl ⟨_, _, h, rfl, rfl⟩
    | same h => exact .inr ⟨rfl, fun n e => h n (Option.some.inj e)⟩

theorem nextToken_iff {t t' : Option Token} (h : Option.Rel (Token.Varied V) t t') {u : Token}
    (hu : ∀ n, u ≠ .name n) : t = some u ↔ t' = some u := by
  rcases nextToken_cases h with ⟨n, n', -, rfl, rfl⟩ | ⟨rfl, -⟩
  · have hne (m : String) : some (Token.name m) ≠ some u := fun e => hu m (Option.some.inj e).symm
    exact iff_of_false (hne n) (hne n')
  · exact Iff.rfl

namespace Parser

/-- The steps give the same on streams that differ by the variation, up to the variation. -/
def Parallel [Related α] (V : Variation) (p p' : Parser α) : Prop :=
  ∀ s s', s.Varied V s' →
    SameOutcome V (fun r r' => Rel V r.1 r'.1 ∧ r.2.Varied V r'.2) (p.run s) (p'.run s')

section Rules

variable [Related α] [Related β]

/-! ## Sequences -/

theorem parallel_pure {a a' : α} (h : Rel V a a') : Parallel V (pure a) (pure a') :=
  fun _ _ hs => .ok ⟨h, hs⟩

theorem parallel_bind {p p' : Parser α} {f f' : α → Parser β} (hp : Parallel V p p')
    (hf : ∀ a a', Rel V a a' → Parallel V (f a) (f' a')) : Parallel V (p >>= f) (p' >>= f') := by
  intro s s' hs
  rw [StateT.run_bind, StateT.run_bind]
  exact (hp s s' hs).bind fun _ _ ⟨ha, hs'⟩ => hf _ _ ha _ _ hs'

theorem parallel_map {p p' : Parser α} {f f' : α → β} (hp : Parallel V p p')
    (hf : ∀ a a', Rel V a a' → Rel V (f a) (f' a')) : Parallel V (f <$> p) (f' <$> p') := by
  rw [map_eq_pure_bind, map_eq_pure_bind]
  exact parallel_bind hp fun a a' ha => parallel_pure (hf a a' ha)

theorem parallel_some {p p' : Parser α} (hp : Parallel V p p') :
    Parallel V (some <$> p) (some <$> p') :=
  parallel_map hp fun _ _ => .some

theorem parallel_ite {c : Prop} [Decidable c] {p p' q q' : Parser α} (hp : Parallel V p p')
    (hq : Parallel V q q') : Parallel V (if c then p else q) (if c then p' else q') := by
  split
  · exact hp
  · exact hq

/-! ## Primitive steps -/

theorem parallel_fail {span span' : Span} {cause cause' : GrammarCause} (h : V.span span span')
    (hcause : cause.Varied V cause') : Parallel V (fail span cause : Parser α) (fail span' cause') :=
  fun _ _ _ => .error h hcause

/-- Both runs look at next tokens that may stand for each other. -/
theorem parallel_next {f f' : Option Token → Parser α}
    (h : ∀ t t', Option.Rel (Token.Varied V) t t' → Parallel V (f t) (f' t')) :
    Parallel V (peek >>= f) (peek >>= f') := by
  rintro ⟨l, stop, bound⟩ ⟨l', stop', bound'⟩ hs
  rw [StateT.run_bind, StateT.run_bind, run_peek, run_peek, ok_bind, ok_bind]
  exact h _ _ (rel_nextToken hs.lexemes) _ _ hs

theorem parallel_second {f f' : Option Token → Parser α}
    (h : ∀ t t', Option.Rel (Token.Varied V) t t' → Parallel V (f t) (f' t')) :
    Parallel V (peekSecond >>= f) (peekSecond >>= f') := by
  rintro ⟨l, stop, bound⟩ ⟨l', stop', bound'⟩ hs
  rw [StateT.run_bind, StateT.run_bind, run_peekSecond, run_peekSecond, ok_bind, ok_bind]
  exact h _ _ (rel_nextToken (forall₂_tail hs.lexemes)) _ _ hs

/-- Both runs see names that may stand for each other, or the same next token. -/
theorem parallel_peek {f f' : Option Token → Parser α}
    (hname : ∀ n n', V.name n n' → Parallel V (f (some (.name n))) (f' (some (.name n'))))
    (hsame : ∀ t, (∀ n, t ≠ some (.name n)) → Parallel V (f t) (f' t)) :
    Parallel V (peek >>= f) (peek >>= f') := by
  refine parallel_next fun t t' ht => ?_
  rcases nextToken_cases ht with ⟨n, n', hn, rfl, rfl⟩ | ⟨rfl, hother⟩
  · exact hname n n' hn
  · exact hsame t hother

/-- Both runs find the same mark or keyword ahead, or neither does. -/
theorem parallel_ifPeek {t : Token} (ht : ∀ n, t ≠ .name n) {p p' q q' : Parser α}
    (hp : Parallel V p p') (hq : Parallel V q q') :
    Parallel V (do if (← peek) = some t then p else q) (do if (← peek) = some t then p' else q') := by
  refine parallel_next fun u u' hu => ?_
  have hiff := nextToken_iff hu ht
  by_cases hnext : u = some t
  · rw [if_pos hnext, if_pos (hiff.1 hnext)]
    exact hp
  · rw [if_neg hnext, if_neg (mt hiff.2 hnext)]
    exact hq

theorem parallel_ifMark (m : Mark) {p p' q q' : Parser α} (hp : Parallel V p p')
    (hq : Parallel V q q') :
    Parallel V (do if (← peek) = some (.mark m) then p else q)
      (do if (← peek) = some (.mark m) then p' else q') :=
  parallel_ifPeek (by simp) hp hq

theorem parallel_ifKeyword (k : Keyword) {p p' q q' : Parser α} (hp : Parallel V p p')
    (hq : Parallel V q q') :
    Parallel V (do if (← peek) = some (.keyword k) then p else q)
      (do if (← peek) = some (.keyword k) then p' else q') :=
  parallel_ifPeek (by simp) hp hq

theorem parallel_peekSpan : Parallel V peekSpan peekSpan := by
  rintro ⟨l, stop, bound⟩ ⟨l', stop', bound'⟩ hs
  rw [run_peekSpan, run_peekSpan]
  refine .ok ⟨?_, hs⟩
  cases hs.lexemes with
  | nil => exact hs.stop
  | cons h _ => exact h.span

theorem parallel_bump : Parallel V bump bump := by
  refine parallel_bind parallel_peekSpan fun span span' hspan => ?_
  exact fun s s' hs => .ok ⟨hspan, forall₂_tail hs.lexemes, hs.stop, hs.bound⟩

theorem parallel_bound : Parallel V Parser.bound Parser.bound := fun _ _ hs => .ok ⟨hs.bound, hs⟩

theorem parallel_unexpected (expected : String) :
    Parallel V (unexpected expected : Parser α) (unexpected expected) := by
  refine parallel_bind parallel_peekSpan fun span span' hspan => parallel_peek ?_ ?_
  · exact fun n n' hn => parallel_fail hspan (.unexpectedToken (.name hn) _)
  · intro t ht
    split
    · exact parallel_fail hspan (.same trivial)
    · exact parallel_fail hspan (.unexpectedToken (.same fun n e => ht n (congrArg some e)) _)
    · exact parallel_fail hspan (.same trivial)

/-! ## Single tokens -/

theorem parallel_accept? {t : Token} (ht : ∀ n, t ≠ .name n) :
    Parallel V (accept? t) (accept? t) :=
  parallel_ifPeek ht (parallel_some parallel_bump) (parallel_pure .none)

theorem parallel_expect {t : Token} (ht : ∀ n, t ≠ .name n) : Parallel V (expect t) (expect t) := by
  refine parallel_bind (parallel_accept? ht) fun o o' ho => ?_
  cases ho with
  | some h => exact parallel_pure h
  | none => exact parallel_unexpected _

theorem parallel_mark? (m : Mark) : Parallel V (mark? m) (mark? m) := by
  refine parallel_bind (parallel_accept? nofun) fun o o' ho => parallel_pure ?_
  cases ho with
  | some _ => exact rfl
  | none => exact rfl

theorem parallel_mark (m : Mark) : Parallel V (mark m) (mark m) := parallel_expect nofun

theorem parallel_keyword (k : Keyword) : Parallel V (keyword k) (keyword k) :=
  parallel_expect nofun

/-- What is read after a mark, if it is there, and else. -/
theorem parallel_afterMark? (m : Mark) {p p' q q' : Parser α} (hp : Parallel V p p')
    (hq : Parallel V q q') :
    Parallel V (do if ← mark? m then p else q) (do if ← mark? m then p' else q') := by
  refine parallel_bind (parallel_mark? m) ?_
  rintro b _ rfl
  exact parallel_ite hp hq

theorem parallel_ident : Parallel V ident ident := by
  refine parallel_peek (fun n n' hn => ?_) fun t ht => ?_
  · exact parallel_bind parallel_bump fun _ _ h => parallel_pure ⟨h, hn⟩
  · split
    · exact absurd rfl (ht _)
    · exact parallel_unexpected _

theorem parallel_number : Parallel V number number := by
  refine parallel_peek (fun _ _ _ => parallel_unexpected _) fun t _ => ?_
  split
  · exact parallel_bind parallel_bump fun _ _ h => parallel_pure ⟨h, rfl⟩
  · exact parallel_unexpected _

theorem parallel_text : Parallel V text text := by
  refine parallel_peek (fun _ _ _ => parallel_unexpected _) fun t _ => ?_
  split
  · refine parallel_bind parallel_bump fun _ _ h => ?_
    split
    · exact parallel_pure ⟨h, rfl⟩
    · exact parallel_fail h (.same trivial)
  · exact parallel_unexpected _

theorem parallel_natural (type : IntType) : Parallel V (natural type) (natural type) := by
  refine parallel_bind parallel_number ?_
  rintro ⟨span, s⟩ ⟨span', s'⟩ ⟨h, rfl⟩
  dsimp only
  split
  · exact parallel_pure ⟨h, rfl⟩
  · exact parallel_fail h (.same trivial)
  · exact parallel_fail h (.same trivial)

/-! ## Loops -/

theorem parallel_manyFrom {item item' : List α → Parser (Option α)}
    (h : ∀ earlier earlier', Rel V earlier earlier' →
      Parallel V (item earlier) (item' earlier')) :
    ∀ bound earlier earlier', Rel V earlier earlier' →
      Parallel V (manyFrom item bound earlier) (manyFrom item' bound earlier') := by
  intro bound
  induction bound with
  | zero => exact fun _ _ he => parallel_pure (List.rel_reverse he)
  | succ bound ih =>
    intro earlier earlier' he
    refine parallel_bind (h _ _ he) fun o o' ho => ?_
    cases ho with
    | some ha => exact ih _ _ (.cons ha he)
    | none => exact parallel_pure (List.rel_reverse he)

theorem parallel_manyGiven {item item' : List α → Parser (Option α)}
    (h : ∀ earlier earlier', Rel V earlier earlier' →
      Parallel V (item earlier) (item' earlier')) :
    Parallel V (manyGiven item) (manyGiven item') := by
  refine parallel_bind parallel_bound ?_
  rintro bound _ rfl
  exact parallel_manyFrom h _ _ _ .nil

theorem parallel_many {item item' : Parser (Option α)} (h : Parallel V item item') :
    Parallel V (many item) (many item') :=
  parallel_manyGiven fun _ _ _ => h

theorem parallel_separated (separator : Mark) {item item' : Parser α} (h : Parallel V item item') :
    Parallel V (separated separator item) (separated separator item') := by
  refine parallel_bind h fun first first' hfirst => ?_
  refine parallel_bind (parallel_many ?_) fun rest rest' hrest => parallel_pure (.cons hfirst hrest)
  exact parallel_afterMark? separator (parallel_some h) (parallel_pure .none)

theorem parallel_listUntil (close : Mark) {item item' : Parser α} (h : Parallel V item item') :
    Parallel V (listUntil close item) (listUntil close item') := by
  refine parallel_bind parallel_bound ?_
  rintro bound _ rfl
  induction bound + 1 with
  | zero => exact parallel_pure .nil
  | succ bound ih =>
    refine parallel_ifMark close (parallel_pure .nil) ?_
    refine parallel_bind h fun first first' hfirst => parallel_afterMark? _ ?_ ?_
    · exact parallel_bind ih fun rest rest' hrest => parallel_pure (.cons hfirst hrest)
    · exact parallel_pure (.cons hfirst .nil)

end Rules

end Parser

end SchemaLang
