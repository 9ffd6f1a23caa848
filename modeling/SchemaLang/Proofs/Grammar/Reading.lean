import SchemaLang.Proofs.Grammar.Terms
import SchemaLang.Proofs.Outcome

/-!
# Steps of the parser and phrases of the grammar

What the primitive steps of a parser and its loops do to a stream, once and for all, so that the
productions can be compared with the rules one by one.  `Sound p r` says that what `p` reads is a
phrase of `r`, and `Complete p r follow` that `p` reads every phrase of `r` that stands before
something that `follow` allows.
-/

namespace SchemaLang

open Grammar

/-- The token that stands first. -/
def nextToken (l : List Lexeme) : Option Token := l.head?.map Lexeme.token

@[simp] theorem nextToken_nil : nextToken [] = none := rfl

@[simp] theorem nextToken_cons (x : Lexeme) (l : List Lexeme) :
    nextToken (x :: l) = some x.token := rfl

@[simp] theorem token_word (k : Keyword) (span : Span) : (Lexeme.word k span).token = .keyword k :=
  rfl

@[simp] theorem token_mark (m : Mark) (span : Span) : (Lexeme.mark m span).token = .mark m := rfl

@[simp] theorem token_number (s : String) (span : Span) :
    (Lexeme.number s span).token = .number s := rfl

@[simp] theorem token_text (raw : String) (span : Span) :
    (Lexeme.text raw span).token = .text raw := rfl

@[simp] theorem token_lexeme (i : Ident) : i.lexeme.token = .name i.name := rfl

@[simp] theorem span_word (k : Keyword) (span : Span) : (Lexeme.word k span).span = span := rfl

@[simp] theorem span_mark (m : Mark) (span : Span) : (Lexeme.mark m span).span = span := rfl

@[simp] theorem span_number (s : String) (span : Span) : (Lexeme.number s span).span = span := rfl

theorem eq_cons_of_nextToken {l : List Lexeme} {t : Token} (h : nextToken l = some t) :
    ∃ span rest, l = ⟨t, span⟩ :: rest := by
  cases l with
  | nil => simp at h
  | cons x rest =>
    simp only [nextToken_cons, Option.some.injEq] at h
    subst h
    exact ⟨x.span, rest, rfl⟩

/-- None of the marks stands first. -/
def Clear (marks : List Mark) (l : List Lexeme) : Prop :=
  ∀ m ∈ marks, nextToken l ≠ some (.mark m)

theorem clear_cons {marks : List Mark} {x : Lexeme} {l : List Lexeme}
    (h : ∀ m ∈ marks, x.token ≠ .mark m) : Clear marks (x :: l) := fun m hm => by
  simpa using h m hm

theorem clear_mark {marks : List Mark} {m : Mark} {span : Span} {l : List Lexeme}
    (h : m ∉ marks) : Clear marks (.mark m span :: l) := by
  apply clear_cons
  intro m' hm' e
  obtain rfl := Token.mark.inj e
  exact h hm'

theorem Clear.ne {marks : List Mark} {l : List Lexeme} (h : Clear marks l) {m : Mark}
    (hm : m ∈ marks) : nextToken l ≠ some (.mark m) := h m hm

theorem Clear.mono {marks marks' : List Mark} {l : List Lexeme} (h : Clear marks l)
    (hs : marks' ⊆ marks) : Clear marks' l := fun m hm => h m (hs hm)

namespace Parser

variable {α β : Type}

/-! ## Running a parser -/

theorem run_bind_ok {p : Parser α} {f : α → Parser β} {s s'' : Stream} {b : β} :
    (p >>= f).run s = .ok (b, s'') ↔
      ∃ a s', p.run s = .ok (a, s') ∧ (f a).run s' = .ok (b, s'') := by
  rw [StateT.run_bind, bind_eq_ok]
  exact ⟨fun ⟨⟨a, s'⟩, h⟩ => ⟨a, s', h⟩, fun ⟨a, s', h⟩ => ⟨(a, s'), h⟩⟩

theorem run_map_ok {p : Parser α} {f : α → β} {s s' : Stream} {b : β} :
    (f <$> p).run s = .ok (b, s') ↔ ∃ a, p.run s = .ok (a, s') ∧ f a = b := by
  rw [StateT.run_map, map_eq_ok]
  constructor
  · rintro ⟨⟨a, s₁⟩, h, e⟩
    obtain ⟨rfl, rfl⟩ := Prod.mk.inj e
    exact ⟨a, h, rfl⟩
  · rintro ⟨a, h, rfl⟩
    exact ⟨(a, s'), h, rfl⟩

theorem run_fail (span : Span) (cause : GrammarCause) (s : Stream) :
    (fail span cause : Parser α).run s = .error ⟨span, cause⟩ := rfl

variable {l rest : List Lexeme} {stop bound : Nat} {s' : Stream}

@[simp] theorem run_peek : peek.run ⟨l, stop, bound⟩ = .ok (nextToken l, ⟨l, stop, bound⟩) := rfl

@[simp] theorem run_peekSecond :
    peekSecond.run ⟨l, stop, bound⟩ = .ok (nextToken l.tail, ⟨l, stop, bound⟩) := rfl

@[simp] theorem run_peekSpan :
    peekSpan.run ⟨l, stop, bound⟩ =
      .ok ((l.head?.map Lexeme.span).getD (.point stop), ⟨l, stop, bound⟩) := rfl

@[simp] theorem run_bump (x : Lexeme) :
    bump.run ⟨x :: l, stop, bound⟩ = .ok (x.span, ⟨l, stop, bound⟩) := rfl

@[simp] theorem run_bound :
    Parser.bound.run ⟨l, stop, bound⟩ = .ok (bound, ⟨l, stop, bound⟩) := rfl

theorem run_unexpected_ne (expected : String) (s : Stream) (r : α × Stream) :
    (unexpected expected : Parser α).run s ≠ .ok r := by
  obtain ⟨l, stop, bound⟩ := s
  simp only [unexpected, StateT.run_bind, run_peekSpan, run_peek, ok_bind]
  split <;> simp [run_fail]

/-! ## Single tokens -/

theorem run_accept?_of_ne {t : Token} (h : nextToken l ≠ some t) :
    (accept? t).run ⟨l, stop, bound⟩ = .ok (none, ⟨l, stop, bound⟩) := by
  simp [accept?, h]

theorem run_accept?_cons (t : Token) (span : Span) :
    (accept? t).run ⟨⟨t, span⟩ :: l, stop, bound⟩ = .ok (some span, ⟨l, stop, bound⟩) := by
  simp [accept?]

@[simp] theorem run_accept?_mark (m : Mark) (span : Span) :
    (accept? (.mark m)).run ⟨.mark m span :: l, stop, bound⟩ =
      .ok (some span, ⟨l, stop, bound⟩) := run_accept?_cons _ _

@[simp] theorem run_accept?_word (k : Keyword) (span : Span) :
    (accept? (.keyword k)).run ⟨.word k span :: l, stop, bound⟩ =
      .ok (some span, ⟨l, stop, bound⟩) := run_accept?_cons _ _

theorem accept?_ok {t : Token} {o : Option Span}
    (h : (accept? t).run ⟨l, stop, bound⟩ = .ok (o, s')) :
    (∃ span rest, o = some span ∧ l = ⟨t, span⟩ :: rest ∧ s' = ⟨rest, stop, bound⟩) ∨
      (o = none ∧ nextToken l ≠ some t ∧ s' = ⟨l, stop, bound⟩) := by
  by_cases ht : nextToken l = some t
  · obtain ⟨span, rest, rfl⟩ := eq_cons_of_nextToken ht
    rw [run_accept?_cons] at h
    obtain ⟨rfl, rfl⟩ : some span = o ∧ _ = s' := by simpa using h
    exact Or.inl ⟨span, rest, rfl, rfl, rfl⟩
  · rw [run_accept?_of_ne ht] at h
    obtain ⟨rfl, rfl⟩ : none = o ∧ _ = s' := by simpa using h
    exact Or.inr ⟨rfl, ht, rfl⟩

theorem run_expect_cons (t : Token) (span : Span) :
    (expect t).run ⟨⟨t, span⟩ :: l, stop, bound⟩ = .ok (span, ⟨l, stop, bound⟩) := by
  simp [expect, run_accept?_cons]

theorem expect_ok {t : Token} {span : Span}
    (h : (expect t).run ⟨l, stop, bound⟩ = .ok (span, s')) :
    ∃ rest, l = ⟨t, span⟩ :: rest ∧ s' = ⟨rest, stop, bound⟩ := by
  obtain ⟨o, s₁, h₁, h₂⟩ := run_bind_ok.1 h
  rcases accept?_ok h₁ with ⟨span', rest, rfl, rfl, rfl⟩ | ⟨rfl, -, rfl⟩
  · obtain ⟨rfl, rfl⟩ : span' = span ∧ _ = s' := by simpa using h₂
    exact ⟨rest, rfl, rfl⟩
  · exact absurd h₂ (run_unexpected_ne _ _ _)

@[simp] theorem run_mark (m : Mark) (span : Span) :
    (mark m).run ⟨.mark m span :: l, stop, bound⟩ = .ok (span, ⟨l, stop, bound⟩) :=
  run_expect_cons _ _

theorem mark_ok {m : Mark} {span : Span} (h : (mark m).run ⟨l, stop, bound⟩ = .ok (span, s')) :
    ∃ rest, l = .mark m span :: rest ∧ s' = ⟨rest, stop, bound⟩ := expect_ok h

@[simp] theorem run_keyword (k : Keyword) (span : Span) :
    (keyword k).run ⟨.word k span :: l, stop, bound⟩ = .ok (span, ⟨l, stop, bound⟩) :=
  run_expect_cons _ _

theorem keyword_ok {k : Keyword} {span : Span}
    (h : (keyword k).run ⟨l, stop, bound⟩ = .ok (span, s')) :
    ∃ rest, l = .word k span :: rest ∧ s' = ⟨rest, stop, bound⟩ := expect_ok h

@[simp] theorem run_mark?_cons (m : Mark) (span : Span) :
    (mark? m).run ⟨.mark m span :: l, stop, bound⟩ = .ok (true, ⟨l, stop, bound⟩) := by
  simp [mark?, Lexeme.mark, run_accept?_cons]

theorem run_mark?_of_ne {m : Mark} (h : nextToken l ≠ some (.mark m)) :
    (mark? m).run ⟨l, stop, bound⟩ = .ok (false, ⟨l, stop, bound⟩) := by
  simp [mark?, run_accept?_of_ne h]

theorem mark?_ok {m : Mark} {b : Bool} (h : (mark? m).run ⟨l, stop, bound⟩ = .ok (b, s')) :
    (∃ span rest, b = true ∧ l = .mark m span :: rest ∧ s' = ⟨rest, stop, bound⟩) ∨
      (b = false ∧ nextToken l ≠ some (.mark m) ∧ s' = ⟨l, stop, bound⟩) := by
  obtain ⟨o, s₁, h₁, h₂⟩ := run_bind_ok.1 h
  rcases accept?_ok h₁ with ⟨span, rest, rfl, rfl, rfl⟩ | ⟨rfl, hne, rfl⟩
  · obtain ⟨rfl, rfl⟩ : true = b ∧ _ = s' := by simpa using h₂
    exact Or.inl ⟨span, rest, rfl, rfl, rfl⟩
  · obtain ⟨rfl, rfl⟩ : false = b ∧ _ = s' := by simpa using h₂
    exact Or.inr ⟨rfl, hne, rfl⟩

@[simp] theorem run_ident (i : Ident) :
    ident.run ⟨i.lexeme :: l, stop, bound⟩ = .ok (i, ⟨l, stop, bound⟩) := by
  simp [ident, Ident.lexeme]

theorem ident_ok {i : Ident} (h : ident.run ⟨l, stop, bound⟩ = .ok (i, s')) :
    ∃ rest, l = i.lexeme :: rest ∧ s' = ⟨rest, stop, bound⟩ := by
  obtain ⟨o, s₁, h₁, h₂⟩ := run_bind_ok.1 h
  obtain ⟨rfl, rfl⟩ : nextToken l = o ∧ _ = s₁ := by simpa using h₁
  split at h₂
  · next s hs =>
    obtain ⟨span, rest, rfl⟩ := eq_cons_of_nextToken hs
    obtain ⟨rfl, rfl⟩ : (⟨span, s⟩ : Ident) = i ∧ _ = s' := by simpa using h₂
    exact ⟨rest, rfl, rfl⟩
  · exact absurd h₂ (run_unexpected_ne _ _ _)

@[simp] theorem run_number (s : String) (span : Span) :
    number.run ⟨.number s span :: l, stop, bound⟩ = .ok ((span, s), ⟨l, stop, bound⟩) := by
  simp [number, Lexeme.number]

theorem number_ok {r : Span × String} (h : number.run ⟨l, stop, bound⟩ = .ok (r, s')) :
    ∃ rest, l = .number r.2 r.1 :: rest ∧ s' = ⟨rest, stop, bound⟩ := by
  obtain ⟨o, s₁, h₁, h₂⟩ := run_bind_ok.1 h
  obtain ⟨rfl, rfl⟩ : nextToken l = o ∧ _ = s₁ := by simpa using h₁
  split at h₂
  · next s hs =>
    obtain ⟨span, rest, rfl⟩ := eq_cons_of_nextToken hs
    obtain ⟨rfl, rfl⟩ : (span, s) = r ∧ _ = s' := by simpa using h₂
    exact ⟨rest, rfl, rfl⟩
  · exact absurd h₂ (run_unexpected_ne _ _ _)

theorem run_text {raw : String} {cs : List Char} (span : Span)
    (h : Escape.decode raw.toList = .ok cs) :
    text.run ⟨.text raw span :: l, stop, bound⟩ =
      .ok ((span, String.ofList cs), ⟨l, stop, bound⟩) := by
  simp [text, Lexeme.text, h]

theorem text_ok {r : Span × String} (h : text.run ⟨l, stop, bound⟩ = .ok (r, s')) :
    ∃ raw cs rest, Escape.decode raw.toList = .ok cs ∧ r.2 = String.ofList cs ∧
      l = .text raw r.1 :: rest ∧ s' = ⟨rest, stop, bound⟩ := by
  obtain ⟨o, s₁, h₁, h₂⟩ := run_bind_ok.1 h
  obtain ⟨rfl, rfl⟩ : nextToken l = o ∧ _ = s₁ := by simpa using h₁
  split at h₂
  · next raw hs =>
    obtain ⟨span, rest, rfl⟩ := eq_cons_of_nextToken hs
    simp only [StateT.run_bind, run_bump, ok_bind] at h₂
    split at h₂
    · next cs hcs =>
      obtain ⟨rfl, rfl⟩ : (span, String.ofList cs) = r ∧ _ = s' := by simpa using h₂
      exact ⟨raw, cs, rest, hcs, rfl, rfl, rfl⟩
    · simp [run_fail] at h₂
  · exact absurd h₂ (run_unexpected_ne _ _ _)

theorem run_natural {type : IntType} {s : String} {n : Int} (span : Span)
    (h : (NumericType.int type).decode s.toList = .ok (.int n)) :
    (natural type).run ⟨.number s span :: l, stop, bound⟩ =
      .ok ((span, n.toNat), ⟨l, stop, bound⟩) := by
  simp [natural, h]

theorem natural_ok {type : IntType} {r : Span × Nat}
    (h : (natural type).run ⟨l, stop, bound⟩ = .ok (r, s')) :
    ∃ s n rest, (NumericType.int type).decode s.toList = .ok (.int n) ∧ r.2 = n.toNat ∧
      l = .number s r.1 :: rest ∧ s' = ⟨rest, stop, bound⟩ := by
  obtain ⟨⟨span, s⟩, s₁, h₁, h₂⟩ := run_bind_ok.1 h
  obtain ⟨rest, rfl, rfl⟩ := number_ok h₁
  dsimp only at h₂
  split at h₂
  · next n hn =>
    obtain ⟨rfl, rfl⟩ : (span, n.toNat) = r ∧ _ = s' := by simpa using h₂
    exact ⟨s, n, rest, hn, rfl, rfl, rfl⟩
  · simp [run_fail] at h₂
  · simp [run_fail] at h₂

/-! ## Sound and complete parsers -/

/-- What `p` reads is a phrase of `r`. -/
def Sound (p : Parser α) (r : Phrases α) : Prop :=
  ∀ ⦃l stop bound a s'⦄, p.run ⟨l, stop, bound⟩ = .ok (a, s') →
    ∃ used rest, l = used ++ rest ∧ s' = ⟨rest, stop, bound⟩ ∧ r used a

/-- `p` reads every phrase of `r` before something that `follow` allows, as long as the bound on
loops counts the lexemes of the phrase. -/
def Complete (p : Parser α) (r : Phrases α) (follow : List Lexeme → Prop) : Prop :=
  ∀ ⦃u w : List Lexeme⦄ ⦃e b : Nat⦄ ⦃a : α⦄, r u a → follow w → u.length ≤ b →
    p.run ⟨u ++ w, e, b⟩ = .ok (a, ⟨w, e, b⟩)

theorem Sound.mono {p : Parser α} {r r' : Phrases α} (h : Sound p r)
    (hr : ∀ used a, r used a → r' used a) : Sound p r' := by
  intro l stop bound a s' hp
  obtain ⟨used, rest, rfl, rfl, ha⟩ := h hp
  exact ⟨used, rest, rfl, rfl, hr _ _ ha⟩

theorem sound_unexpected (expected : String) (r : Phrases α) : Sound (unexpected expected) r :=
  fun _ _ _ _ _ h => absurd h (run_unexpected_ne _ _ _)

/-! ## Loops -/

section Loops

variable {r : Phrases α}

/-- The rounds of a loop keep what each round keeps; `k` holds of the items read so far, the last
one first. -/
theorem sound_manyFrom {item : List α → Parser (Option α)} {k : List α → Prop}
    (hitem : ∀ earlier, k earlier →
      Sound (item earlier) (IsOptional fun used a => r used a ∧ k (a :: earlier))) :
    ∀ (n : Nat) (earlier : List α), k earlier → Sound (manyFrom item n earlier)
      fun used as => ∃ more, as = earlier.reverse ++ more ∧ IsMany r used more ∧ k as.reverse
  | 0, earlier, hk => by
    intro l stop bound a s' h
    obtain ⟨rfl, rfl⟩ : earlier.reverse = a ∧ _ = s' := by simpa [manyFrom] using h
    exact ⟨[], l, rfl, rfl, [], by simp, .nil, by simpa using hk⟩
  | n + 1, earlier, hk => by
    intro l stop bound as s' h
    obtain ⟨o, s₁, h₁, h₂⟩ := run_bind_ok.1 h
    obtain ⟨used, rest, rfl, rfl, ho⟩ := hitem earlier hk h₁
    cases ho with
    | none =>
      obtain ⟨rfl, rfl⟩ : earlier.reverse = as ∧ _ = s' := by simpa using h₂
      exact ⟨[], rest, rfl, rfl, [], by simp, .nil, by simpa using hk⟩
    | some ha =>
      rename_i a
      obtain ⟨used', rest', rfl, rfl, more, rfl, hmore, hk'⟩ :=
        sound_manyFrom hitem n (a :: earlier) ha.2 h₂
      exact ⟨used ++ used', rest', by simp, rfl, a :: more, by simp, .cons ha.1 hmore, hk'⟩

theorem sound_manyGiven {item : List α → Parser (Option α)} {k : List α → Prop}
    (hitem : ∀ earlier, k earlier →
      Sound (item earlier) (IsOptional fun used a => r used a ∧ k (a :: earlier)))
    (hk : k []) : Sound (manyGiven item) fun used as => IsMany r used as ∧ k as.reverse := by
  intro l stop bound as s' h
  obtain ⟨n, s₁, h₁, h₂⟩ := run_bind_ok.1 h
  obtain ⟨rfl, rfl⟩ : bound = n ∧ _ = s₁ := by simpa using h₁
  obtain ⟨used, rest, rfl, rfl, more, rfl, hmore, hk'⟩ := sound_manyFrom hitem _ [] hk h₂
  exact ⟨used, rest, rfl, rfl, hmore, hk'⟩

theorem sound_many {item : Parser (Option α)} (hitem : Sound item (IsOptional r)) :
    Sound (many item) (IsMany r) := by
  refine Sound.mono (sound_manyGiven (k := fun _ => True) (fun _ _ => ?_) trivial)
    fun _ _ h => h.1
  refine hitem.mono fun used o ho => ?_
  cases ho with
  | none => exact .none
  | some h => exact .some ⟨h, trivial⟩

/-- The bound never ends a loop early: after its last round there is nothing more for it to read. -/
theorem manyFrom_stops {item : List α → Parser (Option α)}
    (hitem : ∀ earlier, Sound (item earlier) (IsOptional r))
    (hnonempty : ∀ used a, r used a → used ≠ []) :
    ∀ (n : Nat) (earlier : List α) (l : List Lexeme) (as : List α), l.length < n →
      (manyFrom item n earlier).run ⟨l, stop, bound⟩ = .ok (as, s') →
      (item as.reverse).run s' = .ok (none, s')
  | n + 1, earlier, l, as, hn, h => by
    obtain ⟨o, s₁, h₁, h₂⟩ := run_bind_ok.1 h
    obtain ⟨used, rest, rfl, rfl, ho⟩ := hitem earlier h₁
    cases ho with
    | none =>
      obtain ⟨rfl, rfl⟩ : earlier.reverse = as ∧ _ = s' := by simpa using h₂
      simpa using h₁
    | some ha =>
      have hpos : 0 < used.length := List.length_pos_iff.2 (hnonempty _ _ ha)
      rw [List.length_append] at hn
      exact manyFrom_stops hitem hnonempty n _ rest as (by omega) h₂

theorem many_stops {item : Parser (Option α)} {as : List α} (hitem : Sound item (IsOptional r))
    (hnonempty : ∀ used a, r used a → used ≠ []) (hb : l.length ≤ bound)
    (h : (many item).run ⟨l, stop, bound⟩ = .ok (as, s')) : item.run s' = .ok (none, s') := by
  obtain ⟨n, s₁, h₁, h₂⟩ := run_bind_ok.1 h
  obtain ⟨rfl, rfl⟩ : bound = n ∧ _ = s₁ := by simpa using h₁
  exact manyFrom_stops (fun _ => hitem) hnonempty _ [] l as (by omega) h₂

variable {f : List Lexeme → Prop} {u w : List Lexeme} {e b : Nat}

/-- A loop reads every sequence of phrases that its rounds read one by one, up to something at which
a round reads nothing. -/
theorem complete_manyFrom {p : List α → Parser (Option α)} {k : List α → Prop}
    {u w : List Lexeme} {as : List α} (hmany : IsMany r u as)
    (hnonempty : ∀ u a, r u a → u ≠ [])
    (hitem : ∀ (earlier : List α) (a : α) (u tail : List Lexeme), k (a :: earlier) →
      r u a → f tail → u.length ≤ b →
      (p earlier).run ⟨u ++ tail, e, b⟩ = .ok (some a, ⟨tail, e, b⟩))
    (hstart : ∀ u a tail, r u a → f (u ++ tail)) (hfollow : f w)
    (hend : ∀ earlier, (p earlier).run ⟨w, e, b⟩ = .ok (none, ⟨w, e, b⟩))
    (hkeeps : ∀ a earlier, k (a :: earlier) → k earlier) :
    ∀ (n : Nat) (earlier : List α), u.length ≤ n → k (as.reverse ++ earlier) →
      u.length ≤ b → (manyFrom p n earlier).run ⟨u ++ w, e, b⟩ =
        .ok (earlier.reverse ++ as, ⟨w, e, b⟩) := by
  have hsuffix : ∀ (late early : List α), k (late ++ early) → k early := by
    intro late
    induction late with
    | nil => exact fun _ h => h
    | cons a late ih => exact fun early h => ih early (hkeeps a _ h)
  induction hmany with
  | nil =>
    intro n earlier _ _ _
    cases n with
    | zero => simp [manyFrom]
    | succ n => simp [manyFrom, hend]
  | @cons head tail a as ha htail ih =>
    intro n earlier hn hk hb
    have hpos : 0 < head.length := List.length_pos_iff.2 (hnonempty _ _ ha)
    rw [List.length_append] at hn
    obtain ⟨n, rfl⟩ : ∃ k, n = k + 1 := ⟨n - 1, by omega⟩
    have hk' : k (as.reverse ++ a :: earlier) := by simpa using hk
    have hnext : f (tail ++ w) := by
      cases htail with
      | nil => exact hfollow
      | cons hb' _ => rw [List.append_assoc]; exact hstart _ _ _ hb'
    rw [List.length_append] at hb
    rw [List.append_assoc]
    have hround := hitem earlier a head (tail ++ w) (hsuffix _ _ hk') ha hnext (by omega)
    have hrest := ih n (a :: earlier) (by omega) hk' (by omega)
    simp [manyFrom, hround, hrest]

theorem complete_manyGiven {p : List α → Parser (Option α)} {k : List α → Prop}
    {u w : List Lexeme} {as : List α} (hmany : IsMany r u as)
    (hnonempty : ∀ u a, r u a → u ≠ [])
    (hitem : ∀ (earlier : List α) (a : α) (u tail : List Lexeme), k (a :: earlier) →
      r u a → f tail → u.length ≤ b →
      (p earlier).run ⟨u ++ tail, e, b⟩ = .ok (some a, ⟨tail, e, b⟩))
    (hstart : ∀ u a tail, r u a → f (u ++ tail)) (hfollow : f w)
    (hend : ∀ earlier, (p earlier).run ⟨w, e, b⟩ = .ok (none, ⟨w, e, b⟩))
    (hkeeps : ∀ a earlier, k (a :: earlier) → k earlier) (hk : k as.reverse)
    (hb : u.length ≤ b) :
    (manyGiven p).run ⟨u ++ w, e, b⟩ = .ok (as, ⟨w, e, b⟩) := by
  have h := complete_manyFrom hmany hnonempty hitem hstart hfollow hend hkeeps (b + 1) []
    (by omega) (by simpa using hk) hb
  simpa [manyGiven] using h

theorem complete_many {p : Parser (Option α)} {u w : List Lexeme} {as : List α}
    (hmany : IsMany r u as) (hnonempty : ∀ u a, r u a → u ≠ [])
    (hitem : ∀ (a : α) (u tail : List Lexeme), r u a → f tail → u.length ≤ b →
      p.run ⟨u ++ tail, e, b⟩ = .ok (some a, ⟨tail, e, b⟩))
    (hstart : ∀ u a tail, r u a → f (u ++ tail)) (hfollow : f w)
    (hend : p.run ⟨w, e, b⟩ = .ok (none, ⟨w, e, b⟩))
    (hb : u.length ≤ b) :
    (many p).run ⟨u ++ w, e, b⟩ = .ok (as, ⟨w, e, b⟩) :=
  complete_manyGiven (k := fun _ => True) hmany hnonempty (fun _ a u t _ => hitem a u t) hstart
    hfollow (fun _ => hend) (fun _ _ h => h) trivial hb

/-! ### Commas -/

/-- A comma and a phrase after it. -/
inductive IsAfterComma (r : Phrases α) : Phrases α
  | mk {ls : List Lexeme} {a : α} (comma : Span) (phrase : r ls a) :
      IsAfterComma r (.mark .comma comma :: ls) a

theorem isSeparated_of_isMany {head tail : List Lexeme} {a : α} {as : List α} (ha : r head a)
    (h : IsMany (IsAfterComma r) tail as) : IsSeparated r (head ++ tail) (a :: as) := by
  induction h generalizing head a with
  | nil => simpa using IsSeparated.last ha
  | cons hb _ ih =>
    obtain ⟨comma, hb⟩ := hb
    exact .cons comma ha (ih hb)

theorem isMany_of_isSeparated {ls : List Lexeme} {as : List α} (h : IsSeparated r ls as) :
    ∃ head tail a more, ls = head ++ tail ∧ as = a :: more ∧ r head a ∧
      IsMany (IsAfterComma r) tail more := by
  induction h with
  | last ha => exact ⟨_, [], _, [], by simp, rfl, ha, .nil⟩
  | cons comma ha _ ih =>
    obtain ⟨head, tail, a, more, rfl, rfl, hb, hmore⟩ := ih
    refine ⟨_, _, _, _, rfl, rfl, ha, ?_⟩
    exact IsMany.cons (IsAfterComma.mk comma hb) hmore

theorem sound_separated {item : Parser α} (hitem : Sound item r) :
    Sound (separated .comma item) (IsSeparated r) := by
  intro l stop bound as s' h
  obtain ⟨a, s₁, h₁, h₂⟩ := run_bind_ok.1 h
  obtain ⟨head, l₁, rfl, rfl, ha⟩ := hitem h₁
  obtain ⟨more, s₂, h₃, h₄⟩ := run_bind_ok.1 h₂
  obtain ⟨tail, rest, rfl, rfl, hmore⟩ := sound_many (r := IsAfterComma r) (by
    intro l stop bound o s' h
    obtain ⟨b, s₁, h₁, h₂⟩ := run_bind_ok.1 h
    rcases mark?_ok h₁ with ⟨comma, rest, rfl, rfl, rfl⟩ | ⟨rfl, -, rfl⟩
    · obtain ⟨b, h₃, rfl⟩ := run_map_ok.1 h₂
      obtain ⟨used, rest, rfl, rfl, hb⟩ := hitem h₃
      exact ⟨.mark .comma comma :: used, rest, rfl, rfl, .some (.mk comma hb)⟩
    · obtain ⟨rfl, rfl⟩ : none = o ∧ _ = s' := by simpa using h₂
      exact ⟨[], l, rfl, rfl, .none⟩) h₃
  obtain ⟨rfl, rfl⟩ : a :: more = as ∧ _ = s' := by simpa using h₄
  exact ⟨head ++ tail, rest, by simp, rfl, isSeparated_of_isMany ha hmore⟩

theorem complete_separated {p : Parser α} {u w : List Lexeme} {as : List α}
    (h : IsSeparated r u as)
    (hitem : ∀ (a : α) (u tail : List Lexeme), r u a → f tail → u.length ≤ b →
      p.run ⟨u ++ tail, e, b⟩ = .ok (a, ⟨tail, e, b⟩))
    (hcomma : ∀ span l, f (.mark .comma span :: l)) (hfollow : f w)
    (hend : nextToken w ≠ some (.mark .comma)) (hb : u.length ≤ b) :
    (separated .comma p).run ⟨u ++ w, e, b⟩ = .ok (as, ⟨w, e, b⟩) := by
  obtain ⟨head, tail, a, more, rfl, rfl, ha, hmore⟩ := isMany_of_isSeparated h
  rw [List.length_append] at hb
  rw [List.append_assoc]
  have hnext : f (tail ++ w) := by
    cases hmore with
    | nil => exact hfollow
    | cons hb' _ => obtain ⟨comma, -⟩ := hb'; exact hcomma _ _
  have hfirst := hitem a head (tail ++ w) ha hnext (by omega)
  have hrest := complete_many (p := do if ← mark? .comma then some <$> p else return none)
    (e := e) (b := b) hmore
    (fun _ _ h => by obtain ⟨comma, -⟩ := h; simp)
    (fun a' u t hu ht hb => by
      obtain ⟨comma, hu⟩ := hu
      have := hitem a' _ t hu ht (by rw [List.length_cons] at hb; omega)
      simp [this])
    (fun _ _ _ h => by obtain ⟨comma, -⟩ := h; exact hcomma _ _) hfollow
    (by simp [run_mark?_of_ne hend]) (by omega)
  simp [separated, hfirst, hrest]

theorem sound_listUntil_go {close : Mark} {item : Parser α} (hitem : Sound item r) :
    ∀ n, Sound (listUntil.go close item n) (IsListed r)
  | 0 => by
    intro l stop bound as s' h
    obtain ⟨rfl, rfl⟩ : [] = as ∧ _ = s' := by simpa [listUntil.go] using h
    exact ⟨[], l, rfl, rfl, .nil⟩
  | n + 1 => by
    intro l stop bound as s' h
    obtain ⟨o, s₁, h₁, h₂⟩ := run_bind_ok.1 h
    obtain ⟨rfl, rfl⟩ : nextToken l = o ∧ _ = s₁ := by simpa using h₁
    split at h₂
    · obtain ⟨rfl, rfl⟩ : [] = as ∧ _ = s' := by simpa using h₂
      exact ⟨[], l, rfl, rfl, .nil⟩
    · obtain ⟨a, s₂, h₃, h₄⟩ := run_bind_ok.1 h₂
      obtain ⟨used, l₁, rfl, rfl, ha⟩ := hitem h₃
      obtain ⟨b, s₃, h₅, h₆⟩ := run_bind_ok.1 h₄
      rcases mark?_ok h₅ with ⟨comma, l₂, rfl, rfl, rfl⟩ | ⟨rfl, -, rfl⟩
      · obtain ⟨more, h₇, rfl⟩ := run_map_ok.1 h₆
        obtain ⟨used', rest, rfl, rfl, hmore⟩ := sound_listUntil_go hitem n h₇
        exact ⟨used ++ .mark .comma comma :: used', rest, by simp, rfl, .cons comma ha hmore⟩
      · obtain ⟨rfl, rfl⟩ : [a] = as ∧ _ = s' := by simpa using h₆
        exact ⟨used, l₁, rfl, rfl, .last ha⟩

theorem sound_listUntil {close : Mark} {item : Parser α} (hitem : Sound item r) :
    Sound (listUntil close item) (IsListed r) := by
  intro l stop bound as s' h
  obtain ⟨n, s₁, h₁, h₂⟩ := run_bind_ok.1 h
  obtain ⟨rfl, rfl⟩ : bound = n ∧ _ = s₁ := by simpa using h₁
  exact sound_listUntil_go hitem _ h₂

theorem complete_listUntil {c : Mark} {p : Parser α} {u w : List Lexeme} {as : List α}
    (h : IsListed r u as) (hclose : c ≠ .comma)
    (hitem : ∀ (a : α) (u tail : List Lexeme), r u a → f tail → u.length ≤ b →
      p.run ⟨u ++ tail, e, b⟩ = .ok (a, ⟨tail, e, b⟩))
    (hstart : ∀ u a, r u a → ∃ x ls, u = x :: ls ∧ x.token ≠ .mark c)
    (hcomma : ∀ span l, f (.mark .comma span :: l)) (hfollow : f w)
    (hend : nextToken w = some (.mark c)) (hb : u.length ≤ b) :
    (listUntil c p).run ⟨u ++ w, e, b⟩ = .ok (as, ⟨w, e, b⟩) := by
  suffices ∀ n, u.length ≤ n → u.length ≤ b →
      (listUntil.go c p (n + 1)).run ⟨u ++ w, e, b⟩ = .ok (as, ⟨w, e, b⟩) by
    simpa [listUntil] using this b hb hb
  have hne : nextToken w ≠ some (.mark .comma) := by simpa [hend] using hclose
  clear hb
  induction h with
  | nil =>
    intro n _ _
    simp [listUntil.go, hend]
  | last ha =>
    intro n _ hb
    have hrun := hitem _ _ w ha hfollow hb
    obtain ⟨x, ls, rfl, hx⟩ := hstart _ _ ha
    simp only [List.cons_append] at hrun
    simp [listUntil.go, hx, hrun, run_mark?_of_ne hne]
  | @cons head tail a as comma ha _ ih =>
    intro n hn hb
    simp only [List.append_assoc, List.cons_append]
    simp only [List.length_append, List.length_cons] at hn hb
    have hrun := hitem _ _ _ ha (hcomma comma (tail ++ w)) (by omega)
    obtain ⟨n, rfl⟩ : ∃ k, n = k + 1 := ⟨n - 1, by omega⟩
    have hrest := ih n (by omega) (by omega)
    obtain ⟨x, ls, rfl, hx⟩ := hstart _ _ ha
    simp only [List.cons_append] at hrun
    rw [listUntil.go]
    simp [hx, hrun, hrest]

end Loops

end Parser

end SchemaLang
