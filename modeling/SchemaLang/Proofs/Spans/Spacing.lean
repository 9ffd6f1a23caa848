import SchemaLang.Proofs.Spans.Parsing
import SchemaLang.Proofs.Spans.Scanning

/-!
# Spacing

Blanks and comments separate tokens and mean nothing else.  A text that spells the tokens of a
source in their order, with any trivia around them, is lexed into the same tokens and parsed with
the same outcome up to spans: `parse_spaced`.
-/

namespace SchemaLang

/-! ## Trivia -/

/-- Blanks and comments, each comment closed by a line feed. -/
inductive IsTrivia : List Char → Prop
  | nil : IsTrivia []
  | blank {c : Char} {cs : List Char} (isBlank : isBlank c) (rest : IsTrivia cs) :
    IsTrivia (c :: cs)
  | comment {body cs : List Char} (line : ∀ c ∈ body, c ≠ '\n') (rest : IsTrivia cs) :
    IsTrivia ('#' :: (body ++ '\n' :: cs))

/-- Blanks and comments at the end of a text, where the last comment may stay open. -/
inductive IsFinalTrivia : List Char → Prop
  | closed {cs : List Char} (trivia : IsTrivia cs) : IsFinalTrivia cs
  | comment {cs body : List Char} (trivia : IsTrivia cs) (line : ∀ c ∈ body, c ≠ '\n') :
    IsFinalTrivia (cs ++ '#' :: body)

/-- The tokens one after the other, with trivia between any two and after the last. -/
inductive SpacedFrom : List Token → List Char → Prop
  | nil : SpacedFrom [] []
  | last {t : Token} {after : List Char} (trivia : IsFinalTrivia after) :
    SpacedFrom [t] (t.spelling.toList ++ after)
  | cons {t t' : Token} {ts : List Token} {gap rest : List Char} (trivia : IsTrivia gap)
    (nonempty : gap ≠ []) (next : SpacedFrom (t' :: ts) rest) :
    SpacedFrom (t :: t' :: ts) (t.spelling.toList ++ (gap ++ rest))

/-- A text that consists of the tokens and of trivia between, before and after them. -/
inductive Spaced : List Token → List Char → Prop
  | trivia {cs : List Char} (trivia : IsFinalTrivia cs) : Spaced [] cs
  | tokens {t : Token} {ts : List Token} {before rest : List Char} (trivia : IsTrivia before)
    (next : SpacedFrom (t :: ts) rest) : Spaced (t :: ts) (before ++ rest)

/-- What may follow a token in a spaced text. -/
def Separates (rest : List Char) : Prop := ∀ c ∈ rest.head?, isBlank c ∨ c = '#'

theorem IsTrivia.separates {gap : List Char} (h : IsTrivia gap) (hne : gap ≠ [])
    (rest : List Char) : Separates (gap ++ rest) := by
  intro c hc
  cases h with
  | nil => exact absurd rfl hne
  | blank hblank =>
    obtain rfl := Option.some.inj hc
    exact .inl hblank
  | comment =>
    obtain rfl := Option.some.inj hc
    exact .inr rfl

theorem IsFinalTrivia.separates {after : List Char} (h : IsFinalTrivia after) :
    Separates after := by
  cases h with
  | closed h =>
    by_cases hne : after = []
    · subst hne
      exact nofun
    · simpa using h.separates hne []
  | @comment cs body h =>
    by_cases hne : cs = []
    · subst hne
      intro c hc
      exact .inr (Option.some.inj hc).symm
    · exact h.separates hne _

/-- Trivia continues no token. -/
theorem endsBefore_of_separates {t : Token} {rest : List Char} (h : Separates rest) :
    t.EndsBefore rest := by
  have hword : ∀ c ∈ rest.head?, ¬ isWordChar c := by
    intro c hc hw
    rcases h c hc with hblank | rfl
    · exact isBlank_of_isWordChar hw hblank
    · exact absurd hw (by decide)
  have hne : ∀ x, ¬ isBlank x → x ≠ '#' → ∀ c ∈ rest.head?, c ≠ x := by
    rintro x hx hhash c hc rfl
    exact (h c hc).elim hx hhash
  cases t with
  | keyword k => exact hword
  | name s => exact hword
  | number s =>
    exact fun c hc => ⟨hword c hc, hne '.' (by decide) (by decide) c hc,
      hne '+' (by decide) (by decide) c hc, hne '-' (by decide) (by decide) c hc⟩
  | mark m =>
    cases m with
    | minus => exact fun hc => hne '>' (by decide) (by decide) '>' hc rfl
    | _ => trivial
  | text raw => trivial
  | singleQuoted raw => trivial

/-! ## Lexing -/

namespace Lexed

/-- A comment is skipped up to its line feed. -/
theorem walk_line {body : List Char} (h : ∀ c ∈ body, c ≠ '\n') {w : List Char}
    (hw : ∀ c ∈ w.head?, c = '\n') :
    ∀ pos, ∃ pos', walk pos 0 ('#' :: (body ++ w)) = walk pos' 0 w := by
  intro pos
  have hspan := span_append (p := (· ≠ '\n')) (u := body) (w := w) (by simpa using h)
    (by simpa using hw)
  rw [List.span_eq_takeWhile_dropWhile] at hspan
  have hscan : scan '#' (body ++ w) = .trivia body.length := by
    unfold scan
    rw [if_neg (by decide), if_pos rfl, (Prod.mk.inj hspan).1]
  obtain ⟨pos', hpos'⟩ := walk_append (u := body) (w := w) (pos + '#'.utf8Size)
  exact ⟨pos', by rw [walk, hscan, after, hpos']⟩

theorem walk_blank {c : Char} (h : isBlank c) (w : List Char) (pos : Nat) :
    ∃ pos', walk pos 0 (c :: w) = walk pos' 0 w :=
  walk_blanks (u := [c]) (List.forall_mem_singleton.2 h) pos

/-- Trivia is skipped. -/
theorem walk_trivia {u : List Char} (h : IsTrivia u) (w : List Char) :
    ∀ pos, ∃ pos', walk pos 0 (u ++ w) = walk pos' 0 w := by
  induction h with
  | nil => exact fun pos => ⟨pos, rfl⟩
  | blank hblank _ ih =>
    intro pos
    obtain ⟨pos₁, h₁⟩ := walk_blank hblank (_ ++ w) pos
    obtain ⟨pos₂, h₂⟩ := ih pos₁
    exact ⟨pos₂, h₁.trans h₂⟩
  | @comment body cs line _ ih =>
    intro pos
    obtain ⟨pos₁, h₁⟩ := walk_line line (w := '\n' :: (cs ++ w)) (by simp) pos
    obtain ⟨pos₂, h₂⟩ := walk_blank (c := '\n') (by decide) (cs ++ w) pos₁
    obtain ⟨pos₃, h₃⟩ := ih pos₂
    refine ⟨pos₃, ?_⟩
    rw [List.cons_append, List.append_assoc, List.cons_append, h₁, h₂, h₃]

theorem walk_finalTrivia {u : List Char} (h : IsFinalTrivia u) (pos : Nat) :
    walk pos 0 u = ⟨[], none⟩ := by
  cases h with
  | closed h =>
    obtain ⟨pos', hpos'⟩ := walk_trivia h [] pos
    rw [List.append_nil] at hpos'
    exact hpos'
  | comment h line =>
    obtain ⟨pos₁, h₁⟩ := walk_trivia h ('#' :: _) pos
    obtain ⟨pos₂, h₂⟩ := walk_line line (w := []) nofun pos₁
    rw [List.append_nil] at h₂
    exact h₁.trans h₂

/-- The walk reads these tokens and meets no error. -/
def Reads (pos : Nat) (cs : List Char) (ts : List Token) : Prop :=
  (walk pos 0 cs).error = none ∧ (walk pos 0 cs).lexemes.map Lexeme.token = ts

/-- A token that the lexer reads somewhere is read before trivia and the end. -/
theorem reads_cons {t : Token} (ht : ∃ c cs n, scan c cs = .token t n) {rest : List Char}
    (hr : Separates rest) {ts : List Token} (h : ∀ pos, Reads pos rest ts) (pos : Nat) :
    Reads pos (t.spelling.toList ++ rest) (t :: ts) := by
  obtain ⟨c, cs, n, hscan⟩ := ht
  obtain ⟨hspelling, hlength, hagain⟩ := scan_take hscan
  obtain ⟨pos', hpos'⟩ := walk_append (u := cs.take n) (w := rest) (pos + c.utf8Size)
  rw [hlength] at hpos'
  obtain ⟨herror, htokens⟩ := h pos'
  rw [hspelling, List.cons_append, Reads, walk, hagain rest (endsBefore_of_separates hr), after,
    hpos']
  exact ⟨herror, by rw [List.map_cons, htokens]⟩

theorem reads_spacedFrom {ts : List Token} {cs : List Char} (h : SpacedFrom ts cs)
    (hts : ∀ t ∈ ts, ∃ c rest n, scan c rest = .token t n) : ∀ pos, Reads pos cs ts := by
  induction h with
  | nil => exact fun _ => ⟨rfl, rfl⟩
  | last trivia =>
    refine reads_cons (hts _ List.mem_cons_self) trivia.separates fun pos => ?_
    rw [Reads, walk_finalTrivia trivia]
    exact ⟨rfl, rfl⟩
  | cons trivia nonempty _ ih =>
    obtain ⟨ht, hts⟩ := List.forall_mem_cons.1 hts
    refine reads_cons ht (trivia.separates nonempty _) fun pos => ?_
    obtain ⟨pos', hpos'⟩ := walk_trivia trivia _ pos
    rw [Reads, hpos']
    exact ih hts pos'

/-- The lexer reads the tokens of a spaced text. -/
theorem reads_spaced {ts : List Token} {cs : List Char} (h : Spaced ts cs)
    (hts : ∀ t ∈ ts, ∃ c rest n, scan c rest = .token t n) : Reads 0 cs ts := by
  cases h with
  | trivia h =>
    rw [Reads, walk_finalTrivia h]
    exact ⟨rfl, rfl⟩
  | tokens trivia next =>
    obtain ⟨pos', hpos'⟩ := walk_trivia trivia _ 0
    rw [Reads, hpos']
    exact reads_spacedFrom next hts pos'

end Lexed

/-! ## Parsing -/

/-- The outcomes are modules that differ at most in their spans, or violations of the grammar with
the same cause. -/
inductive SameUpToSpans : Except ParseError Module → Except ParseError Module → Prop
  | ok {m m' : Module} (bare : m.eraseSpans = m'.eraseSpans) : SameUpToSpans (.ok m) (.ok m')
  | grammar {e e' : GrammarError} (cause : e.cause = e'.cause) :
    SameUpToSpans (.error (.grammar e)) (.error (.grammar e'))

theorem alike_of_tokens_eq {l l' : List Lexeme}
    (h : l'.map Lexeme.token = l.map Lexeme.token) :
    List.Forall₂ (fun x x' => x.token = x'.token ∧ True) l l' := by
  have htokens : List.Forall₂ Eq (l.map Lexeme.token) (l'.map Lexeme.token) := by
    rw [List.forall₂_eq_eq_eq, h]
  rw [List.forall₂_map_left_iff, List.forall₂_map_right_iff] at htokens
  exact htokens.imp fun _ _ ht => ⟨ht, trivial⟩

theorem parse_of_error_none {source : String} (h : (Lexed.ofText source).error = none) :
    Module.parse source =
      (Module.ofLexemes (Lexed.ofText source).lexemes source.utf8ByteSize).mapError .grammar := by
  unfold Module.parse
  generalize Lexed.ofText source = lexed at h
  obtain ⟨lexemes, error⟩ := lexed
  obtain rfl : error = none := h
  rfl

/-- Sources with the same tokens are parsed with the same outcome up to spans. -/
theorem parse_of_tokens_eq {source source' : String} (h : (Lexed.ofText source).error = none)
    (h' : (Lexed.ofText source').error = none)
    (htokens : (Lexed.ofText source').lexemes.map Lexeme.token =
      (Lexed.ofText source).lexemes.map Lexeme.token) :
    SameUpToSpans (Module.parse source) (Module.parse source') := by
  have hsame : SameOutcome (.ofSpans (fun _ _ => True) fun _ _ => trivial) (Alike fun _ _ => True)
      (Module.ofLexemes (Lexed.ofText source).lexemes source.utf8ByteSize)
      (Module.ofLexemes (Lexed.ofText source').lexemes source'.utf8ByteSize) :=
    ofLexemes_alike (fun _ _ => trivial) (alike_of_tokens_eq htokens) trivial
  rw [parse_of_error_none h, parse_of_error_none h']
  revert hsame
  generalize Module.ofLexemes _ source.utf8ByteSize = x, Module.ofLexemes _ source'.utf8ByteSize = y
  intro hsame
  cases hsame with
  | ok halike => exact .ok halike.bare
  | error _ causes => exact .grammar (causes.eq id)

/-- Layout is irrelevant.  The tokens of a source that is lexed without an error are spelled as they
stand in the source, and every text that spells them in their order, with trivia between them and
around them, has the same tokens and is parsed with the same outcome up to spans. -/
theorem parse_spaced {source source' : String} (h : (Lexed.ofText source).error = none)
    (hspaced : Spaced ((Lexed.ofText source).lexemes.map Lexeme.token) source'.toList) :
    (∀ x ∈ (Lexed.ofText source).lexemes, x.span.Spells source x.token.spelling) ∧
      (Lexed.ofText source').error = none ∧
      (Lexed.ofText source').lexemes.map Lexeme.token =
        (Lexed.ofText source).lexemes.map Lexeme.token ∧
      SameUpToSpans (Module.parse source) (Module.parse source') := by
  have hscanned : ∀ t ∈ (Lexed.ofText source).lexemes.map Lexeme.token,
      ∃ c rest n, scan c rest = .token t n := by
    intro t ht
    obtain ⟨x, hx, rfl⟩ := List.mem_map.1 ht
    exact Lexed.exists_scan_of_mem _ _ _ x hx
  obtain ⟨herror, htokens⟩ := Lexed.reads_spaced hspaced hscanned
  exact ⟨fun _ => Lexed.spells_of_mem, herror, htokens, parse_of_tokens_eq h herror htokens⟩

theorem parse_spaced_comments :
    (Lexed.ofText "@0x1;").error = none ∧
      Spaced ((Lexed.ofText "@0x1;").lexemes.map Lexeme.token) "#a\n@\t0x1 #\n;#".toList ∧
      SameUpToSpans (Module.parse "@0x1;") (Module.parse "#a\n@\t0x1 #\n;#") := by
  have hlex : (Lexed.ofText "@0x1;").error = none := by decide
  have hspaced : Spaced ((Lexed.ofText "@0x1;").lexemes.map Lexeme.token)
      "#a\n@\t0x1 #\n;#".toList := by
    have htokens : (Lexed.ofText "@0x1;").lexemes.map Lexeme.token =
      [.mark .atSign, .number "0x1", .mark .semicolon] := by decide
    have htext : "#a\n@\t0x1 #\n;#".toList = ('#' :: (['a'] ++ '\n' :: [])) ++
        ((Token.mark .atSign).spelling.toList ++ (['\t'] ++ ((Token.number "0x1").spelling.toList ++
          ((' ' :: '#' :: ([] ++ '\n' :: [])) ++
            ((Token.mark .semicolon).spelling.toList ++ ([] ++ '#' :: [])))))) := by decide
    have hlast : IsFinalTrivia ([] ++ '#' :: []) := .comment .nil nofun
    have hgap : IsTrivia (' ' :: '#' :: ([] ++ '\n' :: [])) := .blank rfl (.comment nofun .nil)
    rw [htokens, htext]
    have hcomment : ∀ c ∈ ['a'], c ≠ '\n' := List.forall_mem_singleton.2 (by decide)
    exact .tokens (.comment hcomment .nil)
      (.cons (.blank rfl .nil) nofun (.cons hgap nofun (.last hlast)))
  exact ⟨hlex, hspaced, (parse_spaced hlex hspaced).2.2.2⟩

end SchemaLang
