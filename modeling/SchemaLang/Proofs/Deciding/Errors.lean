import SchemaLang.Proofs.Deciding.Decls
import SchemaLang.Proofs.Spanning.Parsing

/-!
# Errors are decided by what precedes them

A grammar error that is not about the end of the source depends on the lexemes up to the last one
inside its span only: whatever follows these, the same error is reported (`parse_error_decided`).

The error stands at lexemes: at the end of the source it would move with the end.  So there is a
last lexeme inside it, and no error that arises behind this one ends with it.
-/

namespace SchemaLang

/-! ## Runs on lexemes that begin alike -/

theorem ofLexemes_eq_error_iff {ls : List Lexeme} {stop : Nat} {e : GrammarError} :
    Module.ofLexemes ls stop = .error e ↔
      Parser.file.run ⟨ls, stop, ls.length⟩ = .error e := by
  rw [Module.ofLexemes]
  cases Parser.file.run ⟨ls, stop, ls.length⟩ with
  | error e' => simp
  | ok r => simp

/-- An error is reported on all lexemes that begin alike, unless it reaches beyond these. -/
theorem ofLexemes_error_append {c l : List Lexeme} {stop : Nat} {e : GrammarError}
    (h : Module.ofLexemes (c ++ l) stop = .error e) :
    (e.Reaches l ∨ e.AtEnd stop) ∨
      ∀ l' stop', Module.ofLexemes (c ++ l') stop' = .error e := by
  rw [ofLexemes_eq_error_iff] at h
  have hfits (l : List Lexeme) (stop : Nat) :
      Stream.Fits ((c ++ l).length + 1) (Stream.behind ⟨l, stop, (c ++ l).length⟩ c) :=
    ⟨Nat.lt_succ_self _, Nat.le_refl _⟩
  by_cases hc : c = []
  · subst hc
    have hfile : Parser.Decided (l.length + 1) 0 Parser.file Parser.file := Parser.decided_file
    have hbeyond := hfile.beyond _ (hfits l stop)
    rw [Stream.behind, h] at hbeyond
    cases hbeyond with
    | error stands => exact .inl stands
  · by_cases hstands : e.Reaches l ∨ e.AtEnd stop
    · exact .inl hstands
    · refine .inr fun l' stop' => ofLexemes_eq_error_iff.2 ?_
      have hstep := Parser.decided_file.inStep c _ _ hc (hfits l stop) (hfits l' stop')
      rw [Stream.behind, h] at hstep
      generalize hrun : Parser.file.run (Stream.behind ⟨l', stop', (c ++ l').length⟩ c) = y at hstep
      cases hstep with
      | error => exact hrun
      | beyond hbeyond =>
        cases hbeyond with
        | error stands => exact absurd stands hstands

/-! ## The last lexeme of an error -/

/-- An error that stands at the end of the source is about the end. -/
theorem ofLexemes_of_not_atEnd {ls : List Lexeme} {stop : Nat} {e : GrammarError}
    (h : Module.ofLexemes ls stop = .error e) (hend : ¬e.AtEnd stop) : e.span.OfLexemes ls := by
  have hwhole : Module.ofLexemes (ls ++ []) stop = .error e := by rwa [List.append_nil]
  rcases ofLexemes_error_append hwhole with (⟨x, hx, -⟩ | hatEnd) | hothers
  · cases hx
  · exact absurd hatEnd hend
  · have hlonger := hothers [] (stop + 1)
    rw [List.append_nil] at hlonger
    rcases reported_of_ofLexemes h with hspan | hpoint
    · exact hspan
    · rcases reported_of_ofLexemes hlonger with hspan | hpoint'
      · exact hspan
      · rw [hpoint] at hpoint'
        have hstop : stop = stop + 1 := congrArg Span.stop hpoint'
        omega

/-- A span that runs from lexeme to lexeme ends with one, and none behind that ends in it. -/
theorem Span.OfLexemes.exists_last {ls : List Lexeme} {span : Span} (h : span.OfLexemes ls)
    (hls : InOrder ls) :
    ∃ before last after, ls = before ++ last :: after ∧ last.span.Within span ∧
      ∀ x ∈ after, ¬x.span.stop ≤ span.stop := by
  obtain ⟨first, -, last, hlast, hle, rfl⟩ := h
  obtain ⟨before, after, rfl⟩ := List.append_of_mem hlast
  refine ⟨before, last, after, rfl, ⟨hle, Nat.le_refl _⟩, fun x hx hstop => ?_⟩
  have hordered := hls.sublist (List.sublist_append_right before (last :: after))
  have hbefore : last.span.stop ≤ x.span.start := List.rel_of_pairwise_cons hordered.ordered hx
  have hpositive := hordered.positive x (List.mem_cons_of_mem _ hx)
  dsimp only at hstop
  omega

/-! ## Sources -/

theorem ofLexemes_of_parse_error {source : String} {e : GrammarError}
    (h : Module.parse source = .error (.grammar e)) :
    Module.ofLexemes (Lexed.ofText source).lexemes source.utf8ByteSize = .error e := by
  unfold Module.parse at h
  split at h
  · cases h
  · next lexemes hlexed =>
    rw [hlexed]
    cases hx : Module.ofLexemes lexemes source.utf8ByteSize with
    | ok m =>
      rw [hx] at h
      cases h
    | error e' =>
      rw [hx] at h
      obtain rfl := ParseError.grammar.inj (Except.error.inj h)
      rfl

/-- A source with a grammar error that is not about its end has a last lexeme inside the span of
the error, and all lexemes that agree up to this one, spans included, give the same error, whatever
comes after it. -/
theorem parse_error_decided {source : String} {e : GrammarError}
    (h : Module.parse source = .error (.grammar e)) (hend : ¬e.AtEnd source.utf8ByteSize) :
    ∃ before last after, (Lexed.ofText source).lexemes = before ++ last :: after ∧
      last.span.Within e.span ∧ (∀ x ∈ after, ¬x.span.Within e.span) ∧
      ∀ rest stop, Module.ofLexemes (before ++ last :: rest) stop = .error e := by
  have hparsed := ofLexemes_of_parse_error h
  obtain ⟨before, last, after, hlexemes, hlast, hafter⟩ :=
    (ofLexemes_of_not_atEnd hparsed hend).exists_last (inOrder_ofText source)
  refine ⟨before, last, after, hlexemes, hlast, fun x hx hwithin => hafter x hx hwithin.2, ?_⟩
  have hsplit : Module.ofLexemes ((before ++ [last]) ++ after) source.utf8ByteSize = .error e := by
    rw [List.append_assoc, List.singleton_append, ← hlexemes, hparsed]
  rcases ofLexemes_error_append hsplit with (⟨x, hx, hstop⟩ | hatEnd) | hothers
  · exact absurd hstop (hafter x hx)
  · exact absurd hatEnd hend
  · intro rest stop
    have hother := hothers rest stop
    rwa [List.append_assoc, List.singleton_append] at hother

/-- The error is at the colon, and the brace behind it does not matter. -/
theorem parse_error_decided_colon :
    ∃ e, Module.parse "@1;enum E\x7ba:\x7d" = .error (.grammar e) ∧
      e = ⟨⟨11, 12⟩, .unexpectedToken (.mark .colon) "`@`"⟩ ∧ ¬e.AtEnd 13 ∧
      ∃ before last after, (Lexed.ofText "@1;enum E\x7ba:\x7d").lexemes = before ++ last :: after ∧
        last.span.Within e.span ∧ (∀ x ∈ after, ¬x.span.Within e.span) ∧
        ∀ rest stop, Module.ofLexemes (before ++ last :: rest) stop = .error e := by
  have h : Module.parse "@1;enum E\x7ba:\x7d" =
      .error (.grammar ⟨⟨11, 12⟩, .unexpectedToken (.mark .colon) "`@`"⟩) :=
    error_of_failure? (by decide +kernel)
  have hend : ¬GrammarError.AtEnd ⟨⟨11, 12⟩, .unexpectedToken (.mark .colon) "`@`"⟩ 13 := by
    rintro (⟨expected, hcause⟩ | he)
    · cases hcause
    · cases he
  exact ⟨_, h, rfl, hend, parse_error_decided h hend⟩

end SchemaLang
