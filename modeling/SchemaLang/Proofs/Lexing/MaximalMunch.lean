import SchemaLang.Proofs.Lexing.Patterns
import SchemaLang.Proofs.Spans.Spacing

/-!
# Maximal munch

The reference tokenisation of a text: from each position, blanks and comments are skipped, then the
longest text that the pattern of any token matches is taken, and the first position where no pattern
matches yields the only error.  The lexer gives that tokenisation and loses nothing of its source,
`ofText_maximal_munch`.
-/

namespace SchemaLang

/-! ## The reference tokenisation -/

/-- The longest match of a pattern at the beginning of a text. -/
structure IsLongest (l : Language Char) (w cs : List Char) : Prop where
  begins : w <+: cs
  mem : w ∈ l
  longest : ∀ v ∈ l, v <+: cs → v.length ≤ w.length

/-- A match stands for the token that is spelled so and whose pattern it is; a keyword goes before a
name. -/
structure Token.Stands (t : Token) (w : List Char) : Prop where
  spelling : t.spelling.toList = w
  mem : w ∈ t.pattern
  keyword_first : ∀ k : Keyword, t ≠ .name k.text

/-- What an error covers where no token, blank or comment begins the text, and the cause it has: the
first character, or from a quote on all that may stand in a text. -/
inductive Rejects : List Char → List Char → LexCause → Prop
  | character {c : Char} {cs : List Char} (blank : ¬ isBlank c) (comment : c ≠ '#')
    (quote : c ≠ '"' ∧ c ≠ '\'') : Rejects (c :: cs) [c] (.unexpectedCharacter c)
  | text {q : Char} {cs w : List Char} (quote : q = '"' ∨ q = '\'')
    (covered : IsLongest (Pattern.unclosed q) w (q :: cs)) :
    Rejects (q :: cs) w (.unterminatedText q)

/-- The tokenisation of the characters from byte `pos` on. -/
inductive Tokenises : Nat → List Char → Lexed → Prop
  | done {pos : Nat} : Tokenises pos [] ⟨[], none⟩
  | blank {pos : Nat} {c : Char} {cs : List Char} {lexed : Lexed} (isBlank : isBlank c)
    (next : Tokenises (pos + c.utf8Size) cs lexed) : Tokenises pos (c :: cs) lexed
  | comment {pos : Nat} {w cs : List Char} {lexed : Lexed}
    (longest : IsLongest Pattern.comment w (w ++ cs))
    (next : Tokenises (pos + byteSize w) cs lexed) : Tokenises pos (w ++ cs) lexed
  | token {pos : Nat} {t : Token} {w cs : List Char} {lexed : Lexed}
    (longest : IsLongest Pattern.token w (w ++ cs)) (stands : t.Stands w)
    (next : Tokenises (pos + byteSize w) cs lexed) :
    Tokenises pos (w ++ cs) ⟨⟨t, pos, pos + byteSize w⟩ :: lexed.lexemes, lexed.error⟩
  | error {pos : Nat} {w cs : List Char} {cause : LexCause}
    (noToken : ∀ v ∈ Pattern.token, ¬ v <+: cs) (rejects : Rejects cs w cause) :
    Tokenises pos cs ⟨[], some ⟨⟨pos, pos + byteSize w⟩, cause⟩⟩

theorem IsLongest.unique {l : Language Char} {w v cs : List Char} (h : IsLongest l w cs)
    (h' : IsLongest l v cs) : w = v := by
  have hlength : w.length = v.length :=
    Nat.le_antisymm (h'.longest w h.mem h.begins) (h.longest v h'.mem h'.begins)
  rw [List.prefix_iff_eq_take.1 h.begins, List.prefix_iff_eq_take.1 h'.begins, hlength]

/-! ## Tokens -/

theorem ne_nil_of_mem_pattern {t : Token} {w : List Char} (h : w ∈ t.pattern) : w ≠ [] := by
  rintro rfl
  cases t with
  | keyword k =>
    obtain ⟨c, cs, hk, -⟩ := keyword_text k
    exact absurd (Eq.trans h hk) nofun
  | mark m => cases m <;> exact absurd h nofun
  | name s => obtain ⟨_, _, e, -⟩ := Pattern.mem_name.1 h; cases e
  | number s => obtain ⟨_, _, e, -⟩ := Pattern.mem_number.1 h; cases e
  | text raw => obtain ⟨_, e, -⟩ := Pattern.mem_quoted.1 h; cases e
  | singleQuoted raw => obtain ⟨_, e, -⟩ := Pattern.mem_quoted.1 h; cases e

theorem stands_of_scan {c : Char} {cs : List Char} {t : Token} {n : Nat}
    (h : scan c cs = .token t n) : t.Stands (c :: cs.take n) := by
  refine ⟨(scan_take h).1, (matches_of_scan h).1, fun k e => ?_⟩
  obtain ⟨_, _, _, _, _, hkeyword⟩ := (isGenuine_of_scan h).1 _ e
  have hsome : Keyword.ofText? k.text = some k := by cases k <;> rfl
  simp [hsome] at hkeyword

/-- A match is scanned as the token that it stands for. -/
theorem scan_of_stands {t : Token} {c : Char} {u : List Char} (h : t.Stands (c :: u)) :
    scan c u = .token t u.length := by
  have of_wellFormed (ht : t.WellFormed) (hends : t.EndsBefore []) :
      scan c u = .token t u.length := by
    obtain ⟨c', u', hspelling, hscan⟩ := scan_spelling ht hends
    obtain ⟨rfl, rfl⟩ := List.cons.inj (hspelling.symm.trans h.spelling)
    rwa [List.append_nil] at hscan
  cases t with
  | keyword k => exact of_wellFormed trivial (by simp [Token.EndsBefore])
  | mark m =>
    apply of_wellFormed trivial
    cases m <;> simp [Token.EndsBefore]
  | name s =>
    obtain ⟨c', u', hw, hc, hu⟩ := Pattern.mem_name.1 h.mem
    have hkeyword : Keyword.ofText? s = none := by
      rw [Option.eq_none_iff_forall_ne_some]
      intro k hk
      have htext : k.text = s := by simpa using List.find?_some hk
      exact h.keyword_first k (by rw [htext])
    exact of_wellFormed ⟨c', u', h.spelling.trans hw, hc, hu, hkeyword⟩
      (by simp [Token.EndsBefore])
  | number s =>
    obtain ⟨c', u', hw, hc, hu⟩ := Pattern.mem_number.1 h.mem
    exact of_wellFormed ⟨c', u', h.spelling.trans hw, hc, hu⟩
      (by simp [Token.EndsBefore, EndsNumber])
  | text raw =>
    obtain ⟨body, e, hbody⟩ := Pattern.mem_quoted.1 h.mem
    obtain ⟨rfl, rfl⟩ := List.cons.inj e
    have hraw : raw.toList = body := by simpa [Token.spelling] using h.spelling
    have hclose := hbody.ofQuote_close (by decide) .text []
    rw [List.append_nil] at hclose
    rw [scan_doubleQuote, hclose]
    simp [← hraw]
  | singleQuoted raw =>
    obtain ⟨body, e, hbody⟩ := Pattern.mem_quoted.1 h.mem
    obtain ⟨rfl, rfl⟩ := List.cons.inj e
    have hraw : raw.toList = body := by simpa [Token.spelling] using h.spelling
    have hclose := hbody.ofQuote_close (by decide) .singleQuoted []
    rw [List.append_nil] at hclose
    rw [scan_singleQuote, hclose]
    simp [← hraw]

theorem Token.Stands.unique {t t' : Token} {w : List Char} (h : t.Stands w) (h' : t'.Stands w) :
    t = t' := by
  obtain ⟨c, u, rfl⟩ := List.exists_cons_of_ne_nil (ne_nil_of_mem_pattern h.mem)
  exact (Scan.token.inj ((scan_of_stands h).symm.trans (scan_of_stands h'))).1

/-- Where any pattern matches, the scan takes a token that is at least as long as the match. -/
theorem exists_scan_of_prefix {v cs : List Char} {c : Char} (hv : v ∈ Pattern.token)
    (hbegins : v <+: c :: cs) : ∃ t n, scan c cs = .token t n ∧ v.length ≤ n + 1 := by
  obtain ⟨t, ht⟩ := hv
  obtain ⟨d, u, rfl⟩ := List.exists_cons_of_ne_nil (ne_nil_of_mem_pattern ht)
  obtain ⟨rfl, rest, rfl⟩ := List.cons_prefix_cons.1 hbegins
  obtain ⟨t', n, hscan, hle⟩ := exists_scan_of_matches ht rest
  exact ⟨t', n, hscan, Nat.succ_le_succ hle⟩

/-- What the scan takes is the longest match of any pattern. -/
theorem isLongest_of_scan {c : Char} {cs : List Char} {t : Token} {n : Nat}
    (h : scan c cs = .token t n) : IsLongest Pattern.token (c :: cs.take n) (c :: cs) := by
  obtain ⟨hmem, hle⟩ := matches_of_scan h
  refine ⟨List.cons_prefix_cons.2 ⟨rfl, List.take_prefix n cs⟩, ⟨t, hmem⟩, fun v hv hbegins => ?_⟩
  obtain ⟨t', n', h', hlength⟩ := exists_scan_of_prefix hv hbegins
  obtain ⟨-, rfl⟩ := Scan.token.inj (h.symm.trans h')
  simpa [Nat.min_eq_left hle] using hlength

/-- The longest match of any pattern is what the scan takes. -/
theorem scan_of_isLongest {t : Token} {c : Char} {u rest : List Char}
    (h : IsLongest Pattern.token (c :: u) (c :: (u ++ rest))) (hstands : t.Stands (c :: u)) :
    scan c (u ++ rest) = .token t u.length := by
  obtain ⟨t', n, hscan, -⟩ := exists_scan_of_prefix h.mem h.begins
  have hword : c :: u = c :: (u ++ rest).take n := h.unique (isLongest_of_scan hscan)
  have hlength : u.length = n := by
    have := congrArg List.length hword
    have := (matches_of_scan hscan).2
    simp only [List.length_cons, List.length_take] at *
    omega
  have htoken := stands_of_scan hscan
  rw [← hword] at htoken
  rw [hscan, hstands.unique htoken, hlength]

/-! ## Trivia and errors -/

theorem scan_eq_trivia_iff {c : Char} {cs : List Char} {n : Nat} : scan c cs = .trivia n ↔
    (isBlank c ∧ n = 0) ∨ (c = '#' ∧ n = (cs.takeWhile (· ≠ '\n')).length) := by
  by_cases hblank : isBlank c
  · have hhash : c ≠ '#' := by
      rintro rfl
      exact absurd hblank (by decide)
    have hscan : scan c cs = .trivia 0 := if_pos hblank
    simp [hscan, hblank, hhash, eq_comm]
  · by_cases hhash : c = '#'
    · subst hhash
      have hscan : scan '#' cs = .trivia (cs.takeWhile (· ≠ '\n')).length := rfl
      simp [hscan, hblank, eq_comm]
    · refine iff_of_false (fun h => ?_) (by simp [hblank, hhash])
      unfold scan at h
      rw [if_neg hblank, if_neg hhash] at h
      unfold Scan.ofQuote at h
      repeat' split at h
      all_goals cases h

theorem mem_comment {w : List Char} :
    w ∈ Pattern.comment ↔ ∃ u, w = '#' :: u ∧ ∀ c ∈ u, c ≠ '\n' := by
  rw [Pattern.comment, Pattern.mem_one_mul]
  constructor
  · rintro ⟨_, u, rfl, rfl, hu⟩
    exact ⟨u, rfl, Pattern.mem_kstar_one.1 hu⟩
  · rintro ⟨u, rfl, hu⟩
    exact ⟨'#', u, rfl, rfl, Pattern.mem_kstar_one.2 hu⟩

theorem isLongest_comment (cs : List Char) :
    IsLongest Pattern.comment ('#' :: cs.takeWhile (· ≠ '\n')) ('#' :: cs) := by
  refine ⟨List.cons_prefix_cons.2 ⟨rfl, List.takeWhile_prefix _⟩, mem_comment.2 ⟨_, rfl, ?_⟩, ?_⟩
  · exact fun c hc => of_decide_eq_true (List.all_eq_true.1 List.all_takeWhile c hc)
  · intro v hv hbegins
    obtain ⟨u, rfl, hu⟩ := mem_comment.1 hv
    obtain ⟨-, rest, rfl⟩ := List.cons_prefix_cons.1 hbegins
    rw [List.takeWhile_append_of_pos (by simpa using hu)]
    simp

/-- An unclosed text is covered as far as anything may stand in a text. -/
theorem isLongest_unclosed {q : Char} {cs : List Char} {n : Nat}
    (h : Scan.quoted q cs = (false, n)) :
    IsLongest (Pattern.unclosed q) (q :: cs.take n) (q :: cs) := by
  obtain ⟨body, hbody, hle, htake⟩ := exists_isTextBody_of_quoted h
  have htake : cs.take n = body := by simpa using htake
  refine ⟨List.cons_prefix_cons.2 ⟨rfl, List.take_prefix n cs⟩, ?_, ?_⟩
  · rw [htake]
    exact Pattern.mem_unclosed.2 ⟨body, rfl, hbody⟩
  · intro v hv hbegins
    obtain ⟨body', rfl, hbody'⟩ := Pattern.mem_unclosed.1 hv
    obtain ⟨-, rest, rfl⟩ := List.cons_prefix_cons.1 hbegins
    rw [hbody'.quoted_append, Prod.mk.injEq] at h
    simp only [List.length_cons, List.length_take]
    omega

theorem rejects_of_ofQuote {q : Char} (hq : q = '"' ∨ q = '\'') {make : String → Token}
    {cs : List Char} {cause : LexCause} {n : Nat} (h : Scan.ofQuote q make cs = .invalid cause n) :
    Rejects (q :: cs) (q :: cs.take n) cause := by
  unfold Scan.ofQuote at h
  split at h
  · cases h
  · next m hquoted =>
    obtain ⟨rfl, rfl⟩ := Scan.invalid.inj h
    exact .text hq (isLongest_unclosed hquoted)

theorem rejects_of_scan {c : Char} {cs : List Char} {cause : LexCause} {n : Nat}
    (h : scan c cs = .invalid cause n) : Rejects (c :: cs) (c :: cs.take n) cause := by
  by_cases hdouble : c = '"'
  · subst hdouble
    rw [scan_doubleQuote] at h
    exact rejects_of_ofQuote (.inl rfl) h
  by_cases hsingle : c = '\''
  · subst hsingle
    rw [scan_singleQuote] at h
    exact rejects_of_ofQuote (.inr rfl) h
  unfold scan at h
  split at h
  · cases h
  · next hblank =>
    split at h
    · cases h
    · next hhash =>
      repeat' split at h
      all_goals cases h
      exact .character hblank hhash ⟨hdouble, hsingle⟩

theorem Rejects.unique {cs w w' : List Char} {cause cause' : LexCause} (h : Rejects cs w cause)
    (h' : Rejects cs w' cause') : w = w' ∧ cause = cause' := by
  cases h with
  | character blank comment quote =>
    cases h' with
    | character => exact ⟨rfl, rfl⟩
    | text quote' => exact absurd quote' (not_or.2 quote)
  | text quote covered =>
    cases h' with
    | character _ _ quote' => exact absurd quote (not_or.2 quote')
    | text _ covered' => exact ⟨covered.unique covered', rfl⟩

/-- Where an error is, there is neither a blank nor a comment. -/
theorem Rejects.scan_ne_trivia {c : Char} {cs w : List Char} {cause : LexCause}
    (h : Rejects (c :: cs) w cause) (n : Nat) : scan c cs ≠ .trivia n := by
  rw [ne_eq, scan_eq_trivia_iff]
  cases h with
  | character blank comment => simp [blank, comment]
  | text quote => rcases quote with rfl | rfl <;> simp [isBlank]

/-! ## The walk -/

namespace Lexed

/-- The rest of what was scanned last is skipped. -/
theorem walk_skip (u w : List Char) :
    ∀ pos, walk pos u.length (u ++ w) = walk (pos + byteSize u) 0 w := by
  induction u with
  | nil => exact fun pos => rfl
  | cons c u ih =>
    intro pos
    rw [List.length_cons, List.cons_append, walk, ih, byteSize_cons, Nat.add_assoc]

theorem walk_take {cs : List Char} {n : Nat} (h : n ≤ cs.length) (pos : Nat) :
    walk pos n cs = walk (pos + byteSize (cs.take n)) 0 (cs.drop n) := by
  have hskip := walk_skip (cs.take n) (cs.drop n) pos
  rwa [List.take_append_drop, List.length_take_of_le h] at hskip

/-- The walk gives a tokenisation. -/
theorem tokenises_walk (cs : List Char) (pos : Nat) : Tokenises pos cs (walk pos 0 cs) := by
  induction hlength : cs.length using Nat.strongRecOn generalizing cs pos with
  | _ len ih =>
  subst hlength
  cases cs with
  | nil => exact .done
  | cons c cs =>
    have hdrop (n pos : Nat) : Tokenises pos (cs.drop n) (walk pos 0 (cs.drop n)) :=
      ih _ (by simp only [List.length_drop, List.length_cons]; omega) _ _ rfl
    have hsplit (n : Nat) : c :: cs = (c :: cs.take n) ++ cs.drop n := by simp
    cases hscan : scan c cs with
    | trivia n =>
      rw [walk, hscan, after]
      rcases scan_eq_trivia_iff.1 hscan with ⟨hblank, rfl⟩ | ⟨rfl, rfl⟩
      · exact .blank hblank (hdrop 0 _)
      · have hbegins := List.takeWhile_prefix (l := cs) (· ≠ '\n')
        have htake := (List.prefix_iff_eq_take.1 hbegins).symm
        have hlongest := isLongest_comment cs
        rw [← htake, hsplit] at hlongest
        rw [walk_take hbegins.length_le, Nat.add_assoc, ← byteSize_cons, hsplit]
        exact .comment hlongest (hdrop _ _)
    | token t n =>
      have hlongest := isLongest_of_scan hscan
      rw [walk, hscan, after, walk_take (matches_of_scan hscan).2, Nat.add_assoc,
        ← byteSize_cons, hsplit n]
      rw [hsplit n] at hlongest
      exact .token hlongest (stands_of_scan hscan) (hdrop _ _)
    | invalid cause n =>
      rw [walk, hscan, after, Nat.add_assoc, ← byteSize_cons]
      refine .error (fun v hv hbegins => ?_) (rejects_of_scan hscan)
      obtain ⟨t, m, htoken, -⟩ := exists_scan_of_prefix hv hbegins
      rw [hscan] at htoken
      cases htoken

/-- There is no other tokenisation. -/
theorem eq_walk_of_tokenises {pos : Nat} {cs : List Char} {lexed : Lexed}
    (h : Tokenises pos cs lexed) : lexed = walk pos 0 cs := by
  induction h with
  | done => rfl
  | @blank pos c cs lexed hblank _ ih =>
    have hscan : scan c cs = .trivia 0 := if_pos hblank
    rw [walk, hscan, after]
    exact ih
  | @comment pos w cs lexed longest _ ih =>
    obtain ⟨u, rfl, -⟩ := mem_comment.1 longest.mem
    have hu : u = (u ++ cs).takeWhile (· ≠ '\n') :=
      (List.cons.inj (longest.unique (isLongest_comment (u ++ cs)))).2
    have hscan : scan '#' (u ++ cs) = .trivia u.length :=
      scan_eq_trivia_iff.2 (.inr ⟨rfl, congrArg List.length hu⟩)
    rw [List.cons_append, walk, hscan, after, walk_skip, Nat.add_assoc, ← byteSize_cons]
    exact ih
  | @token pos t w cs lexed longest stands _ ih =>
    obtain ⟨c, u, rfl⟩ := List.exists_cons_of_ne_nil (ne_nil_of_mem_pattern stands.mem)
    rw [List.cons_append, walk, scan_of_isLongest longest stands, after, walk_skip, List.take_left,
      Nat.add_assoc, ← byteSize_cons, ← ih]
  | @error pos w cs cause noToken rejects =>
    obtain ⟨c, cs, rfl⟩ : ∃ c cs', cs = c :: cs' := by
      cases rejects <;> exact ⟨_, _, rfl⟩
    cases hscan : scan c cs with
    | trivia n => exact absurd hscan (rejects.scan_ne_trivia n)
    | token t n =>
      have hlongest := isLongest_of_scan hscan
      exact absurd hlongest.begins (noToken _ hlongest.mem)
    | invalid cause' n =>
      obtain ⟨rfl, rfl⟩ := rejects.unique (rejects_of_scan hscan)
      rw [walk, hscan, after, byteSize_cons, Nat.add_assoc]

theorem tokenises_iff {pos : Nat} {cs : List Char} {lexed : Lexed} :
    Tokenises pos cs lexed ↔ lexed = walk pos 0 cs :=
  ⟨eq_walk_of_tokenises, fun h => h ▸ tokenises_walk cs pos⟩

end Lexed

/-! ## Nothing is lost -/

/-- The lexemes account for the characters from byte `pos` on: trivia stands before each of them and
before an error, each spans the match that it stands for, and trivia is all that is left at the
end. -/
inductive Accounts : Nat → List Char → Lexed → Prop
  | done {pos : Nat} {cs : List Char} (trivia : IsFinalTrivia cs) : Accounts pos cs ⟨[], none⟩
  | token {pos : Nat} {gap w cs : List Char} {t : Token} {lexed : Lexed} (trivia : IsTrivia gap)
    (stands : t.Stands w) (next : Accounts (pos + byteSize gap + byteSize w) cs lexed) :
    Accounts pos (gap ++ (w ++ cs))
      ⟨⟨t, pos + byteSize gap, pos + byteSize gap + byteSize w⟩ :: lexed.lexemes, lexed.error⟩
  | error {pos : Nat} {gap w cs : List Char} {cause : LexCause} (trivia : IsTrivia gap)
    (noToken : ∀ v ∈ Pattern.token, ¬ v <+: cs) (rejects : Rejects cs w cause) :
    Accounts pos (gap ++ cs)
      ⟨[], some ⟨⟨pos + byteSize gap, pos + byteSize gap + byteSize w⟩, cause⟩⟩

/-- What trivia ends at: a character that neither is blank nor begins a comment. -/
def StartsApart (cs : List Char) : Prop := ∃ c rest, cs = c :: rest ∧ ¬ isBlank c

theorem startsApart_of_stands {t : Token} {w cs : List Char} (h : t.Stands w) :
    StartsApart (w ++ cs) := by
  obtain ⟨c, u, rfl⟩ := List.exists_cons_of_ne_nil (ne_nil_of_mem_pattern h.mem)
  refine ⟨c, u ++ cs, rfl, fun hblank => ?_⟩
  have htrivia : scan c u = .trivia 0 := if_pos hblank
  rw [scan_of_stands h] at htrivia
  cases htrivia

theorem startsApart_of_rejects {cs w : List Char} {cause : LexCause} (h : Rejects cs w cause) :
    StartsApart cs := by
  cases h with
  | character blank => exact ⟨_, _, rfl, blank⟩
  | text quote => exact ⟨_, _, rfl, by rcases quote with rfl | rfl <;> decide⟩

/-- More trivia before what is accounted for. -/
theorem Accounts.before {g cs : List Char} {lexed : Lexed} {pos : Nat}
    (h : Accounts (pos + byteSize g) cs lexed)
    (hgap : ∀ gap rest, cs = gap ++ rest → IsTrivia gap → StartsApart rest → IsTrivia (g ++ gap))
    (hfinal : IsFinalTrivia cs → IsFinalTrivia (g ++ cs)) : Accounts pos (g ++ cs) lexed := by
  have hpos (gap : List Char) :
      pos + byteSize g + byteSize gap = pos + byteSize (g ++ gap) := by
    rw [byteSize_append, Nat.add_assoc]
  cases h with
  | done trivia => exact .done (hfinal trivia)
  | @token _ gap w cs t lexed trivia stands next =>
    rw [hpos] at next ⊢
    rw [← List.append_assoc]
    exact .token (hgap gap _ rfl trivia (startsApart_of_stands stands)) stands next
  | @error _ gap w cs cause trivia noToken rejects =>
    rw [hpos, ← List.append_assoc]
    exact .error (hgap gap _ rfl trivia (startsApart_of_rejects rejects)) noToken rejects

/-- A comment and the line feed that closes it. -/
theorem isTrivia_comment {u gap : List Char} (hu : ∀ c ∈ u, c ≠ '\n') (h : IsTrivia gap)
    (hline : gap.head? = some '\n') : IsTrivia ('#' :: u ++ gap) := by
  cases h with
  | nil => cases hline
  | blank _ rest =>
    obtain rfl := Option.some.inj hline
    exact .comment hu rest
  | comment => cases hline

theorem isFinalTrivia_blank {c : Char} {cs : List Char} (hc : isBlank c) (h : IsFinalTrivia cs) :
    IsFinalTrivia (c :: cs) := by
  cases h with
  | closed trivia => exact .closed (.blank hc trivia)
  | comment trivia line => exact .comment (.blank hc trivia) line

theorem isFinalTrivia_comment {u cs : List Char} (hu : ∀ c ∈ u, c ≠ '\n')
    (h : IsFinalTrivia ('\n' :: cs)) : IsFinalTrivia ('#' :: u ++ '\n' :: cs) := by
  generalize hcs : '\n' :: cs = rest at h
  cases h with
  | closed trivia =>
    subst hcs
    exact .closed (isTrivia_comment hu trivia rfl)
  | @comment gap body trivia line =>
    have hhead : gap.head? = some '\n' := by
      cases gap with
      | nil => exact absurd (List.cons.inj hcs).1 (by decide)
      | cons c gap => rw [List.head?_cons, (List.cons.inj hcs).1]
    rw [← List.append_assoc]
    exact .comment (isTrivia_comment hu trivia hhead) line

/-- A tokenisation accounts for all characters. -/
theorem accounts_of_tokenises {pos : Nat} {cs : List Char} {lexed : Lexed}
    (h : Tokenises pos cs lexed) : Accounts pos cs lexed := by
  induction h with
  | done => exact .done (.closed .nil)
  | @blank pos c cs lexed hblank _ ih =>
    have hnext : Accounts (pos + byteSize [c]) cs lexed := by simpa using ih
    exact hnext.before (fun _ _ _ trivia _ => .blank hblank trivia) (isFinalTrivia_blank hblank)
  | @comment pos w cs lexed longest _ ih =>
    obtain ⟨u, rfl, hu⟩ := mem_comment.1 longest.mem
    -- The comment ends at the end of the text or at a line feed.
    rcases cs with _ | ⟨c, cs⟩
    · refine ih.before (fun gap rest hcs _ ⟨d, rest', hrest, _⟩ => ?_) fun _ => ?_
      · subst hrest
        simp at hcs
      · rw [List.append_nil]
        exact .comment .nil hu
    obtain rfl : c = '\n' := by
      by_contra hc
      have hlonger : '#' :: (u ++ [c]) ∈ Pattern.comment :=
        mem_comment.2 ⟨_, rfl, List.forall_mem_append.2 ⟨hu, List.forall_mem_singleton.2 hc⟩⟩
      have hle := longest.longest _ hlonger ⟨cs, by simp⟩
      simp only [List.length_cons, List.length_append, List.length_nil] at hle
      omega
    refine ih.before (fun gap rest hcs trivia ⟨d, rest', hrest, hd⟩ => ?_) (isFinalTrivia_comment hu)
    refine isTrivia_comment hu trivia ?_
    cases gap with
    | nil =>
      subst hrest
      rw [← (List.cons.inj hcs).1] at hd
      exact absurd (by decide) hd
    | cons d' gap => rw [List.head?_cons, (List.cons.inj hcs).1]
  | token longest stands _ ih => exact .token .nil stands ih
  | error noToken rejects => exact .error .nil noToken rejects

/-- What is accounted for from a byte on stands from that byte on, in order and without overlap. -/
theorem Accounts.increasing {pos : Nat} {cs : List Char} {lexed : Lexed}
    (h : Accounts pos cs lexed) :
    (∀ x ∈ lexed.lexemes, pos ≤ x.span.start ∧ x.span.start < x.span.stop) ∧
      lexed.lexemes.Pairwise fun x y => x.span.stop ≤ y.span.start := by
  induction h with
  | done => exact ⟨nofun, .nil⟩
  | @token pos gap w cs t lexed _ stands _ ih =>
    obtain ⟨hspans, hordered⟩ := ih
    have hpositive : 0 < byteSize w := by
      obtain ⟨c, u, rfl⟩ := List.exists_cons_of_ne_nil (ne_nil_of_mem_pattern stands.mem)
      have := c.utf8Size_pos
      rw [byteSize_cons]
      omega
    refine ⟨List.forall_mem_cons.2 ⟨?_, fun x hx => ?_⟩, List.pairwise_cons.2 ⟨?_, hordered⟩⟩
    · show pos ≤ pos + byteSize gap ∧ pos + byteSize gap < pos + byteSize gap + byteSize w
      omega
    · have := hspans x hx
      omega
    · exact fun x hx => (hspans x hx).1
  | error => exact ⟨nofun, .nil⟩

/-- The lexer is maximal munch over the patterns of the tokens and loses nothing.  The lexemes of a
source and its error are the one tokenisation that the patterns give; they account for the whole
source, where only trivia stands between the lexemes; each lexeme spans some bytes, which are the
spelling of its token, and they follow one another. -/
theorem ofText_maximal_munch (source : String) :
    (∀ lexed, Tokenises 0 source.toList lexed ↔ lexed = Lexed.ofText source) ∧
      Accounts 0 source.toList (Lexed.ofText source) ∧
      (∀ x ∈ (Lexed.ofText source).lexemes,
        x.span.start < x.span.stop ∧ x.span.Spells source x.token.spelling) ∧
      (Lexed.ofText source).lexemes.Pairwise fun x y => x.span.stop ≤ y.span.start := by
  have htokenises : Tokenises 0 source.toList (Lexed.ofText source) := Lexed.tokenises_walk _ _
  have haccounts := accounts_of_tokenises htokenises
  obtain ⟨hspans, hordered⟩ := haccounts.increasing
  refine ⟨fun lexed => Lexed.tokenises_iff, haccounts, fun x hx => ?_, hordered⟩
  exact ⟨(hspans x hx).2, Lexed.spells_of_mem hx⟩

example : (Lexed.ofText "1.5e-3x 1a.5 1e+").lexemes.map Lexeme.token =
    [.number "1.5e-3", .name "x", .number "1a", .mark .dot, .number "5", .number "1e"] := by
  decide

end SchemaLang
