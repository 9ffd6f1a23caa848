import SchemaLang.Proofs.Printing.Lexing

/-!
# Tokens and where they stand

The lexer looks no further than the end of a token: what it has read as a token it reads as the same
token before anything else that cannot continue it, `scan_take`.  The span of every lexeme of a
source is where the spelling of its token stands in the source, `Lexed.spells_of_mem`.
-/

namespace SchemaLang

/-! ## Quoted texts -/

theorem quoted_cons {quote c : Char} (h : c ≠ '\\') (cs : List Char) :
    Scan.quoted quote (c :: cs) = if c = quote then (true, 1)
      else ((Scan.quoted quote cs).1, (Scan.quoted quote cs).2 + 1) := by
  rw [Scan.quoted]
  all_goals simp_all

theorem quoted_escape (quote c : Char) (cs : List Char) :
    Scan.quoted quote ('\\' :: c :: cs) = if c = '\n' then (false, 0)
      else ((Scan.quoted quote cs).1, (Scan.quoted quote cs).2 + 2) := by
  rw [Scan.quoted]

/-- A backslash is either the last character or the start of an escape. -/
theorem ne_backslash {c : Char} {cs : List Char} (hlast : c = '\\' → cs = [] → False)
    (hescape : ∀ e rest, c = '\\' → cs = e :: rest → False) : c ≠ '\\' := by
  rintro rfl
  cases cs with
  | nil => exact hlast rfl rfl
  | cons e rest => exact hescape e rest rfl rfl

/-- A closed text is read up to its quote, whatever follows. -/
theorem quoted_take {quote : Char} {cs : List Char} :
    ∀ {n}, Scan.quoted quote cs = (true, n) → ∃ body, cs.take n = body ++ [quote] ∧
      n = body.length + 1 ∧ ∀ rest, Scan.quoted quote (body ++ quote :: rest) = (true, n) := by
  fun_induction Scan.quoted quote cs with
  | case1 => exact nofun
  | case2 => exact nofun
  | case3 e cs he closed n hquoted ih =>
    intro n h
    obtain ⟨rfl, rfl⟩ := Prod.mk.inj h
    obtain ⟨body, htake, rfl, hrest⟩ := ih hquoted
    refine ⟨'\\' :: e :: body, by simp [htake], rfl, fun rest => ?_⟩
    rw [List.cons_append, List.cons_append, quoted_escape, if_neg he, hrest]
  | case4 => exact nofun
  | case5 cs hescape hlast =>
    intro n h
    obtain ⟨-, rfl⟩ := Prod.mk.inj h
    have hquote := ne_backslash hlast hescape
    exact ⟨[], rfl, rfl, fun rest => by rw [List.nil_append, quoted_cons hquote, if_pos rfl]⟩
  | case6 c cs hescape hlast hc closed n hquoted ih =>
    intro n h
    obtain ⟨rfl, rfl⟩ := Prod.mk.inj h
    obtain ⟨body, htake, rfl, hrest⟩ := ih hquoted
    refine ⟨c :: body, by simp [htake], rfl, fun rest => ?_⟩
    rw [List.cons_append, quoted_cons (ne_backslash hlast hescape), if_neg hc, hrest]

/-! ## Numbers -/

theorem signedDigits_le (cs : List Char) : Scan.signedDigits cs ≤ cs.length := by
  cases cs with
  | nil => exact Nat.le_refl 0
  | cons sign cs =>
    have hdigits := (List.takeWhile_prefix (l := cs) Char.isDigit).length_le
    simp only [Scan.signedDigits, List.length_cons]
    split
    · split <;> omega
    · omega

theorem exponentAfter_le (word rest : List Char) : Scan.exponentAfter word rest ≤ rest.length := by
  unfold Scan.exponentAfter
  split
  · exact signedDigits_le rest
  · exact signedDigits_le rest
  · exact Nat.zero_le _

/-- A number ends inside its source. -/
theorem number_le (cs : List Char) : Scan.number cs ≤ cs.length := by
  have hsplit (l : List Char) : (l.takeWhile isWordChar).length + (l.dropWhile isWordChar).length =
      l.length := by
    rw [← List.length_append, List.takeWhile_append_dropWhile]
  have hcs := hsplit cs
  rw [Scan.number, List.span_eq_takeWhile_dropWhile]
  dsimp only
  split
  · next d more hrest =>
    have hmore := hsplit (d :: more)
    have hexponent := exponentAfter_le ((d :: more).takeWhile isWordChar)
      ((d :: more).dropWhile isWordChar)
    rw [hrest] at hcs
    simp only [List.length_cons] at hcs hmore
    rw [List.span_eq_takeWhile_dropWhile]
    dsimp only
    split <;> omega
  · have hexponent := exponentAfter_le (cs.takeWhile isWordChar) (cs.dropWhile isWordChar)
    omega

/-! ## One token -/

theorem spelling_ofWord (word : List Char) : (Token.ofWord word).spelling.toList = word := by
  unfold Token.ofWord
  split
  · next k hk =>
    have htext : k.text = String.ofList word := by simpa using List.find?_some hk
    rw [Token.spelling, htext, String.toList_ofList]
  · exact String.toList_ofList

theorem endsBefore_ofWord {word rest : List Char} (h : (Token.ofWord word).EndsBefore rest) :
    ∀ x ∈ rest.head?, ¬ isWordChar x := by
  unfold Token.ofWord at h
  split at h
  · exact h
  · exact h

/-- A quoted text is read again, as the same token. -/
theorem ofQuote_take {quote : Char} {make : String → Token} {cs : List Char} {t : Token} {n : Nat}
    (hmake : ∀ s, (make s).spelling.toList = quote :: (s.toList ++ [quote]))
    (h : Scan.ofQuote quote make cs = .token t n) :
    t.spelling.toList = quote :: cs.take n ∧ (cs.take n).length = n ∧
      ∀ rest, Scan.ofQuote quote make (cs.take n ++ rest) = .token t n := by
  unfold Scan.ofQuote at h
  split at h
  · next m hquoted =>
    obtain ⟨rfl, rfl⟩ := Scan.token.inj h
    obtain ⟨body, htake, rfl, hrest⟩ := quoted_take hquoted
    have hbody : cs.take (body.length + 1 - 1) = body := by
      rw [Nat.add_sub_cancel, ← Nat.min_eq_left (Nat.le_succ body.length), ← List.take_take, htake,
        List.take_left]
    rw [hbody, htake]
    refine ⟨by rw [hmake, String.toList_ofList], by simp, fun rest => ?_⟩
    rw [List.append_assoc, List.singleton_append, Scan.ofQuote, hrest]
    simp
  · cases h

theorem text_ofChar? {c : Char} {m : Mark} (h : Mark.ofChar? c = some m) :
    m.text.toList = [c] := by
  unfold Mark.ofChar? at h
  split at h <;> cases h <;> rfl

theorem scan_doubleQuote (cs : List Char) : scan '"' cs = Scan.ofQuote '"' .text cs := by
  unfold scan
  rw [if_neg (by decide), if_neg (by decide), if_neg (by decide), if_neg (by decide), if_pos rfl]

theorem scan_singleQuote (cs : List Char) : scan '\'' cs = Scan.ofQuote '\'' .singleQuoted cs := by
  unfold scan
  rw [if_neg (by decide), if_neg (by decide), if_neg (by decide), if_neg (by decide),
    if_neg (by decide), if_pos rfl]

theorem scan_mark {c : Char} {m : Mark} {cs rest : List Char} (h : m.text.toList = c :: cs)
    (hr : (Token.mark m).EndsBefore rest) :
    scan c (cs ++ rest) = .token (.mark m) cs.length := by
  obtain ⟨c', cs', hspelling, hscan⟩ := scan_spelling (t := .mark m) trivial hr
  obtain ⟨rfl, rfl⟩ := List.cons.inj (hspelling.symm.trans h)
  exact hscan

/-- A token is read again, as the same token, before anything that does not continue it. -/
theorem scan_take {c : Char} {cs : List Char} {t : Token} {n : Nat} (h : scan c cs = .token t n) :
    t.spelling.toList = c :: cs.take n ∧ (cs.take n).length = n ∧
      ∀ rest, t.EndsBefore rest → scan c (cs.take n ++ rest) = .token t n := by
  cases scannedToken_of_scan h with
  | word hstart =>
    have htake : cs.take (cs.takeWhile isWordChar).length = cs.takeWhile isWordChar :=
      (List.prefix_iff_eq_take.1 (List.takeWhile_prefix _)).symm
    rw [htake]
    refine ⟨spelling_ofWord _, rfl, fun rest hr => ?_⟩
    exact scan_word hstart (List.all_eq_true.1 List.all_takeWhile) (endsBefore_ofWord hr)
  | number hdigit =>
    have hlength := List.length_take_of_le (number_le cs)
    refine ⟨String.toList_ofList, hlength, fun rest hr => ?_⟩
    rw [scan_number hdigit (isNumberTail_take cs) hr, hlength]
  | text hquote hbody =>
    subst hquote
    obtain ⟨hspelling, hlength, hrest⟩ := ofQuote_take (by simp [Token.spelling]) hbody
    exact ⟨hspelling, hlength, fun rest _ => (scan_doubleQuote _).trans (hrest rest)⟩
  | singleQuoted hquote hbody =>
    subst hquote
    obtain ⟨hspelling, hlength, hrest⟩ := ofQuote_take (by simp [Token.spelling]) hbody
    exact ⟨hspelling, hlength, fun rest _ => (scan_singleQuote _).trans (hrest rest)⟩
  | arrow hminus hhead =>
    subst hminus hhead
    exact ⟨rfl, rfl, fun rest hr => scan_mark (m := .arrow) rfl hr⟩
  | mark hm =>
    have htext := text_ofChar? hm
    exact ⟨htext, rfl, fun rest hr => scan_mark htext hr⟩

/-! ## The whole source -/

/-- The text stands in the source, and the span holds its bytes. -/
def Span.Spells (source : String) (span : Span) (text : String) : Prop :=
  ∃ before after, source = before ++ text ++ after ∧
    span = ⟨before.utf8ByteSize, before.utf8ByteSize + text.utf8ByteSize⟩

theorem spells_of_append {source : String} {span : Span} {before text after : List Char}
    (h : source.toList = before ++ text ++ after)
    (hspan : span = ⟨byteSize before, byteSize before + byteSize text⟩) :
    span.Spells source (String.ofList text) := by
  refine ⟨String.ofList before, String.ofList after, ?_, ?_⟩
  · rw [← String.ofList_append, ← String.ofList_append, ← h, String.ofList_toList]
  · rw [hspan, ← byteSize_toList, ← byteSize_toList, String.toList_ofList, String.toList_ofList]

namespace Lexed

/-- What the walk reports of the characters `cs`, which `before` precedes: each lexeme spans the
spelling of its token, and an error spans some characters. -/
theorem walk_spans (cs : List Char) : ∀ before pending,
    (∀ x ∈ (walk (byteSize before) pending cs).lexemes, ∃ b a,
      before ++ cs = b ++ x.token.spelling.toList ++ a ∧
        x.span = ⟨byteSize b, byteSize b + byteSize x.token.spelling.toList⟩) ∧
    ∀ e ∈ (walk (byteSize before) pending cs).error, ∃ b m a, before ++ cs = b ++ m ++ a ∧
      e.span = ⟨byteSize b, byteSize b + byteSize m⟩ := by
  induction cs with
  | nil => exact fun _ _ => ⟨List.forall_mem_nil _, by simp [walk]⟩
  | cons c cs ih =>
    intro before pending
    have hnext : byteSize before + c.utf8Size = byteSize (before ++ [c]) := by simp
    have hbefore : before ++ c :: cs = before ++ [c] ++ cs := by simp
    cases pending with
    | succ pending =>
      rw [walk, hnext, hbefore]
      exact ih _ pending
    | zero =>
      rw [walk, hnext, hbefore]
      cases hscan : scan c cs with
      | trivia n => exact ih _ n
      | token t n =>
        obtain ⟨hspelling, -, -⟩ := scan_take hscan
        obtain ⟨hlexemes, herror⟩ := ih (before ++ [c]) n
        refine ⟨List.forall_mem_cons.2 ⟨⟨before, cs.drop n, ?_, ?_⟩, hlexemes⟩, herror⟩
        · rw [hspelling]
          simp
        · rw [hspelling]
          simp [Nat.add_assoc]
      | invalid cause n =>
        refine ⟨List.forall_mem_nil _, fun e he => ⟨before, c :: cs.take n, cs.drop n, by simp, ?_⟩⟩
        obtain rfl := Option.some.inj he
        simp [Nat.add_assoc]

/-- The span of a lexeme holds the spelling of its token. -/
theorem spells_of_mem {source : String} {x : Lexeme} (h : x ∈ (ofText source).lexemes) :
    x.span.Spells source x.token.spelling := by
  obtain ⟨before, after, hsource, hspan⟩ := (walk_spans source.toList [] 0).1 x h
  have hspells := spells_of_append hsource hspan
  rwa [String.ofList_toList] at hspells

/-- Every token of a source is one that the lexer reads at some place. -/
theorem exists_scan_of_mem (cs : List Char) : ∀ pos pending, ∀ x ∈ (walk pos pending cs).lexemes,
    ∃ c rest n, scan c rest = .token x.token n := by
  induction cs with
  | nil => exact fun _ _ => List.forall_mem_nil _
  | cons c cs ih =>
    intro pos pending
    cases pending with
    | succ pending => exact ih _ pending
    | zero =>
      rw [walk]
      cases hscan : scan c cs with
      | trivia n => exact ih _ n
      | token t n => exact List.forall_mem_cons.2 ⟨⟨c, cs, n, hscan⟩, ih _ n⟩
      | invalid cause n => exact List.forall_mem_nil _

end Lexed

end SchemaLang
