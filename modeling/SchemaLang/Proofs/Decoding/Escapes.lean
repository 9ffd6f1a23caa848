import SchemaLang.Proofs.Decoding.Integers
import SchemaLang.Proofs.Grammar.Reading
import SchemaLang.Proofs.Printing.Texts

/-!
# The escapes of a text

What an escape may look like is given by the relation `Denotes`.  Texts are read with a larger one,
`Accepted`, as a plus sign may stand for the first digit of a hexadecimal escape.  `Reads` goes
through a text from the left, one escape at a time, which says where the first bad escape stands.
By `run_text_iff` a text literal is decoded along this reading, and the two relations differ exactly
on the texts that have an escape with a plus sign on the way.
-/

namespace SchemaLang

namespace Escape

/-! ## Escapes -/

/-- What may stand after a backslash, and the character that it denotes. -/
inductive Denotes : List Char → Char → Prop
  | newline : Denotes ['n'] '\n'
  | carriageReturn : Denotes ['r'] '\r'
  | tab : Denotes ['t'] '\t'
  | nul : Denotes ['0'] '\x00'
  | itself {c : Char} (mark : c ∈ ['\\', '"', '\'']) : Denotes [c] c
  | ascii {high low : Char} {m n : Nat} (writes_high : Base.hexadecimal.Writes high m)
    (writes_low : Base.hexadecimal.Writes low n) (value : 16 * m + n < 128) :
    Denotes ['x', high, low] (Char.ofNat (16 * m + n))

/-- A hexadecimal escape with a plus sign for its first digit. -/
inductive Signed : List Char → Char → Prop
  | plus {low : Char} {n : Nat} (writes : Base.hexadecimal.Writes low n) :
    Signed ['x', '+', low] (Char.ofNat n)

/-- The escapes that are read. -/
def Accepted (e : List Char) (c : Char) : Prop := Denotes e c ∨ Signed e c

theorem hexDigit?_eq_digit? (c : Char) : hexDigit? c = Base.hexadecimal.digit? c := by
  have hradix : Base.hexadecimal.radix = 16 := rfl
  simp only [hexDigit?, Base.digit?, hradix, Char.le_def, UInt32.le_iff_toNat_le]
  simp only [Char.toNat, Char.reduceVal, UInt32.reduceToNat]
  grind

theorem hexDigit?_eq_some_iff {c : Char} {d : Nat} :
    hexDigit? c = some d ↔ Base.hexadecimal.Writes c d := by
  rw [hexDigit?_eq_digit?, Base.digit?_eq_some_iff]

theorem denotes_of_letter? {l c : Char} (h : letter? l = some c) : Denotes [l] c := by
  unfold letter? at h
  split at h
  · exact Option.some.inj h ▸ .newline
  · exact Option.some.inj h ▸ .carriageReturn
  · exact Option.some.inj h ▸ .tab
  · exact Option.some.inj h ▸ .nul
  · exact Option.some.inj h ▸ .itself (by decide)
  · exact Option.some.inj h ▸ .itself (by decide)
  · exact Option.some.inj h ▸ .itself (by decide)
  · cases h

theorem ascii?_of_writes {high low : Char} {m n : Nat} (hhigh : Base.hexadecimal.Writes high m)
    (hlow : Base.hexadecimal.Writes low n) (hvalue : 16 * m + n < 128) :
    ascii? high low = some (Char.ofNat (16 * m + n)) := by
  have hplus : high ≠ '+' := by
    rintro rfl
    cases hexDigit?_eq_some_iff.2 hhigh
  simp [ascii?, hplus, hexDigit?_eq_some_iff.2 hhigh, hexDigit?_eq_some_iff.2 hlow, hvalue]

theorem ascii?_plus {low : Char} {n : Nat} (hlow : Base.hexadecimal.Writes low n) :
    ascii? '+' low = some (Char.ofNat n) := by
  have hsmall : n < 128 := Nat.lt_of_lt_of_le hlow.1 (by decide)
  simp [ascii?, hexDigit?_eq_some_iff.2 hlow, hsmall]

theorem accepted_of_ascii? {high low c : Char} (h : ascii? high low = some c) :
    Accepted ['x', high, low] c := by
  unfold ascii? at h
  split at h
  · next hplus =>
    simp only [Option.bind_eq_bind, Option.bind_some, Option.bind_eq_some_iff,
      Option.ite_none_right_eq_some] at h
    obtain ⟨n, hlow, -, hc⟩ := h
    rw [hplus, ← Option.some.inj hc, Nat.mul_zero, Nat.zero_add]
    exact .inr (.plus (hexDigit?_eq_some_iff.1 hlow))
  · simp only [Option.bind_eq_bind, Option.bind_eq_some_iff, Option.ite_none_right_eq_some] at h
    obtain ⟨m, hhigh, n, hlow, hvalue, hc⟩ := h
    rw [← Option.some.inj hc]
    exact .inl (.ascii (hexDigit?_eq_some_iff.1 hhigh) (hexDigit?_eq_some_iff.1 hlow) hvalue)

/-- An accepted escape is one letter, or an `x` with two characters. -/
theorem accepted_cases {e : List Char} {c : Char} (h : Accepted e c) :
    (∃ l, e = [l] ∧ letter? l = some c) ∨
      ∃ high low, e = ['x', high, low] ∧ ascii? high low = some c := by
  obtain h | h := h
  · cases h with
    | newline | carriageReturn | tab | nul => exact .inl ⟨_, rfl, rfl⟩
    | itself mark =>
      have hletter : ∀ c ∈ ['\\', '"', '\''], letter? c = some c := by simp [letter?]
      exact .inl ⟨_, rfl, hletter _ mark⟩
    | ascii hhigh hlow hvalue => exact .inr ⟨_, _, rfl, ascii?_of_writes hhigh hlow hvalue⟩
  · cases h with
    | plus hlow => exact .inr ⟨_, _, rfl, ascii?_plus hlow⟩

/-! ## Reading a text -/

/-- Reading a text from the left gives characters and leaves the rest; `E` says which escapes there
are. -/
inductive Reads (E : List Char → Char → Prop) : List Char → List Char → List Char → Prop
  | done (raw : List Char) : Reads E raw [] raw
  | plain {c : Char} {raw cs rest : List Char} (ne : c ≠ '\\') (reads : Reads E raw cs rest) :
    Reads E (c :: raw) (c :: cs) rest
  | escape {e : List Char} {c : Char} {raw cs rest : List Char} (denotes : E e c)
    (reads : Reads E raw cs rest) : Reads E ('\\' :: (e ++ raw)) (c :: cs) rest

/-- One of the escapes stands at the start of the text. -/
def Begins (E : List Char → Char → Prop) (tail : List Char) : Prop :=
  ∃ e c rest, E e c ∧ tail = e ++ rest

/-- A bad escape as far as one of its kind would reach. -/
def badEscape (tail : List Char) : List Char :=
  '\\' :: tail.take (if tail.head? = some 'x' then 3 else 1)

/-- Reading the text comes to a backslash that begins no escape. -/
def FirstBad (E : List Char → Char → Prop) (raw bad : List Char) : Prop :=
  ∃ cs tail, Reads E raw cs ('\\' :: tail) ∧ ¬ Begins E tail ∧ bad = badEscape tail

/-- Reading the text by the escapes that there are comes to one with a plus sign. -/
def MeetsPlus (raw : List Char) : Prop :=
  ∃ cs tail, Reads Denotes raw cs ('\\' :: tail) ∧ Begins Signed tail

section Reads

variable {E : List Char → Char → Prop} {raw cs rest : List Char}

theorem decode_escape {e : List Char} {c : Char} (h : Accepted e c) (raw : List Char) :
    decode ('\\' :: (e ++ raw)) = (c :: ·) <$> decode raw := by
  obtain ⟨l, rfl, hl⟩ | ⟨high, low, rfl, hvalue⟩ := accepted_cases h
  · have hx : l ≠ 'x' := by
      rintro rfl
      cases hl
    rw [List.singleton_append, decode, hl]
    all_goals simp_all
  · rw [List.cons_append, List.cons_append, List.singleton_append, decode, hvalue]

theorem decode_badEscape {tail : List Char} (h : ¬ Begins Accepted tail) :
    decode ('\\' :: tail) = .error (badEscape tail) := by
  have hletter : ∀ l cs, tail = l :: cs → letter? l = none := fun l cs htail =>
    Option.eq_none_iff_forall_ne_some.2 fun c hc =>
      h ⟨[l], c, cs, .inl (denotes_of_letter? hc), htail⟩
  have hascii : ∀ high low cs, tail = 'x' :: high :: low :: cs → ascii? high low = none :=
    fun high low cs htail => Option.eq_none_iff_forall_ne_some.2 fun c hc =>
      h ⟨['x', high, low], c, cs, accepted_of_ascii? hc, htail⟩
  cases tail with
  | nil => rfl
  | cons l cs =>
    by_cases hx : l = 'x'
    · subst hx
      match cs with
      | [] | [_] => rfl
      | high :: low :: cs => simp [decode, hascii high low cs rfl, badEscape]
    · rw [decode, hletter l cs rfl]
      all_goals simp_all [badEscape]

/-- Decoding follows the reading. -/
theorem Reads.decode_eq (h : Reads Accepted raw cs rest) :
    decode raw = (cs ++ ·) <$> decode rest := by
  induction h with
  | done => simp
  | plain ne _ ih =>
    rw [decode_cons_of_ne ne, ih]
    simp
  | escape denotes _ ih =>
    rw [decode_escape denotes, ih]
    simp

/-- Every text is read to its end, or up to a backslash that begins no escape. -/
theorem exists_reads (E : List Char → Char → Prop) (raw : List Char) :
    (∃ cs, Reads E raw cs []) ∨ ∃ bad, FirstBad E raw bad := by
  match raw with
  | [] => exact .inl ⟨[], .done []⟩
  | c :: tail =>
    by_cases hc : c = '\\'
    · subst hc
      by_cases htail : Begins E tail
      · obtain ⟨e, c, rest, he, rfl⟩ := htail
        have hshort : rest.length < (e ++ rest).length + 1 := by
          rw [List.length_append]
          omega
        obtain ⟨cs, h⟩ | ⟨bad, cs, last, h, hlast⟩ := exists_reads E rest
        · exact .inl ⟨c :: cs, .escape he h⟩
        · exact .inr ⟨bad, c :: cs, last, .escape he h, hlast⟩
      · exact .inr ⟨_, [], tail, .done _, htail, rfl⟩
    · obtain ⟨cs, h⟩ | ⟨bad, cs, last, h, hlast⟩ := exists_reads E tail
      · exact .inl ⟨c :: cs, .plain hc h⟩
      · exact .inr ⟨bad, c :: cs, last, .plain hc h, hlast⟩
termination_by raw.length
decreasing_by all_goals simp_all

/-- What is read to its end begins every escape on the way. -/
theorem Reads.begins {tail : List Char} (h : Reads E ('\\' :: tail) cs []) : Begins E tail := by
  generalize hraw : '\\' :: tail = raw at h
  cases h with
  | done => cases hraw
  | plain ne _ =>
    obtain ⟨rfl, -⟩ := List.cons.inj hraw
    exact absurd rfl ne
  | escape denotes _ =>
    obtain ⟨-, rfl⟩ := List.cons.inj hraw
    exact ⟨_, _, _, denotes, rfl⟩

theorem FirstBad.decode_eq {bad : List Char} (h : FirstBad Accepted raw bad) :
    decode raw = .error bad := by
  obtain ⟨cs, tail, hreads, htail, rfl⟩ := h
  rw [hreads.decode_eq, decode_badEscape htail, error_map]

theorem decode_eq_ok_iff : decode raw = .ok cs ↔ Reads Accepted raw cs [] := by
  have hread {cs : List Char} (h : Reads Accepted raw cs []) : decode raw = .ok cs := by
    rw [h.decode_eq, decode, ok_map, List.append_nil]
  refine ⟨fun h => ?_, hread⟩
  obtain ⟨cs', hreads⟩ | ⟨bad, hbad⟩ := exists_reads Accepted raw
  · rw [Except.ok.inj (h.symm.trans (hread hreads))]
    exact hreads
  · cases h.symm.trans hbad.decode_eq

theorem decode_eq_error_iff {bad : List Char} :
    decode raw = .error bad ↔ FirstBad Accepted raw bad := by
  refine ⟨fun h => ?_, FirstBad.decode_eq⟩
  obtain ⟨cs, hreads⟩ | ⟨bad', hbad⟩ := exists_reads Accepted raw
  · cases h.symm.trans (decode_eq_ok_iff.2 hreads)
  · rw [Except.error.inj (h.symm.trans hbad.decode_eq)]
    exact hbad

end Reads

/-! ## Escapes with a plus sign -/

section Plus

variable {raw cs rest tail : List Char}

theorem Reads.accepted (h : Reads Denotes raw cs rest) : Reads Accepted raw cs rest := by
  induction h with
  | done raw => exact .done raw
  | plain ne _ ih => exact .plain ne ih
  | escape denotes _ ih => exact .escape (.inl denotes) ih

/-- Without a plus sign on the way there are only the escapes that denote a character. -/
theorem Reads.denotes (h : Reads Accepted raw cs rest) (hplus : ¬ MeetsPlus raw) :
    Reads Denotes raw cs rest := by
  induction h with
  | done raw => exact .done raw
  | plain ne _ ih =>
    refine .plain ne (ih ?_)
    rintro ⟨cs, tail, hreads, htail⟩
    exact hplus ⟨_, tail, .plain ne hreads, htail⟩
  | escape accepted _ ih =>
    obtain hdenotes | hsigned := accepted
    · refine .escape hdenotes (ih ?_)
      rintro ⟨cs, tail, hreads, htail⟩
      exact hplus ⟨_, tail, .escape hdenotes hreads, htail⟩
    · exact absurd ⟨[], _, .done _, _, _, _, hsigned, rfl⟩ hplus

theorem begins_accepted_iff : Begins Accepted tail ↔ Begins Denotes tail ∨ Begins Signed tail := by
  constructor
  · rintro ⟨e, c, rest, hdenotes | hsigned, htail⟩
    · exact .inl ⟨e, c, rest, hdenotes, htail⟩
    · exact .inr ⟨e, c, rest, hsigned, htail⟩
  · rintro (⟨e, c, rest, hdenotes, htail⟩ | ⟨e, c, rest, hsigned, htail⟩)
    · exact ⟨e, c, rest, .inl hdenotes, htail⟩
    · exact ⟨e, c, rest, .inr hsigned, htail⟩

theorem not_begins_denotes_of_signed (h : Begins Signed tail) : ¬ Begins Denotes tail := by
  obtain ⟨_, _, rest, ⟨hlow⟩, rfl⟩ := h
  rintro ⟨e, c, rest', hdenotes, htail⟩
  cases hdenotes with
  | newline | carriageReturn | tab | nul => cases htail
  | itself mark =>
    obtain ⟨rfl, -⟩ := List.cons.inj htail
    exact absurd mark (by decide)
  | ascii hhigh _ _ =>
    obtain ⟨rfl, -⟩ := List.cons.inj (List.cons.inj htail).2
    cases hexDigit?_eq_some_iff.2 hhigh

/-- An escape with a plus sign is known by what is reported of it. -/
theorem Begins.of_badEscape_eq (h : Begins Signed tail) (he : badEscape tail = badEscape rest) :
    Begins Signed rest := by
  obtain ⟨_, _, after, ⟨hlow⟩, rfl⟩ := h
  have htake : rest.take (if rest.head? = some 'x' then 3 else 1) = ['x', '+', _] :=
    (List.cons.inj he).2.symm
  split at htake
  · refine ⟨_, _, rest.drop 3, .plus hlow, ?_⟩
    rw [← htake, List.take_append_drop]
  · have hlength : (rest.take 1).length = 3 := congrArg List.length htake
    rw [List.length_take] at hlength
    omega

theorem not_meetsPlus_iff :
    ¬ MeetsPlus raw ↔ (∀ cs, Reads Accepted raw cs [] ↔ Reads Denotes raw cs []) ∧
      ∀ bad, FirstBad Accepted raw bad ↔ FirstBad Denotes raw bad := by
  constructor
  · intro hplus
    refine ⟨fun cs => ⟨fun h => h.denotes hplus, Reads.accepted⟩, fun bad => ⟨?_, ?_⟩⟩
    · rintro ⟨cs, tail, hreads, htail, rfl⟩
      exact ⟨cs, tail, hreads.denotes hplus, fun h => htail (begins_accepted_iff.2 (.inl h)), rfl⟩
    · rintro ⟨cs, tail, hreads, htail, rfl⟩
      refine ⟨cs, tail, hreads.accepted, fun h => ?_, rfl⟩
      obtain hdenotes | hsigned := begins_accepted_iff.1 h
      · exact htail hdenotes
      · exact hplus ⟨cs, tail, hreads, hsigned⟩
  · rintro ⟨-, hbad⟩ ⟨cs, tail, hreads, hsigned⟩
    obtain ⟨_, rest, -, hrest, he⟩ :=
      (hbad _).2 ⟨cs, tail, hreads, not_begins_denotes_of_signed hsigned, rfl⟩
    exact hrest (begins_accepted_iff.2 (.inr (hsigned.of_badEscape_eq he)))

end Plus

end Escape

/-! ## Text literals -/

open Escape SchemaLang.Parser

theorem run_text_error {raw : String} {bad : List Char} {l : List Lexeme} {stop bound : Nat}
    (span : Span) (h : Escape.decode raw.toList = .error bad) :
    text.run ⟨.text raw span :: l, stop, bound⟩ =
      .error ⟨span, .invalidEscape (String.ofList bad)⟩ := by
  simp [text, Lexeme.text, h, run_fail]

/-- A text literal gives the characters that it reads as, and the first bad escape is reported if
there is one.  Whether the escapes are the accepted ones or only those that denote a character makes
no difference exactly where reading meets no escape with a plus sign. -/
theorem run_text_iff (raw : String) (span : Span) (l : List Lexeme) (stop bound : Nat) :
    (∀ r, text.run ⟨.text raw span :: l, stop, bound⟩ = .ok r ↔
      ∃ cs, Reads Accepted raw.toList cs [] ∧ r = ((span, String.ofList cs), ⟨l, stop, bound⟩)) ∧
    (∀ e, text.run ⟨.text raw span :: l, stop, bound⟩ = .error e ↔
      ∃ bad, FirstBad Accepted raw.toList bad ∧
        e = ⟨span, .invalidEscape (String.ofList bad)⟩) ∧
    (¬ MeetsPlus raw.toList ↔
      (∀ cs, Reads Accepted raw.toList cs [] ↔ Reads Denotes raw.toList cs []) ∧
        ∀ bad, FirstBad Accepted raw.toList bad ↔ FirstBad Denotes raw.toList bad) := by
  refine ⟨fun r => ?_, fun e => ?_, not_meetsPlus_iff⟩
  · simp only [← decode_eq_ok_iff]
    cases hdecode : Escape.decode raw.toList with
    | ok cs => simp [run_text span hdecode, eq_comm]
    | error bad => simp [run_text_error span hdecode]
  · simp only [← decode_eq_error_iff]
    cases hdecode : Escape.decode raw.toList with
    | ok cs => simp [run_text span hdecode]
    | error bad => simp [run_text_error span hdecode, eq_comm]

/-- A plus sign with one digit is read, though it denotes no character. -/
theorem run_text_plus :
    text.run ⟨[.text "\\x+1" ⟨0, 6⟩], 6, 1⟩ = .ok ((⟨0, 6⟩, "\x01"), ⟨[], 6, 1⟩) ∧
      ¬ ∃ cs, Reads Denotes "\\x+1".toList cs [] := by
  refine ⟨rfl, ?_⟩
  rintro ⟨cs, hreads⟩
  have hplus : Signed ['x', '+', '1'] '\x01' := .plus (n := 1) ⟨by decide, .inl rfl⟩
  exact not_begins_denotes_of_signed ⟨_, _, [], hplus, rfl⟩ hreads.begins

end SchemaLang
