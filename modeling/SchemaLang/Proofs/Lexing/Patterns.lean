import Mathlib.Computability.Language
import SchemaLang.Proofs.Spans.Scanning

/-!
# The patterns of tokens

The texts that each kind of token may have, as regular languages over characters, and what `scan`
does on a text that one of them matches.  `scan` goes at least as far as every match,
`exists_scan_of_matches`, and what it takes for a token is a match of that token's own pattern,
`matches_of_scan`.
-/

namespace SchemaLang

open Computability

/-! ## The patterns -/

namespace Pattern

/-- The texts of one character of a class. -/
def one (p : Char → Prop) : Language Char := {w | ∃ c, p c ∧ w = [c]}

/-- The class `[a-zA-Z_]`. -/
def Letter (c : Char) : Prop := ('a' ≤ c ∧ c ≤ 'z') ∨ ('A' ≤ c ∧ c ≤ 'Z') ∨ c = '_'

/-- The class `[0-9]`. -/
def Digit (c : Char) : Prop := '0' ≤ c ∧ c ≤ '9'

/-- The class `[a-zA-Z0-9_]`. -/
def Word (c : Char) : Prop := Letter c ∨ Digit c

/-- The class `[0-9_]`. -/
def Whole (c : Char) : Prop := Digit c ∨ c = '_'

/-- The pattern `[a-zA-Z_][a-zA-Z0-9_]*`. -/
def name : Language Char := one Letter * (one Word)∗

/-- The pattern `[0-9][a-zA-Z0-9_]*`. -/
def whole : Language Char := one Digit * (one Word)∗

/-- The pattern `[0-9][0-9_]*\.[0-9][a-zA-Z0-9_]*`. -/
def fraction : Language Char :=
  one Digit * (one Whole)∗ * one (· = '.') * one Digit * (one Word)∗

/-- The pattern `[eE][+-][0-9]+`. -/
def exponent : Language Char :=
  one (fun c => c = 'e' ∨ c = 'E') * one (fun c => c = '+' ∨ c = '-') * (one Digit * (one Digit)∗)

/-- A number has one of four forms. -/
def number : Language Char := whole + fraction + whole * exponent + fraction * exponent

/-- The pattern `[^q\\]|\\.` of what may stand in a text between quotes `q`; the dot matches every
character but a line feed. -/
def quotedPart (q : Char) : Language Char :=
  one (fun c => c ≠ q ∧ c ≠ '\\') + one (· = '\\') * one (· ≠ '\n')

/-- The pattern `q([^q\\]|\\.)*` of a text that is not closed, or not yet. -/
def unclosed (q : Char) : Language Char := one (· = q) * (quotedPart q)∗

/-- The pattern `q([^q\\]|\\.)*q`. -/
def quoted (q : Char) : Language Char := unclosed q * one (· = q)

/-- The pattern `#[^\n]*`. -/
def comment : Language Char := one (· = '#') * (one (· ≠ '\n'))∗

end Pattern

/-- The pattern of a kind of token. -/
def Token.pattern : Token → Language Char
  | .keyword k => {k.text.toList}
  | .mark m => {m.text.toList}
  | .name _ => Pattern.name
  | .number _ => Pattern.number
  | .text _ => Pattern.quoted '"'
  | .singleQuoted _ => Pattern.quoted '\''

/-- What the pattern of any token matches. -/
def Pattern.token : Language Char := {w | ∃ t : Token, w ∈ t.pattern}

/-! ## Membership -/

namespace Pattern

theorem mem_one_mul {p : Char → Prop} {l : Language Char} {w : List Char} :
    w ∈ one p * l ↔ ∃ c cs, w = c :: cs ∧ p c ∧ cs ∈ l := by
  rw [Language.mem_mul]
  constructor
  · rintro ⟨_, ⟨c, hc, rfl⟩, cs, hcs, rfl⟩
    exact ⟨c, cs, rfl, hc, hcs⟩
  · rintro ⟨c, cs, rfl, hc, hcs⟩
    exact ⟨[c], ⟨c, hc, rfl⟩, cs, hcs, rfl⟩

/-- A repetition is empty, or it starts with one more match. -/
theorem mem_kstar_iff {l : Language Char} {w : List Char} :
    w ∈ l∗ ↔ w = [] ∨ ∃ u ∈ l, ∃ v ∈ l∗, u ++ v = w := by
  conv_lhs => rw [← Language.one_add_self_mul_kstar_eq_kstar]
  rw [Language.mem_add, Language.mem_one, Language.mem_mul]

/-- The repetition of a class. -/
theorem mem_kstar_one {p : Char → Prop} {w : List Char} : w ∈ (one p)∗ ↔ ∀ c ∈ w, p c := by
  induction w with
  | nil => simp [Language.nil_mem_kstar]
  | cons c w ih =>
    rw [mem_kstar_iff, List.forall_mem_cons, ← ih]
    constructor
    · rintro (h | ⟨_, ⟨d, hd, rfl⟩, v, hv, h⟩)
      · cases h
      · obtain ⟨rfl, rfl⟩ := List.cons.inj h
        exact ⟨hd, hv⟩
    · rintro ⟨hc, hw⟩
      exact .inr ⟨[c], ⟨c, hc, rfl⟩, w, hw, rfl⟩

theorem letter_iff {c : Char} : Letter c ↔ isNameStart c := by
  have hstart : isNameStart c =
      (decide (c.val ≥ 'A'.val ∧ c.val ≤ 'Z'.val) || (c.val ≥ 'a'.val && c.val ≤ 'z'.val) ||
        c = '_') := rfl
  rw [hstart, Letter]
  simp only [Bool.or_eq_true, Bool.and_eq_true, decide_eq_true_eq, Char.le_def, ge_iff_le]
  tauto

theorem digit_iff {c : Char} : Digit c ↔ c.isDigit := by
  simp [Digit, Char.isDigit, Char.le_def, UInt32.le_iff_toNat_le]

theorem word_iff {c : Char} : Word c ↔ isWordChar c := by
  rw [Word, letter_iff, digit_iff, isNameStart, isWordChar, Char.isAlphanum]
  simp only [Bool.or_eq_true]
  tauto

theorem whole_iff {c : Char} : Whole c ↔ isWholeChar c := by
  rw [Whole, digit_iff, isWholeChar, Bool.or_eq_true, decide_eq_true_iff]

theorem mem_name {w : List Char} :
    w ∈ name ↔ ∃ c cs, w = c :: cs ∧ isNameStart c ∧ ∀ x ∈ cs, isWordChar x := by
  simp only [name, mem_one_mul, mem_kstar_one, letter_iff, word_iff]

theorem mem_whole {w : List Char} :
    w ∈ whole ↔ ∃ c cs, w = c :: cs ∧ c.isDigit ∧ ∀ x ∈ cs, isWordChar x := by
  simp only [whole, mem_one_mul, mem_kstar_one, digit_iff, word_iff]

theorem mem_fraction {w : List Char} : w ∈ fraction ↔ ∃ c word d cs,
    w = c :: (word ++ '.' :: d :: cs) ∧ c.isDigit ∧ (∀ x ∈ word, isWholeChar x) ∧ d.isDigit ∧
      ∀ x ∈ cs, isWordChar x := by
  simp only [fraction, mul_assoc, mem_one_mul, Language.mem_mul (l := (one Whole)∗), mem_kstar_one,
    digit_iff, word_iff, whole_iff]
  constructor
  · rintro ⟨c, _, rfl, hc, word, hword, _, ⟨_, _, rfl, rfl, d, cs, rfl, hd, hcs⟩, rfl⟩
    exact ⟨c, word, d, cs, rfl, hc, hword, hd, hcs⟩
  · rintro ⟨c, word, d, cs, rfl, hc, hword, hd, hcs⟩
    exact ⟨c, _, rfl, hc, word, hword, _, ⟨'.', _, rfl, rfl, d, cs, rfl, hd, hcs⟩, rfl⟩

theorem mem_exponent {w : List Char} : w ∈ exponent ↔ ∃ letter sign digits,
    w = letter :: sign :: digits ∧ (letter = 'e' ∨ letter = 'E') ∧ (sign = '+' ∨ sign = '-') ∧
      digits ≠ [] ∧ ∀ x ∈ digits, x.isDigit := by
  simp only [exponent, mul_assoc, mem_one_mul, mem_kstar_one, digit_iff]
  constructor
  · rintro ⟨letter, _, rfl, hletter, sign, _, rfl, hsign, d, digits, rfl, hd, hdigits⟩
    exact ⟨letter, sign, d :: digits, rfl, hletter, hsign, by simp,
      List.forall_mem_cons.2 ⟨hd, hdigits⟩⟩
  · rintro ⟨letter, sign, digits, rfl, hletter, hsign, hne, hdigits⟩
    obtain ⟨d, digits, rfl⟩ := List.exists_cons_of_ne_nil hne
    obtain ⟨hd, hdigits⟩ := List.forall_mem_cons.1 hdigits
    exact ⟨letter, _, rfl, hletter, sign, _, rfl, hsign, d, digits, rfl, hd, hdigits⟩

end Pattern

/-! ## Numbers -/

/-- An exponent follows a word that ends in its letter. -/
theorem isExponentAfter_iff {word exponent : List Char} : IsExponentAfter word exponent ↔
    exponent = [] ∨ ∃ u letter sign digits, word = u ++ [letter] ∧ exponent = sign :: digits ∧
      letter :: sign :: digits ∈ Pattern.exponent := by
  constructor
  · rintro (_ | ⟨hletter, hsign, hne, hdigits⟩)
    · exact .inl rfl
    · obtain ⟨letter, hlast, hcase⟩ : ∃ letter, word.getLast? = some letter ∧
          (letter = 'e' ∨ letter = 'E') := by
        rcases hletter with h | h
        · exact ⟨_, h, .inl rfl⟩
        · exact ⟨_, h, .inr rfl⟩
      obtain ⟨u, rfl⟩ := List.getLast?_eq_some_iff.1 hlast
      exact .inr ⟨u, letter, _, _, rfl, rfl,
        Pattern.mem_exponent.2 ⟨_, _, _, rfl, hcase, hsign, hne, hdigits⟩⟩
  · rintro (rfl | ⟨u, letter, sign, digits, rfl, rfl, h⟩)
    · exact .none
    · obtain ⟨_, _, _, e, hletter, hsign, hne, hdigits⟩ := Pattern.mem_exponent.1 h
      cases e
      exact .some (by rcases hletter with rfl | rfl <;> simp) hsign hne hdigits

theorem isWordChar_of_mem_exponent {letter : Char} {w : List Char}
    (h : letter :: w ∈ Pattern.exponent) : isWordChar letter ∧ ¬ letter.isDigit := by
  obtain ⟨_, _, _, e, hletter, -⟩ := Pattern.mem_exponent.1 h
  cases e
  rcases hletter with rfl | rfl <;> decide

/-- The four forms of a number are a digit and what a number may have after its first digit. -/
theorem Pattern.mem_number {w : List Char} :
    w ∈ number ↔ ∃ c cs, w = c :: cs ∧ c.isDigit ∧ IsNumberTail cs := by
  simp only [number, Language.mem_add, Language.mem_mul, mem_whole, mem_fraction]
  constructor
  · rintro (((⟨c, cs, rfl, hc, hcs⟩ | ⟨c, word, d, cs, rfl, hc, hword, hd, hcs⟩) |
      ⟨_, ⟨c, cs, rfl, hc, hcs⟩, e, he, rfl⟩) |
      ⟨_, ⟨c, word, d, cs, rfl, hc, hword, hd, hcs⟩, e, he, rfl⟩)
    · refine ⟨c, cs, rfl, hc, ?_⟩
      simpa using IsNumberTail.whole hcs .none
    · refine ⟨c, _, rfl, hc, ?_⟩
      simpa using IsNumberTail.fraction hword hd
        (List.forall_mem_cons.2 ⟨isWordChar_of_isDigit hd, hcs⟩) .none
    · obtain ⟨letter, sign, digits, rfl, -⟩ := mem_exponent.1 he
      have hexponent := isExponentAfter_iff.2 (.inr ⟨cs, letter, sign, digits, rfl, rfl, he⟩)
      refine ⟨c, _, rfl, hc, ?_⟩
      simpa using IsNumberTail.whole (List.forall_mem_append.2
        ⟨hcs, List.forall_mem_singleton.2 (isWordChar_of_mem_exponent he).1⟩) hexponent
    · obtain ⟨letter, sign, digits, rfl, -⟩ := mem_exponent.1 he
      have hexponent := isExponentAfter_iff.2
        (.inr ⟨d :: cs, letter, sign, digits, rfl, rfl, he⟩)
      have hfraction : ∀ x ∈ d :: (cs ++ [letter]), isWordChar x :=
        List.forall_mem_cons.2 ⟨isWordChar_of_isDigit hd, List.forall_mem_append.2
          ⟨hcs, List.forall_mem_singleton.2 (isWordChar_of_mem_exponent he).1⟩⟩
      refine ⟨c, _, rfl, hc, ?_⟩
      simpa using IsNumberTail.fraction hword hd hfraction hexponent
  · rintro ⟨c, _, rfl, hc, ⟨hword, hexponent⟩ | ⟨hwhole, hd, hword, hexponent⟩⟩
    · rcases isExponentAfter_iff.1 hexponent with rfl | ⟨u, letter, sign, digits, rfl, rfl, he⟩
      · exact .inl (.inl (.inl ⟨c, _, by simp, hc, hword⟩))
      · have hu := (List.forall_mem_append.1 hword).1
        exact .inl (.inr ⟨_, ⟨c, u, rfl, hc, hu⟩, _, he, by simp⟩)
    · obtain ⟨hdword, hfraction⟩ := List.forall_mem_cons.1 hword
      rcases isExponentAfter_iff.1 hexponent with rfl | ⟨u, letter, sign, digits, hu, rfl, he⟩
      · exact .inl (.inl (.inr ⟨c, _, _, _, by simp, hc, hwhole, hd, hfraction⟩))
      · cases u with
        | nil =>
          -- The first digit of a fraction is not the letter of an exponent.
          obtain ⟨rfl, -⟩ := List.cons.inj hu
          exact absurd hd (isWordChar_of_mem_exponent he).2
        | cons d' u =>
          obtain ⟨rfl, rfl⟩ := List.cons.inj hu
          have hu := (List.forall_mem_append.1 hfraction).1
          exact .inr ⟨_, ⟨c, _, _, u, rfl, hc, hwhole, hd, hu⟩, _, he, by simp⟩

/-- The scan of an exponent goes as far as any exponent does. -/
theorem length_le_exponentAfter {word exponent : List Char} (h : IsExponentAfter word exponent)
    (rest : List Char) : exponent.length ≤ Scan.exponentAfter word (exponent ++ rest) := by
  cases h with
  | none => exact Nat.zero_le _
  | @some sign digits letter isSign nonempty areDigits =>
    have hdigits : digits.length ≤ ((digits ++ rest).takeWhile Char.isDigit).length := by
      rw [List.takeWhile_append_of_pos areDigits, List.length_append]
      exact Nat.le_add_right _ _
    have hpos := List.length_pos_iff.2 nonempty
    have hsigned : digits.length + 1 ≤ Scan.signedDigits (sign :: (digits ++ rest)) := by
      simp only [Scan.signedDigits, if_pos isSign]
      split <;> omega
    unfold Scan.exponentAfter
    rcases letter with hl | hl <;> simpa [hl] using hsigned

/-- The scan of a word and its exponent goes as far as any word with an exponent does. -/
theorem length_le_word {word exponent : List Char} (hword : ∀ c ∈ word, isWordChar c)
    (h : IsExponentAfter word exponent) (rest : List Char) :
    word.length + exponent.length ≤
      ((word ++ (exponent ++ rest)).takeWhile isWordChar).length +
        Scan.exponentAfter ((word ++ (exponent ++ rest)).takeWhile isWordChar)
          ((word ++ (exponent ++ rest)).dropWhile isWordChar) := by
  rw [List.takeWhile_append_of_pos hword, List.dropWhile_append_of_pos hword]
  have hexponent := length_le_exponentAfter h rest
  cases h with
  | none => simp only [List.length_append, List.length_nil]; omega
  | @some sign _ _ isSign =>
    have hsign : ¬ isWordChar sign := by
      rcases isSign with rfl | rfl <;> decide
    simpa [hsign] using hexponent

/-- A number goes at least as far as its first word and the exponent after that. -/
theorem word_le_number (cs : List Char) : (cs.takeWhile isWordChar).length +
    Scan.exponentAfter (cs.takeWhile isWordChar) (cs.dropWhile isWordChar) ≤ Scan.number cs := by
  rw [Scan.number, List.span_eq_takeWhile_dropWhile]
  dsimp only
  split
  · next d more hrest =>
    have hnone : Scan.exponentAfter (cs.takeWhile isWordChar) ('.' :: d :: more) = 0 := by
      unfold Scan.exponentAfter
      split <;> rfl
    rw [hrest, hnone]
    split <;> omega
  · exact Nat.le_refl _

/-- The scan of a number goes as far as any number does. -/
theorem length_le_number {cs : List Char} (h : IsNumberTail cs) (rest : List Char) :
    cs.length ≤ Scan.number (cs ++ rest) := by
  cases h with
  | @whole word exponent isWord isExponent =>
    rw [List.length_append, List.append_assoc]
    exact (length_le_word isWord isExponent rest).trans (word_le_number _)
  | @fraction word fraction exponent d isWhole isDigit isWord isExponent =>
    have hspan := span_append (w := '.' :: d :: (fraction ++ (exponent ++ rest)))
      (fun c hc => isWordChar_of_isWholeChar (isWhole c hc)) (fun c hc => by
        obtain rfl : _ = c := by simpa using hc
        decide)
    have hwhole : word.all isWholeChar ∧ d.isDigit := ⟨List.all_eq_true.2 isWhole, isDigit⟩
    have hfraction := length_le_word isWord isExponent rest
    rw [List.cons_append] at hfraction
    simp only [List.append_assoc, List.cons_append, Scan.number, hspan, if_pos hwhole,
      List.span_eq_takeWhile_dropWhile, List.length_append, List.length_cons] at hfraction ⊢
    omega

/-! ## Texts -/

/-- What stands in a text between quotes `q`: plain characters, and backslashes with the character
after them. -/
inductive IsTextBody (q : Char) : List Char → Prop
  | nil : IsTextBody q []
  | plain {c : Char} {cs : List Char} (quote : c ≠ q) (backslash : c ≠ '\\') (rest : IsTextBody q cs) :
    IsTextBody q (c :: cs)
  | escape {c : Char} {cs : List Char} (line : c ≠ '\n') (rest : IsTextBody q cs) :
    IsTextBody q ('\\' :: c :: cs)

namespace Pattern

theorem mem_quotedPart {q : Char} {w : List Char} : w ∈ quotedPart q ↔
    (∃ c, w = [c] ∧ c ≠ q ∧ c ≠ '\\') ∨ ∃ c, w = ['\\', c] ∧ c ≠ '\n' := by
  rw [quotedPart, Language.mem_add, mem_one_mul]
  refine or_congr ⟨?_, ?_⟩ ⟨?_, ?_⟩
  · rintro ⟨c, hc, rfl⟩
    exact ⟨c, rfl, hc⟩
  · rintro ⟨c, rfl, hc⟩
    exact ⟨c, hc, rfl⟩
  · rintro ⟨_, _, rfl, rfl, c, hc, rfl⟩
    exact ⟨c, rfl, hc⟩
  · rintro ⟨c, rfl, hc⟩
    exact ⟨'\\', _, rfl, rfl, c, hc, rfl⟩

/-- The pattern of what stands in a text, character by character. -/
theorem isTextBody_of_mem {q : Char} {ws : List (List Char)} (h : ∀ w ∈ ws, w ∈ quotedPart q) :
    IsTextBody q ws.flatten := by
  induction ws with
  | nil => exact .nil
  | cons w ws ih =>
    obtain ⟨hw, hws⟩ := List.forall_mem_cons.1 h
    rcases mem_quotedPart.1 hw with ⟨c, rfl, hquote, hbackslash⟩ | ⟨c, rfl, hline⟩
    · exact .plain hquote hbackslash (ih hws)
    · exact .escape hline (ih hws)

theorem mem_kstar_quotedPart {q : Char} {w : List Char} : w ∈ (quotedPart q)∗ ↔ IsTextBody q w := by
  constructor
  · intro h
    obtain ⟨ws, rfl, hws⟩ := Language.mem_kstar.1 h
    exact isTextBody_of_mem hws
  · intro h
    induction h with
    | nil => exact Language.nil_mem_kstar _
    | plain hquote hbackslash _ ih =>
      exact mem_kstar_iff.2
        (.inr ⟨_, mem_quotedPart.2 (.inl ⟨_, rfl, hquote, hbackslash⟩), _, ih, rfl⟩)
    | escape hline _ ih =>
      exact mem_kstar_iff.2 (.inr ⟨_, mem_quotedPart.2 (.inr ⟨_, rfl, hline⟩), _, ih, rfl⟩)

theorem mem_unclosed {q : Char} {w : List Char} :
    w ∈ unclosed q ↔ ∃ body, w = q :: body ∧ IsTextBody q body := by
  rw [unclosed, mem_one_mul]
  constructor
  · rintro ⟨_, body, rfl, rfl, hbody⟩
    exact ⟨body, rfl, mem_kstar_quotedPart.1 hbody⟩
  · rintro ⟨body, rfl, hbody⟩
    exact ⟨q, body, rfl, rfl, mem_kstar_quotedPart.2 hbody⟩

theorem mem_quoted {q : Char} {w : List Char} :
    w ∈ quoted q ↔ ∃ body, w = q :: (body ++ [q]) ∧ IsTextBody q body := by
  rw [quoted, Language.mem_mul]
  constructor
  · rintro ⟨_, hu, _, ⟨_, rfl, rfl⟩, rfl⟩
    obtain ⟨body, rfl, hbody⟩ := mem_unclosed.1 hu
    exact ⟨body, rfl, hbody⟩
  · rintro ⟨body, rfl, hbody⟩
    exact ⟨_, mem_unclosed.2 ⟨body, rfl, hbody⟩, _, ⟨q, rfl, rfl⟩, rfl⟩

end Pattern

/-- The scan of a text goes through whatever may stand in it. -/
theorem IsTextBody.quoted_append {q : Char} {body : List Char} (h : IsTextBody q body) (rest : List Char) :
    Scan.quoted q (body ++ rest) =
      ((Scan.quoted q rest).1, (Scan.quoted q rest).2 + body.length) := by
  induction h with
  | nil => rfl
  | plain hquote hbackslash _ ih =>
    rw [List.cons_append, quoted_cons hbackslash, if_neg hquote, ih, List.length_cons]
    rfl
  | escape hline _ ih =>
    rw [List.cons_append, List.cons_append, quoted_escape, if_neg hline, ih, List.length_cons,
      List.length_cons]
    rfl

/-- The scan of a text takes what may stand in it, and then its closing quote if it is closed. -/
theorem exists_isTextBody_of_quoted {q : Char} {cs : List Char} : ∀ {closed n},
    Scan.quoted q cs = (closed, n) → ∃ body, IsTextBody q body ∧ n ≤ cs.length ∧
      cs.take n = body ++ if closed then [q] else [] := by
  fun_induction Scan.quoted q cs with
  | case1 =>
    intro closed n h
    cases h
    exact ⟨[], .nil, Nat.zero_le _, rfl⟩
  | case2 =>
    intro closed n h
    cases h
    exact ⟨[], .nil, Nat.zero_le _, rfl⟩
  | case3 e cs he _ _ hquoted ih =>
    intro closed n h
    cases h
    obtain ⟨body, hbody, hle, htake⟩ := ih hquoted
    exact ⟨'\\' :: e :: body, .escape he hbody, by simpa using hle, by simp [htake]⟩
  | case4 =>
    intro closed n h
    cases h
    exact ⟨[], .nil, Nat.zero_le _, rfl⟩
  | case5 =>
    intro closed n h
    cases h
    exact ⟨[], .nil, by simp, rfl⟩
  | case6 c cs hescape hlast hc _ _ hquoted ih =>
    intro closed n h
    cases h
    obtain ⟨body, hbody, hle, htake⟩ := ih hquoted
    exact ⟨c :: body, .plain hc (ne_backslash hlast hescape) hbody, by simpa using hle,
      by simp [htake]⟩

/-! ## One token -/

theorem exists_scan_of_word {c : Char} {u : List Char} (hc : isNameStart c)
    (hu : ∀ x ∈ u, isWordChar x) (rest : List Char) :
    ∃ t n, scan c (u ++ rest) = .token t n ∧ u.length ≤ n := by
  refine ⟨_, _, scan_of_isNameStart hc _, ?_⟩
  rw [List.takeWhile_append_of_pos hu, List.length_append]
  exact Nat.le_add_right _ _

theorem exists_scan_of_mark {m : Mark} {c : Char} {u : List Char} (h : m.text.toList = c :: u)
    (rest : List Char) : ∃ t n, scan c (u ++ rest) = .token t n ∧ u.length ≤ n := by
  by_cases hends : (Token.mark m).EndsBefore rest
  · exact ⟨_, _, scan_mark h hends, Nat.le_refl _⟩
  · -- Only the minus can run on, and then into an arrow.
    cases m with
    | minus =>
      obtain ⟨rfl, rfl⟩ : '-' = c ∧ [] = u := List.cons.inj h
      obtain ⟨rest', rfl⟩ : ∃ rest', rest = '>' :: rest' := by
        simp only [Token.EndsBefore, ne_eq, not_not] at hends
        exact List.head?_eq_some_iff.1 hends
      have harrow : scan '-' (['>'] ++ rest') = .token (.mark .arrow) 1 :=
        scan_mark (m := .arrow) rfl trivial
      exact ⟨_, _, harrow, Nat.zero_le _⟩
    | _ => exact absurd trivial hends

/-- A closed text is read up to its closing quote. -/
theorem IsTextBody.ofQuote_close {q : Char} (hq : q ≠ '\\') {body : List Char}
    (h : IsTextBody q body) (make : String → Token) (rest : List Char) :
    Scan.ofQuote q make (body ++ [q] ++ rest) =
      .token (make (String.ofList body)) (body.length + 1) := by
  have hquoted : Scan.quoted q (body ++ [q] ++ rest) = (true, body.length + 1) := by
    rw [List.append_assoc, h.quoted_append, List.singleton_append, quoted_cons hq, if_pos rfl,
      Nat.add_comm]
  rw [Scan.ofQuote, hquoted]
  simp

/-- Where a text that a token's pattern matches begins a longer text, the scan takes a token that is
at least as long. -/
theorem exists_scan_of_matches {t : Token} {c : Char} {u : List Char} (h : c :: u ∈ t.pattern)
    (rest : List Char) : ∃ t' n, scan c (u ++ rest) = .token t' n ∧ u.length ≤ n := by
  cases t with
  | keyword k =>
    obtain ⟨c', u', hk, hc, hu⟩ := keyword_text k
    obtain ⟨rfl, rfl⟩ := List.cons.inj (Eq.trans (b := k.text.toList) h hk)
    exact exists_scan_of_word hc hu rest
  | mark m => exact exists_scan_of_mark (Eq.symm h) rest
  | name s =>
    obtain ⟨_, _, e, hc, hu⟩ := Pattern.mem_name.1 h
    cases e
    exact exists_scan_of_word hc hu rest
  | number s =>
    obtain ⟨_, _, e, hc, hu⟩ := Pattern.mem_number.1 h
    cases e
    exact ⟨_, _, scan_of_isDigit hc _, length_le_number hu rest⟩
  | text raw =>
    obtain ⟨body, e, hbody⟩ := Pattern.mem_quoted.1 h
    cases e
    rw [scan_doubleQuote, hbody.ofQuote_close (by decide)]
    exact ⟨_, _, rfl, by simp⟩
  | singleQuoted raw =>
    obtain ⟨body, e, hbody⟩ := Pattern.mem_quoted.1 h
    cases e
    rw [scan_singleQuote, hbody.ofQuote_close (by decide)]
    exact ⟨_, _, rfl, by simp⟩

theorem mem_pattern_ofWord {c : Char} {cs : List Char} (hc : isNameStart c)
    (hcs : ∀ x ∈ cs, isWordChar x) : c :: cs ∈ (Token.ofWord (c :: cs)).pattern := by
  have hspelling := spelling_ofWord (c :: cs)
  cases hword : Token.ofWord (c :: cs) with
  | keyword k =>
    rw [hword] at hspelling
    exact Eq.symm hspelling
  | name s => exact Pattern.mem_name.2 ⟨c, cs, rfl, hc, hcs⟩
  | _ =>
    unfold Token.ofWord at hword
    split at hword <;> cases hword

/-- The text that the scan takes for a quoted one. -/
theorem mem_quoted_of_ofQuote {q : Char} {make : String → Token} {cs : List Char} {t : Token}
    {n : Nat} (h : Scan.ofQuote q make cs = .token t n) :
    q :: cs.take n ∈ Pattern.quoted q ∧ n ≤ cs.length := by
  unfold Scan.ofQuote at h
  split at h
  · next m hquoted =>
    obtain ⟨-, rfl⟩ := Scan.token.inj h
    obtain ⟨body, hbody, hle, htake⟩ := exists_isTextBody_of_quoted hquoted
    rw [htake]
    exact ⟨Pattern.mem_quoted.2 ⟨body, rfl, hbody⟩, hle⟩
  · cases h

/-- What the scan takes for a token is matched by the token's pattern. -/
theorem matches_of_scan {c : Char} {cs : List Char} {t : Token} {n : Nat}
    (h : scan c cs = .token t n) : c :: cs.take n ∈ t.pattern ∧ n ≤ cs.length := by
  cases scannedToken_of_scan h with
  | word hstart =>
    have hbegins := List.takeWhile_prefix (l := cs) isWordChar
    rw [← List.prefix_iff_eq_take.1 hbegins]
    exact ⟨mem_pattern_ofWord hstart (List.all_eq_true.1 List.all_takeWhile), hbegins.length_le⟩
  | number hdigit =>
    exact ⟨Pattern.mem_number.2 ⟨c, _, rfl, hdigit, isNumberTail_take cs⟩, number_le cs⟩
  | text hquote hbody =>
    subst hquote
    obtain ⟨s, rfl⟩ := ofQuote_eq_token hbody
    exact mem_quoted_of_ofQuote hbody
  | singleQuoted hquote hbody =>
    subst hquote
    obtain ⟨s, rfl⟩ := ofQuote_eq_token hbody
    exact mem_quoted_of_ofQuote hbody
  | arrow hminus hhead =>
    subst hminus hhead
    exact ⟨rfl, by simp⟩
  | mark hm => exact ⟨Eq.symm (text_ofChar? hm), Nat.zero_le _⟩

end SchemaLang
