import Mathlib.Data.List.TakeDrop
import SchemaLang.Proofs.Printing.Texts

/-!
# Scanning a token

The tokens that the lexer gives and those that it takes up to their end: the spelling of a well
formed token is read as the token, `scan_spelling`, and the names and numbers that are read are well
formed, `isGenuine_of_scan`.
-/

namespace SchemaLang

/-! ## Numbers -/

/-- A word is followed by nothing, or it ends in the letter of an exponent whose sign and digits
follow. -/
inductive IsExponentAfter (word : List Char) : List Char → Prop
  | none : IsExponentAfter word []
  | some {sign : Char} {digits : List Char}
      (letter : word.getLast? = some 'e' ∨ word.getLast? = some 'E')
      (isSign : sign = '+' ∨ sign = '-') (nonempty : digits ≠ [])
      (areDigits : ∀ c ∈ digits, c.isDigit) : IsExponentAfter word (sign :: digits)

/-- What a number may have after its first digit. -/
inductive IsNumberTail : List Char → Prop
  | whole {word exponent : List Char} (isWord : ∀ c ∈ word, isWordChar c)
      (isExponent : IsExponentAfter word exponent) : IsNumberTail (word ++ exponent)
  | fraction {word fraction exponent : List Char} {d : Char} (isWhole : ∀ c ∈ word, isWholeChar c)
      (isDigit : d.isDigit) (isWord : ∀ c ∈ d :: fraction, isWordChar c)
      (isExponent : IsExponentAfter (d :: fraction) exponent) :
      IsNumberTail (word ++ '.' :: (d :: fraction ++ exponent))

/-- What follows a number and does not belong to it. -/
def EndsNumber (rest : List Char) : Prop :=
  ∀ c ∈ rest.head?, ¬ isWordChar c ∧ c ≠ '.' ∧ c ≠ '+' ∧ c ≠ '-'

theorem isWordChar_of_isWholeChar {c : Char} (h : isWholeChar c) : isWordChar c := by
  simp only [isWholeChar, isWordChar, Char.isAlphanum, Bool.or_eq_true, decide_eq_true_eq] at h ⊢
  rcases h with h | h
  · exact Or.inl (Or.inr h)
  · exact Or.inr h

theorem isWordChar_of_isDigit {c : Char} (h : c.isDigit) : isWordChar c :=
  isWordChar_of_isWholeChar (by simp [isWholeChar, h])

/-- A run of characters of one kind ends where the first of another kind stands. -/
theorem span_append {p : Char → Bool} {u w : List Char} (hu : ∀ c ∈ u, p c)
    (hw : ∀ c ∈ w.head?, ¬ p c) : (u ++ w).span p = (u, w) := by
  rw [List.span_eq_takeWhile_dropWhile, List.takeWhile_append_of_pos hu,
    List.dropWhile_append_of_pos hu]
  cases w with
  | nil => simp
  | cons c w =>
    have hc : ¬ p c := hw c rfl
    simp [hc]

theorem signedDigits_of_endsNumber {rest : List Char} (h : EndsNumber rest) :
    Scan.signedDigits rest = 0 := by
  cases rest with
  | nil => rfl
  | cons c rest =>
    obtain ⟨-, -, hplus, hminus⟩ := h c rfl
    simp [Scan.signedDigits, hplus, hminus]

/-- An exponent is read up to its end, and none where there is none. -/
theorem exponentAfter_append {word exponent rest : List Char}
    (h : IsExponentAfter word exponent) (hr : EndsNumber rest) :
    Scan.exponentAfter word (exponent ++ rest) = exponent.length := by
  cases h with
  | none =>
    unfold Scan.exponentAfter
    split
    · exact signedDigits_of_endsNumber hr
    · exact signedDigits_of_endsNumber hr
    · rfl
  | @some sign digits letter isSign nonempty areDigits =>
    have htake : (digits ++ rest).takeWhile Char.isDigit = digits := by
      have hspan := span_append areDigits (w := rest)
        (fun c hc hd => (hr c hc).1 (isWordChar_of_isDigit hd))
      rw [List.span_eq_takeWhile_dropWhile] at hspan
      exact (Prod.mk.inj hspan).1
    obtain ⟨n, hn⟩ : ∃ n, digits.length = n + 1 :=
      ⟨digits.length - 1, by have := List.length_pos_iff.2 nonempty; omega⟩
    have hdigits : Scan.signedDigits (sign :: (digits ++ rest)) = digits.length + 1 := by
      simp [Scan.signedDigits, isSign, htake, hn]
    unfold Scan.exponentAfter
    rcases letter with hl | hl <;> simp [hl, hdigits]

/-- An exponent continues neither a word nor a fraction. -/
theorem head_exponent_append {word exponent rest : List Char} (h : IsExponentAfter word exponent)
    (hr : EndsNumber rest) : ∀ c ∈ (exponent ++ rest).head?, ¬ isWordChar c ∧ c ≠ '.' := by
  intro c hc
  cases h with
  | none => exact ⟨(hr c hc).1, (hr c hc).2.1⟩
  | some _ isSign =>
    obtain rfl : _ = c := by simpa using hc
    rcases isSign with rfl | rfl <;> decide

/-- A number is read up to its end. -/
theorem number_append {cs rest : List Char} (h : IsNumberTail cs) (hr : EndsNumber rest) :
    Scan.number (cs ++ rest) = cs.length := by
  cases h with
  | @whole word exponent isWord isExponent =>
    have hhead := head_exponent_append isExponent hr
    have hspan := span_append isWord (fun c hc => (hhead c hc).1)
    rw [List.append_assoc, Scan.number, hspan]
    dsimp only
    split
    · next heq => exact absurd rfl (hhead '.' (by rw [heq]; rfl)).2
    · rw [exponentAfter_append isExponent hr, List.length_append]
  | @fraction word fraction exponent d isWhole isDigit isWord isExponent =>
    have hwhole : word.all isWholeChar ∧ d.isDigit := ⟨List.all_eq_true.2 isWhole, isDigit⟩
    have hspan := span_append (w := '.' :: d :: (fraction ++ (exponent ++ rest)))
      (fun c hc => isWordChar_of_isWholeChar (isWhole c hc)) (fun c hc => by
        obtain rfl : _ = c := by simpa using hc
        decide)
    have hspan' := span_append isWord (fun c hc => (head_exponent_append isExponent hr c hc).1)
    rw [List.cons_append] at hspan'
    simp only [List.append_assoc, List.cons_append, Scan.number, hspan, if_pos hwhole, hspan',
      exponentAfter_append isExponent hr, List.length_append, List.length_cons]
    omega

theorem isExponentAfter_take (word rest : List Char) :
    IsExponentAfter word (rest.take (Scan.exponentAfter word rest)) := by
  by_cases hzero : Scan.exponentAfter word rest = 0
  · rw [hzero]
    exact .none
  have hletter : word.getLast? = some 'e' ∨ word.getLast? = some 'E' := by
    unfold Scan.exponentAfter at hzero
    split at hzero
    · next h => exact Or.inl h
    · next h => exact Or.inr h
    · exact absurd rfl hzero
  have hexponent : Scan.exponentAfter word rest = Scan.signedDigits rest := by
    unfold Scan.exponentAfter
    rcases hletter with h | h <;> simp [h]
  rw [hexponent] at hzero ⊢
  cases rest with
  | nil => exact absurd rfl hzero
  | cons sign cs =>
    simp only [Scan.signedDigits] at hzero ⊢
    split at hzero
    · next hsign =>
      rw [if_pos hsign]
      split at hzero
      · exact absurd rfl hzero
      · next n hn =>
        rw [List.take_succ_cons]
        have htake : cs.take (n + 1) = cs.takeWhile Char.isDigit := by
          rw [← Nat.succ_eq_add_one, ← hn]
          exact (List.prefix_iff_eq_take.1 (List.takeWhile_prefix _)).symm
        rw [htake]
        refine .some hletter hsign (List.length_pos_iff.1 (by omega)) fun c hc => ?_
        exact List.all_eq_true.1 List.all_takeWhile c hc
    · exact absurd rfl hzero

/-- What is read as a number is one. -/
theorem isNumberTail_take (cs : List Char) : IsNumberTail (cs.take (Scan.number cs)) := by
  have hall {p : Char → Bool} {l : List Char} : ∀ c ∈ l.takeWhile p, p c :=
    List.all_eq_true.1 List.all_takeWhile
  obtain ⟨word, rest, hspan, rfl⟩ : ∃ word rest, cs.span isWordChar = (word, rest) ∧
      cs = word ++ rest := by
    rw [List.span_eq_takeWhile_dropWhile]
    exact ⟨_, _, rfl, List.takeWhile_append_dropWhile.symm⟩
  have hword : ∀ c ∈ word, isWordChar c := by
    rw [List.span_eq_takeWhile_dropWhile] at hspan
    rw [← (Prod.mk.inj hspan).1]
    exact hall
  rw [Scan.number, hspan]
  dsimp only
  split
  · next d more =>
    split
    · next hwhole =>
      obtain ⟨fraction, tail, hspan', rfl, hfraction⟩ : ∃ fraction tail,
          (d :: more).span isWordChar = (d :: fraction, tail) ∧ more = fraction ++ tail ∧
            ∀ c ∈ d :: fraction, isWordChar c := by
        have hd : isWordChar d := isWordChar_of_isDigit hwhole.2
        refine ⟨more.takeWhile isWordChar, more.dropWhile isWordChar, ?_,
          List.takeWhile_append_dropWhile.symm, ?_⟩
        · simp [List.span_eq_takeWhile_dropWhile, hd]
        · exact List.forall_mem_cons.2 ⟨hd, hall⟩
      rw [hspan']
      dsimp only
      rw [Nat.add_assoc, Nat.add_assoc, List.take_length_add_append, Nat.add_comm 1,
        List.take_succ_cons, ← List.cons_append, List.take_length_add_append]
      exact .fraction (List.all_eq_true.1 hwhole.1) hwhole.2 hfraction (isExponentAfter_take _ _)
    · rw [List.take_left]
      simpa using IsNumberTail.whole hword .none
  · rw [List.take_length_add_append]
    exact .whole hword (isExponentAfter_take _ _)

/-! ## Tokens -/

/-- The lexer may take the text for a name. -/
def IsName (s : String) : Prop :=
  ∃ c cs, s.toList = c :: cs ∧ isNameStart c ∧ (∀ x ∈ cs, isWordChar x) ∧ Keyword.ofText? s = none

/-- The lexer may take the text for a number. -/
def IsNumber (s : String) : Prop := ∃ c cs, s.toList = c :: cs ∧ c.isDigit ∧ IsNumberTail cs

namespace Token

/-- The name or the number that a token holds is one that the lexer gives. -/
def IsGenuine (t : Token) : Prop :=
  (∀ s, t = .name s → IsName s) ∧ ∀ s, t = .number s → IsNumber s

/-- A token that a layout may hold. -/
def WellFormed : Token → Prop
  | .keyword _ | .mark _ => True
  | .name s => IsName s
  | .number s => IsNumber s
  | .text raw => ∃ cs, raw = String.ofList (Escape.encode cs)
  | .singleQuoted _ => False

/-- What follows does not belong to the token. -/
def EndsBefore : Token → List Char → Prop
  | .keyword _, rest | .name _, rest => ∀ c ∈ rest.head?, ¬ isWordChar c
  | .number _, rest => EndsNumber rest
  | .mark .minus, rest => rest.head? ≠ some '>'
  | _, _ => True

end Token

theorem toNat_of_isAlpha {c : Char} (h : c.isAlpha) : 65 ≤ c.toNat ∧ c.toNat ≤ 122 := by
  have hletter : (decide (c.val ≥ 'A'.val ∧ c.val ≤ 'Z'.val) ||
      decide (c.val ≥ 'a'.val) && decide (c.val ≤ 'z'.val)) = true := h
  simp only [Bool.or_eq_true, Bool.and_eq_true, decide_eq_true_eq, ge_iff_le,
    UInt32.le_iff_toNat_le] at hletter
  have hval : c.toNat = c.val.toNat := rfl
  have hA : 'A'.val.toNat = 65 := rfl
  have hZ : 'Z'.val.toNat = 90 := rfl
  have ha : 'a'.val.toNat = 97 := rfl
  have hz : 'z'.val.toNat = 122 := rfl
  omega

theorem toNat_of_isDigit {c : Char} (h : c.isDigit) : 48 ≤ c.toNat ∧ c.toNat ≤ 57 := by
  simp only [Char.isDigit, Bool.and_eq_true, decide_eq_true_eq, ge_iff_le,
    UInt32.le_iff_toNat_le] at h
  exact h

theorem isBlank_of_isWordChar {c : Char} (h : isWordChar c) : ¬ isBlank c := by
  have hrange : 48 ≤ c.toNat ∧ c.toNat ≤ 122 := by
    simp only [isWordChar, Char.isAlphanum, Bool.or_eq_true, decide_eq_true_eq] at h
    rcases h with (h | h) | rfl
    · have := toNat_of_isAlpha h
      omega
    · have := toNat_of_isDigit h
      omega
    · decide
  simp [isBlank]
  omega

theorem isNameStart_of_isDigit {c : Char} (h : c.isDigit) : ¬ isNameStart c := by
  intro hstart
  have hdigit := toNat_of_isDigit h
  simp only [isNameStart, Bool.or_eq_true, decide_eq_true_eq] at hstart
  rcases hstart with hstart | rfl
  · have := toNat_of_isAlpha hstart
    omega
  · exact absurd h (by decide)

theorem isWordChar_of_isNameStart {c : Char} (h : isNameStart c) : isWordChar c := by
  simp only [isNameStart, isWordChar, Char.isAlphanum, Bool.or_eq_true, decide_eq_true_eq] at h ⊢
  rcases h with h | h
  · exact Or.inl (Or.inl h)
  · exact Or.inr h

theorem scan_of_isNameStart {c : Char} (h : isNameStart c) (cs : List Char) :
    scan c cs = .token (.ofWord (c :: cs.takeWhile isWordChar))
      (cs.takeWhile isWordChar).length := by
  have hword := isWordChar_of_isNameStart h
  have hhash : c ≠ '#' := by
    rintro rfl
    exact absurd hword (by decide)
  unfold scan
  rw [if_neg (isBlank_of_isWordChar hword), if_neg hhash, if_pos h]

theorem scan_of_isDigit {c : Char} (h : c.isDigit) (cs : List Char) :
    scan c cs = .token (.number (String.ofList (c :: cs.take (Scan.number cs))))
      (Scan.number cs) := by
  have hword := isWordChar_of_isDigit h
  have hhash : c ≠ '#' := by
    rintro rfl
    exact absurd hword (by decide)
  unfold scan
  rw [if_neg (isBlank_of_isWordChar hword), if_neg hhash, if_neg (isNameStart_of_isDigit h),
    if_pos h]

theorem scan_word {c : Char} {cs rest : List Char} (hstart : isNameStart c)
    (hcs : ∀ x ∈ cs, isWordChar x) (hr : ∀ x ∈ rest.head?, ¬ isWordChar x) :
    scan c (cs ++ rest) = .token (.ofWord (c :: cs)) cs.length := by
  have hspan := span_append hcs hr
  rw [List.span_eq_takeWhile_dropWhile] at hspan
  rw [scan_of_isNameStart hstart, (Prod.mk.inj hspan).1]

theorem scan_number {c : Char} {cs rest : List Char} (hdigit : c.isDigit) (hcs : IsNumberTail cs)
    (hr : EndsNumber rest) :
    scan c (cs ++ rest) = .token (.number (String.ofList (c :: cs))) cs.length := by
  rw [scan_of_isDigit hdigit, number_append hcs hr, List.take_left]

theorem scan_quoted (cs rest : List Char) :
    scan '"' (Escape.encode cs ++ '"' :: rest) =
      .token (.text (String.ofList (Escape.encode cs))) ((Escape.encode cs).length + 1) := by
  unfold scan
  rw [if_neg (by decide), if_neg (by decide), if_neg (by decide), if_neg (by decide),
    if_pos rfl, Scan.ofQuote, quoted_encode]
  simp

theorem keyword_text (k : Keyword) : ∃ c cs, k.text.toList = c :: cs ∧ isNameStart c ∧
    ∀ x ∈ cs, isWordChar x := by
  cases k <;> exact ⟨_, _, rfl, rfl, List.all_eq_true.1 rfl⟩

/-- A well formed token is read as itself, up to its end. -/
theorem scan_spelling {t : Token} {rest : List Char} (ht : t.WellFormed) (hr : t.EndsBefore rest) :
    ∃ c cs, t.spelling.toList = c :: cs ∧ scan c (cs ++ rest) = .token t cs.length := by
  cases t with
  | keyword k =>
    obtain ⟨c, cs, hk, hstart, hcs⟩ := keyword_text k
    have hword : Token.ofWord (c :: cs) = .keyword k := by
      have hof : Keyword.ofText? k.text = some k := by cases k <;> rfl
      rw [Token.ofWord, ← hk, String.ofList_toList, hof]
    exact ⟨c, cs, hk, by rw [scan_word hstart hcs hr, hword]⟩
  | mark m =>
    cases m with
    | arrow => exact ⟨'-', ['>'], rfl, rfl⟩
    | minus =>
      refine ⟨'-', [], rfl, ?_⟩
      unfold scan
      rw [if_neg (by decide), if_neg (by decide), if_neg (by decide), if_neg (by decide),
        if_neg (by decide), if_neg (by decide)]
      split
      · next hrest => exact absurd (congrArg List.head? hrest) hr
      · rfl
    | _ => exact ⟨_, [], rfl, rfl⟩
  | name s =>
    obtain ⟨c, cs, hs, hstart, hcs, hkeyword⟩ := ht
    have hword : Token.ofWord (c :: cs) = .name s := by
      rw [Token.ofWord, ← hs, String.ofList_toList, hkeyword]
    exact ⟨c, cs, hs, by rw [scan_word hstart hcs hr, hword]⟩
  | number s =>
    obtain ⟨c, cs, hs, hdigit, hcs⟩ := ht
    exact ⟨c, cs, hs, by rw [scan_number hdigit hcs hr, ← hs, String.ofList_toList]⟩
  | text raw =>
    obtain ⟨cs, rfl⟩ := ht
    refine ⟨'"', Escape.encode cs ++ ['"'], by simp [Token.spelling], ?_⟩
    simpa using scan_quoted cs rest
  | singleQuoted raw => exact ht.elim

theorem ofQuote_eq_token {quote : Char} {make : String → Token} {cs : List Char} {t : Token}
    {n : Nat} (h : Scan.ofQuote quote make cs = .token t n) : ∃ s, t = make s := by
  unfold Scan.ofQuote at h
  split at h
  · obtain ⟨rfl, -⟩ := Scan.token.inj h
    exact ⟨_, rfl⟩
  · cases h

/-- How the lexer comes to read a token that starts with the character `c` before `cs`. -/
inductive ScannedToken (c : Char) (cs : List Char) : Token → Nat → Prop
  | word (start : isNameStart c) :
    ScannedToken c cs (.ofWord (c :: cs.takeWhile isWordChar)) (cs.takeWhile isWordChar).length
  | number (digit : c.isDigit) :
    ScannedToken c cs (.number (String.ofList (c :: cs.take (Scan.number cs)))) (Scan.number cs)
  | text {t : Token} {n : Nat} (quote : c = '"') (body : Scan.ofQuote '"' .text cs = .token t n) :
    ScannedToken c cs t n
  | singleQuoted {t : Token} {n : Nat} (quote : c = '\'')
      (body : Scan.ofQuote '\'' .singleQuoted cs = .token t n) : ScannedToken c cs t n
  | arrow {rest : List Char} (minus : c = '-') (head : cs = '>' :: rest) :
    ScannedToken c cs (.mark .arrow) 1
  | mark {m : Mark} (ofChar : Mark.ofChar? c = some m) : ScannedToken c cs (.mark m) 0

theorem scannedToken_of_scan {c : Char} {cs : List Char} {t : Token} {n : Nat}
    (h : scan c cs = .token t n) : ScannedToken c cs t n := by
  unfold scan at h
  split at h
  · cases h
  · split at h
    · cases h
    · split at h
      · next hstart =>
        obtain ⟨rfl, rfl⟩ := Scan.token.inj h
        exact .word hstart
      · split at h
        · next hdigit =>
          obtain ⟨rfl, rfl⟩ := Scan.token.inj h
          exact .number hdigit
        · split at h
          · next hquote => exact .text hquote h
          · split at h
            · next hquote => exact .singleQuoted hquote h
            · split at h
              · obtain ⟨rfl, rfl⟩ := Scan.token.inj h
                exact .arrow rfl rfl
              · split at h
                · next hm =>
                  obtain ⟨rfl, rfl⟩ := Scan.token.inj h
                  exact .mark hm
                · cases h

/-- The names and the numbers that the lexer gives are genuine. -/
theorem isGenuine_of_scan {c : Char} {cs : List Char} {t : Token} {n : Nat}
    (h : scan c cs = .token t n) : t.IsGenuine := by
  cases scannedToken_of_scan h with
  | word hstart =>
    unfold Token.ofWord
    split
    · exact ⟨nofun, nofun⟩
    · next hkeyword =>
      refine ⟨fun s e => ?_, nofun⟩
      obtain rfl := Token.name.inj e
      exact ⟨c, _, String.toList_ofList, hstart, List.all_eq_true.1 List.all_takeWhile, hkeyword⟩
  | number hdigit =>
    refine ⟨nofun, fun s e => ?_⟩
    obtain rfl := Token.number.inj e
    exact ⟨c, _, String.toList_ofList, hdigit, isNumberTail_take cs⟩
  | text _ hbody =>
    obtain ⟨s, rfl⟩ := ofQuote_eq_token hbody
    exact ⟨nofun, nofun⟩
  | singleQuoted _ hbody =>
    obtain ⟨s, rfl⟩ := ofQuote_eq_token hbody
    exact ⟨nofun, nofun⟩
  | arrow => exact ⟨nofun, nofun⟩
  | mark => exact ⟨nofun, nofun⟩

/-! ## Printed numbers -/

theorem isNumber_toString (n : Nat) : IsNumber (toString n) := by
  have hdigit : ∀ c ∈ Nat.toDigits 10 n, c.isDigit :=
    fun c hc => Nat.isDigit_of_mem_toDigits (by decide) (by decide) hc
  obtain ⟨c, cs, hcs⟩ := List.exists_cons_of_ne_nil (Nat.toDigits_ne_nil (n := n) (b := 10))
  rw [hcs] at hdigit
  obtain ⟨hc, htail⟩ := List.forall_mem_cons.1 hdigit
  have hnumber := IsNumberTail.whole (fun x hx => isWordChar_of_isDigit (htail x hx))
    (.none : IsExponentAfter cs [])
  rw [List.append_nil] at hnumber
  exact ⟨c, cs, by rw [← hcs]; exact Nat.toList_repr, hc, hnumber⟩

end SchemaLang
