import Mathlib.Data.List.Forall2
import Mathlib.Data.List.Induction
import Mathlib.Data.Nat.Digits.Defs
import Mathlib.Tactic.Ring
import SchemaLang.Proofs.Numerals

/-!
# Integers from their digits

What the text of an integer numeral means, said without regard to how it is read: `Base.Begins`
splits a text into a sign, the mark of the base, the longest run of digits and a rest, and
`Base.number` is the positional value of digits.  An integer type reads exactly the numerals whose
value it holds, and reports a value out of range exactly where the whole run of digits is out of
range, though it stops at the first digit that leaves the range: `decode_exact`.
-/

namespace SchemaLang

open Numeral

/-! ## Digits -/

namespace Base

/-- The character writes the digit in the base; a letter may have either case. -/
def Writes (b : Base) (c : Char) (digit : Nat) : Prop :=
  digit < b.radix ∧ (c = digit.digitChar ∨ c = digit.digitChar.toUpper)

theorem radix_le (b : Base) : b.radix ≤ 16 := by cases b <;> decide

theorem digit?_of_writes {b : Base} {c : Char} {d : Nat} (h : b.Writes c d) :
    b.digit? c = some d := by
  have hdigits : ∀ b : Base, ∀ d < 16, d < b.radix →
      b.digit? d.digitChar = some d ∧ b.digit? d.digitChar.toUpper = some d := by
    intro b
    cases b <;> decide
  obtain ⟨hd, rfl | rfl⟩ := h
  · exact (hdigits b d (by have := b.radix_le; omega) hd).1
  · exact (hdigits b d (by have := b.radix_le; omega) hd).2

/-- A character that is not too far behind the first of its class is given by the distance. -/
theorem eq_ofNat_add {c first : Char} (h : first ≤ c) :
    c = Char.ofNat (first.toNat + (c.toNat - first.toNat)) := by
  have hle : first.toNat ≤ c.toNat := h
  rw [Nat.add_sub_cancel' hle, Char.ofNat_toNat]

theorem writes_of_digit? {b : Base} {c : Char} {d : Nat} (h : b.digit? c = some d) :
    b.Writes c d := by
  have hfigure : ∀ k < 10, Char.ofNat ('0'.toNat + k) = k.digitChar := by decide
  have hsmall : ∀ k < 6, Char.ofNat ('a'.toNat + k) = (k + 10).digitChar := by decide
  have hlarge : ∀ k < 6, Char.ofNat ('A'.toNat + k) = (k + 10).digitChar.toUpper := by decide
  have hradix := b.radix_le
  simp only [digit?] at h
  obtain ⟨hlt, hd⟩ := Option.ite_none_right_eq_some.1 h
  refine ⟨Option.some.inj hd ▸ hlt, ?_⟩
  rw [← Option.some.inj hd]
  split at hlt
  · next hc =>
    have hle : c.toNat ≤ '9'.toNat := hc.2
    rw [if_pos hc, ← hfigure _ (by simp at hle ⊢; omega)]
    exact .inl (eq_ofNat_add hc.1)
  · split at hlt
    · next hc' hc =>
      rw [if_neg hc', if_pos hc, ← hsmall _ (by omega)]
      exact .inl (eq_ofNat_add hc.1)
    · split at hlt
      · next hc'' hc' hc =>
        rw [if_neg hc'', if_neg hc', if_pos hc, ← hlarge _ (by omega)]
        exact .inr (eq_ofNat_add hc.1)
      · exact absurd hlt (Nat.lt_irrefl _)

theorem digit?_eq_some_iff {b : Base} {c : Char} {d : Nat} :
    b.digit? c = some d ↔ b.Writes c d :=
  ⟨writes_of_digit?, digit?_of_writes⟩

/-- The number that digits denote, the first of them being the most significant. -/
def number (b : Base) (digits : List Nat) : Nat := Nat.ofDigits b.radix digits.reverse

theorem number_concat (b : Base) (ds : List Nat) (d : Nat) :
    b.number (ds ++ [d]) = b.number ds * b.radix + d := by
  unfold number
  rw [List.reverse_concat, Nat.ofDigits_cons, Nat.add_comm, Nat.mul_comm]

/-- Further digits only make a number larger. -/
theorem number_le_append (b : Base) (ds es : List Nat) : b.number ds ≤ b.number (ds ++ es) := by
  induction es using List.reverseRecOn with
  | nil => rw [List.append_nil]
  | append_singleton es e ih =>
    have hradix : 0 < b.radix := by cases b <;> decide
    rw [← List.append_assoc, number_concat]
    exact Nat.le_trans ih (Nat.le_trans (Nat.le_mul_of_pos_right _ hradix) (Nat.le_add_right _ _))

end Base

/-- A magnitude and a sign, which is true for minus. -/
def Numeral.withSign (negative : Bool) (n : Nat) : Int := if negative then -n else n

theorem withSign_zero (negative : Bool) : withSign negative 0 = 0 := by cases negative <;> rfl

/-- What a type holds it holds together with everything nearer to zero. -/
theorem IntType.Holds.of_withSign_le {t : IntType} {negative : Bool} {m n : Nat}
    (h : t.Holds (withSign negative n)) (hm : m ≤ n) : t.Holds (withSign negative m) := by
  cases negative with
  | false => exact Holds.of_le h hm
  | true =>
    have hmin : t.min ≤ -(n : Int) := h.1
    have hmax : 0 ≤ t.max := t.holds_zero.2
    have hneg : t.min ≤ -(m : Int) ∧ -(m : Int) ≤ t.max := by omega
    exact hneg

theorem extend_withSign (b : Base) (negative : Bool) (n d : Nat) :
    IntType.extend b negative (withSign negative n) d = withSign negative (n * b.radix + d) := by
  cases negative with
  | false => simp [IntType.extend, withSign]
  | true =>
    simp only [IntType.extend, withSign, if_true]
    push_cast
    ring

/-! ## Numerals of a base -/

/-- The sign of a numeral, which only stands there for minus. -/
def Numeral.sign (negative : Bool) : List Char := if negative then ['-'] else []

/-- The mark that stands before the digits of the base. -/
def Base.mark : Base → List Char
  | .hexadecimal => ['0', 'x']
  | .octal | .decimal => []

theorem Base.mark_of_ne {b : Base} (h : b ≠ .hexadecimal) : b.mark = [] := by
  cases b with
  | hexadecimal => exact absurd rfl h
  | octal | decimal => rfl

/-- The text begins with a numeral of the base, which has one or more digits and ends where they
end; `rest` follows it. -/
structure Base.Begins (b : Base) (text : List Char) (negative : Bool) (digits : List Nat)
    (rest : List Char) : Prop where
  exists_run : ∃ run, text = sign negative ++ (b.mark ++ (run ++ rest)) ∧
    List.Forall₂ b.Writes run digits
  digits_ne_nil : digits ≠ []
  ends : ∀ c ∈ rest.head?, ∀ d, ¬ b.Writes c d

/-- The whole text is a numeral of the base with the value `n`. -/
def Base.Spells (b : Base) (text : List Char) (n : Int) : Prop :=
  ∃ negative digits, b.Begins text negative digits [] ∧ n = withSign negative (b.number digits)

/-- Every text begins with a longest run of digits, which may be empty. -/
theorem Base.exists_longest_run (b : Base) (cs : List Char) :
    ∃ run digits rest, cs = run ++ rest ∧ List.Forall₂ b.Writes run digits ∧
      ∀ c ∈ rest.head?, ∀ d, ¬ b.Writes c d := by
  induction cs with
  | nil => exact ⟨[], [], [], rfl, .nil, by simp⟩
  | cons c cs ih =>
    by_cases hc : ∃ d, b.Writes c d
    · obtain ⟨d, hd⟩ := hc
      obtain ⟨run, digits, rest, rfl, hrun, hrest⟩ := ih
      exact ⟨c :: run, d :: digits, rest, rfl, .cons hd hrun, hrest⟩
    · refine ⟨[], [], c :: cs, rfl, .nil, ?_⟩
      rintro _ ⟨⟩ d hd
      exact hc ⟨d, hd⟩

theorem Base.Writes.ne_minus {b : Base} {c : Char} {d : Nat} (h : b.Writes c d) : c ≠ '-' := by
  have hnone : b.digit? '-' = none := by cases b <;> decide
  rintro rfl
  simp [digit?_of_writes h] at hnone

theorem splitSign_sign (negative : Bool) {cs : List Char} (h : cs.head? ≠ some '-') :
    splitSign (sign negative ++ cs) = (negative, cs) := by
  cases negative with
  | true => rfl
  | false =>
    cases cs with
    | nil => rfl
    | cons c cs =>
      have hc : c ≠ '-' := by simpa using h
      simp [sign, splitSign, hc]

theorem sign_splitSign (text : List Char) :
    sign (splitSign text).1 ++ (splitSign text).2 = text := by
  unfold splitSign
  split <;> rfl

/-- Behind its sign a text that is a numeral is the mark of the base and digits. -/
theorem Base.Begins.splitSign_eq {b : Base} {text rest : List Char} {negative : Bool}
    {digits : List Nat} (h : b.Begins text negative digits rest) :
    ∃ run, splitSign text = (negative, b.mark ++ (run ++ rest)) ∧
      List.Forall₂ b.Writes run digits := by
  obtain ⟨⟨run, rfl, hrun⟩, hne, -⟩ := h
  refine ⟨run, splitSign_sign negative ?_, hrun⟩
  cases hrun with
  | nil => exact absurd rfl hne
  | cons hc _ =>
    cases b with
    | hexadecimal => simp [Base.mark]
    | octal | decimal => simpa [Base.mark] using hc.ne_minus

theorem splitSign_negative_iff {text : List Char} :
    (splitSign text).1 ↔ text.head? = some '-' := by
  unfold splitSign
  split
  · simp
  · next h =>
    cases text with
    | nil => simp
    | cons c cs =>
      have hc : c ≠ '-' := fun e => h cs (e ▸ rfl)
      simp [hc]

/-- A text that is a numeral has a sign exactly if it starts with it. -/
theorem Base.Begins.negative_iff {b : Base} {text rest : List Char} {negative : Bool}
    {digits : List Nat} (h : b.Begins text negative digits rest) :
    negative ↔ text.head? = some '-' := by
  obtain ⟨run, hsplit, -⟩ := h.splitSign_eq
  rw [← splitSign_negative_iff, hsplit]

/-! ## Reading digits -/

namespace IntType

variable {t : IntType} {b : Base} {negative : Bool}

/-- Digits are read to their value if the type holds it.  As further digits only lead away from
zero, no value on the way is out of range unless the last one is. -/
theorem decodeDigits_run {run : List Char} {digits : List Nat}
    (h : List.Forall₂ b.Writes run digits) :
    ∀ earlier : List Nat, t.Holds (withSign negative (b.number earlier)) →
      t.decodeDigits b negative (withSign negative (b.number earlier)) run =
        if t.Holds (withSign negative (b.number (earlier ++ digits))) then
          .ok (withSign negative (b.number (earlier ++ digits)))
        else .error (.outOfRange (.int t)) := by
  induction h with
  | nil =>
    intro earlier hearlier
    rw [List.append_nil, if_pos hearlier, decodeDigits]
  | @cons c d run digits hc _ ih =>
    intro earlier hearlier
    have happend : earlier ++ d :: digits = earlier ++ [d] ++ digits := by simp
    simp only [decodeDigits, Base.digit?_of_writes hc, extend_withSign, ← Base.number_concat,
      happend]
    by_cases hnext : t.Holds (withSign negative (b.number (earlier ++ [d])))
    · rw [if_pos hnext, ih _ hnext]
    · have hlast : ¬ t.Holds (withSign negative (b.number (earlier ++ [d] ++ digits))) :=
        fun hlast => hnext (hlast.of_withSign_le (b.number_le_append _ _))
      rw [if_neg hnext, if_neg hlast]

/-- Reading stops at what is no digit. -/
theorem decodeDigits_end {rest : List Char} (h : ∀ c ∈ rest.head?, ∀ d, ¬ b.Writes c d)
    (value : Int) :
    t.decodeDigits b negative value rest =
      if rest = [] then .ok value else .error (.expectedDigit b) := by
  cases rest with
  | nil => rfl
  | cons c cs =>
    have hc : b.digit? c = none := by
      rw [Option.eq_none_iff_forall_ne_some]
      exact fun d hd => h c rfl d (Base.writes_of_digit? hd)
    simp [decodeDigits, hc]

/-! ## Reading numerals -/

theorem not_forbidden (hs : negative → t.signed) : (negative && !t.signed) = false := by
  cases negative with
  | false => rfl
  | true => simp [hs rfl]

/-- A run of digits after the sign and the mark is read from zero on. -/
theorem decode_of_run {run rest : List Char} {digits : List Nat}
    (h : List.Forall₂ b.Writes run digits) (hne : digits ≠ []) (hs : negative → t.signed)
    (hx : b ≠ .hexadecimal → ∀ tail, run ++ rest ≠ '0' :: 'X' :: tail) :
    t.decode b (sign negative ++ (b.mark ++ (run ++ rest))) =
      if t.Holds (withSign negative (b.number digits)) then
        t.decodeDigits b negative (withSign negative (b.number digits)) rest
      else .error (.outOfRange (.int t)) := by
  have hstart : t.decode b (sign negative ++ (b.mark ++ (run ++ rest))) =
      t.decodeDigits b negative 0 (run ++ rest) := by
    cases h with
    | nil => exact absurd rfl hne
    | @cons c _ run _ hc _ =>
      cases b with
      | hexadecimal =>
        have hsplit : splitSign (sign negative ++ (Base.hexadecimal.mark ++ (c :: run ++ rest))) =
            (negative, '0' :: 'x' :: (c :: run ++ rest)) :=
          splitSign_sign negative (by simp [Base.mark])
        rw [decode, hsplit]
        simp [not_forbidden hs]
      | octal | decimal =>
        have hsplit : splitSign (sign negative ++ (c :: run ++ rest)) =
            (negative, c :: run ++ rest) := splitSign_sign negative (by simpa using hc.ne_minus)
        have hplain := hx (by decide)
        rw [List.cons_append] at hsplit hplain
        rw [Base.mark, List.nil_append, List.cons_append, decode, hsplit]
        simp only [not_forbidden hs, Bool.false_eq_true, if_false]
  have hzero : withSign negative (b.number []) = 0 := withSign_zero negative
  have hread := decodeDigits_run h [] (hzero.symm ▸ t.holds_zero)
  rw [hzero, List.nil_append] at hread
  rw [hstart, decodeDigits_append, hread]
  split <;> rfl

theorem decode_uppercase (hs : negative → t.signed) (tail : List Char) :
    t.decode b (sign negative ++ '0' :: 'X' :: tail) = .error .uppercaseHexMark := by
  have hsplit : splitSign (sign negative ++ '0' :: 'X' :: tail) = (negative, '0' :: 'X' :: tail) :=
    splitSign_sign negative (by simp)
  simp [decode, hsplit, not_forbidden hs]

/-- No digits but a single zero stand before an uppercase mark. -/
theorem digits_before_uppercase {run rest tail : List Char} {digits : List Nat}
    (hb : b ≠ .hexadecimal) (hrun : List.Forall₂ b.Writes run digits) (hne : digits ≠ [])
    (h : run ++ rest = '0' :: 'X' :: tail) : digits = [0] ∧ rest ≠ [] := by
  have hzero : b.digit? '0' = some 0 := by cases b <;> rfl
  have hx : b.digit? 'X' = none := by
    cases b with
    | hexadecimal => exact absurd rfl hb
    | octal | decimal => rfl
  cases hrun with
  | nil => exact absurd rfl hne
  | cons hc hrun =>
    obtain ⟨rfl, htail⟩ := List.cons.inj h
    obtain rfl := Option.some.inj (hzero.symm.trans (Base.digit?_of_writes hc))
    cases hrun with
    | nil =>
      obtain rfl : rest = 'X' :: tail := htail
      exact ⟨rfl, List.cons_ne_nil _ _⟩
    | cons he _ =>
      obtain ⟨rfl, -⟩ := List.cons.inj htail
      cases hx.symm.trans (Base.digit?_of_writes he)

/-- A type reads all of a text that is a numeral, if it holds the value.  What follows a numeral is
reported only if the type holds the value, and so the report that the value is out of range is
about the whole run of digits. -/
theorem decode_of_begins {text rest : List Char} {digits : List Nat}
    (h : b.Begins text negative digits rest) (hs : negative → t.signed) :
    (t.decode b text = .error (.outOfRange (.int t)) ↔
      ¬ t.Holds (withSign negative (b.number digits))) ∧
    ∀ n, t.decode b text = .ok n ↔
      rest = [] ∧ n = withSign negative (b.number digits) ∧ t.Holds n := by
  obtain ⟨⟨run, rfl, hrun⟩, hne, hends⟩ := h
  by_cases hx : b ≠ .hexadecimal → ∀ tail, run ++ rest ≠ '0' :: 'X' :: tail
  · have hdigits := decode_of_run (t := t) hrun hne hs hx
    generalize withSign negative (b.number digits) = n at hdigits ⊢
    rw [hdigits]
    by_cases hn : t.Holds n
    · rw [if_pos hn, decodeDigits_end hends]
      by_cases hrest : rest = []
      · simp only [hrest, if_true, hn, not_true_eq_false, reduceCtorEq, true_and, Except.ok.injEq]
        exact fun m => ⟨fun e => ⟨e.symm, e ▸ hn⟩, fun e => e.1.symm⟩
      · simp [hrest, hn]
    · simp only [hn, if_false, not_false_eq_true, reduceCtorEq, false_iff, true_and]
      rintro m ⟨-, rfl, hm⟩
      exact hn hm
  · push Not at hx
    obtain ⟨hb, tail, htail⟩ := hx
    obtain ⟨rfl, hrest⟩ := digits_before_uppercase hb hrun hne htail
    have hvalue : t.Holds (withSign negative (b.number [0])) := by
      have hzero : b.number [0] = 0 := by simp [Base.number]
      rw [hzero, withSign_zero]
      exact t.holds_zero
    rw [Base.mark_of_ne hb, List.nil_append, htail, decode_uppercase hs]
    simp [hrest, hvalue]

/-- What is read after the sign and the mark begins with digits. -/
theorem exists_begins_of_decodeDigits {cs : List Char} {n : Int} (hne : cs ≠ [])
    (h : t.decodeDigits b negative 0 cs = .ok n) :
    ∃ digits rest, b.Begins (sign negative ++ (b.mark ++ cs)) negative digits rest := by
  obtain ⟨run, digits, rest, rfl, hrun, hends⟩ := b.exists_longest_run cs
  refine ⟨digits, rest, ⟨run, rfl, hrun⟩, ?_, hends⟩
  rintro rfl
  cases hrun
  rw [List.nil_append] at hne h
  rw [decodeDigits_end hends, if_neg hne] at h
  cases h

/-- Whatever a type reads begins with a numeral. -/
theorem exists_begins_of_decode {text : List Char} {n : Int} (h : t.decode b text = .ok n) :
    ∃ (negative : Bool) (digits : List Nat) (rest : List Char),
      (negative → t.signed) ∧ b.Begins text negative digits rest := by
  have htext := sign_splitSign text
  unfold decode at h
  generalize splitSign text = signed at h htext
  obtain ⟨negative, cs⟩ := signed
  dsimp only at h htext
  subst htext
  split at h
  · cases h
  · next hallowed =>
    have hs : negative → t.signed := by simpa using hallowed
    split at h
    · cases h
    · cases h
    · cases h
    · next ds _ hne =>
      obtain ⟨digits, rest, hbegins⟩ := exists_begins_of_decodeDigits hne h
      exact ⟨negative, digits, rest, hs, hbegins⟩
    · cases h
    · next hb hne _ _ _ =>
      obtain ⟨digits, rest, hbegins⟩ := exists_begins_of_decodeDigits hne h
      rw [Base.mark_of_ne hb, List.nil_append] at hbegins
      exact ⟨negative, digits, rest, hs, hbegins⟩

/-- A type reads exactly the numerals that have a sign only if the type does, and a value that the
type holds. -/
theorem decode_eq_ok_iff {text : List Char} {n : Int} :
    t.decode b text = .ok n ↔
      (text.head? = some '-' → t.signed) ∧ b.Spells text n ∧ t.Holds n := by
  constructor
  · intro h
    obtain ⟨negative, digits, rest, hs, hbegins⟩ := exists_begins_of_decode h
    obtain ⟨rfl, hn, hholds⟩ := ((decode_of_begins hbegins hs).2 n).1 h
    exact ⟨fun hhead => hs (hbegins.negative_iff.2 hhead), ⟨negative, digits, hbegins, hn⟩, hholds⟩
  · rintro ⟨hs, ⟨negative, digits, hbegins, hn⟩, hholds⟩
    exact ((decode_of_begins hbegins fun h => hs (hbegins.negative_iff.1 h)).2 n).2
      ⟨rfl, hn, hholds⟩

end IntType

/-! ## The base that a spelling selects -/

/-- The base that the spelling of a numeral selects, its sign left aside: sixteen for `0x`; none if
there is a mark of a float; eight for a zero and more digits; ten otherwise. -/
inductive Numeral.Selects : List Char → Base → Prop
  | hexadecimal (cs : List Char) : Selects ('0' :: 'x' :: cs) .hexadecimal
  | octal {c : Char} {cs : List Char} (digit : '0' ≤ c ∧ c ≤ '9')
    (plain : '.' ∉ cs ∧ 'e' ∉ cs ∧ 'E' ∉ cs) : Selects ('0' :: c :: cs) .octal
  | decimal {cs : List Char} (plain : '.' ∉ cs ∧ 'e' ∉ cs ∧ 'E' ∉ cs)
    (notZero : ∀ c tail, cs = '0' :: c :: tail → c ≠ 'x' ∧ ¬ ('0' ≤ c ∧ c ≤ '9')) :
    Selects cs .decimal

/-- A spelling selects one base. -/
theorem Numeral.Selects.unique {cs : List Char} {b b' : Base} (h : Selects cs b)
    (h' : Selects cs b') : b = b' := by
  have hx : ¬ ('0' ≤ 'x' ∧ 'x' ≤ '9') := by decide
  cases h with
  | hexadecimal =>
    cases h' with
    | hexadecimal => rfl
    | octal digit => exact absurd digit hx
    | decimal _ notZero => exact absurd rfl (notZero _ _ rfl).1
  | octal digit =>
    cases h' with
    | hexadecimal => exact absurd digit hx
    | octal => rfl
    | decimal _ notZero => exact absurd digit (notZero _ _ rfl).2
  | decimal _ notZero =>
    cases h' with
    | hexadecimal => exact absurd rfl (notZero _ _ rfl).1
    | octal digit => exact absurd digit (notZero _ _ rfl).2
    | decimal => rfl

/-- The digits of the two bases without a mark are figures. -/
theorem Base.Writes.figure {b : Base} {c : Char} {d : Nat} (h : b.Writes c d)
    (hb : b ≠ .hexadecimal) : '0' ≤ c ∧ c ≤ '9' := by
  have hfigures : ∀ d < 10, ('0' ≤ d.digitChar ∧ d.digitChar ≤ '9') ∧
      '0' ≤ d.digitChar.toUpper ∧ d.digitChar.toUpper ≤ '9' := by decide
  have hradix : b.radix ≤ 10 := by
    cases b with
    | hexadecimal => exact absurd rfl hb
    | octal | decimal => decide
  obtain ⟨hd, rfl | rfl⟩ := h
  · exact (hfigures d (by omega)).1
  · exact (hfigures d (by omega)).2

theorem isFloatMark_of_figure {c : Char} (h : '0' ≤ c ∧ c ≤ '9') : ¬ isFloatMark c := by
  simp only [isFloatMark, Bool.or_eq_true, decide_eq_true_eq]
  rintro ((rfl | rfl) | rfl) <;> exact absurd h (by decide)

/-- The base of figures that stand alone. -/
def Numeral.figuresBase : List Char → Base
  | '0' :: _ :: _ => .octal
  | _ => .decimal

theorem shape_of_figures {text : List Char} (h : ∀ c ∈ (splitSign text).2, '0' ≤ c ∧ c ≤ '9') :
    shape text = .ok (.integer (figuresBase (splitSign text).2)) := by
  unfold shape
  generalize (splitSign text).2 = cs at h ⊢
  have hfloat : cs.any isFloatMark = false := by
    rw [List.any_eq_false]
    exact fun c hc => isFloatMark_of_figure (h c hc)
  split
  · exact absurd (h 'x' (by simp)) (by decide)
  · exact absurd (h 'X' (by simp)) (by decide)
  · rw [hfloat]
    simp only [Bool.false_eq_true, if_false]
    split
    · rfl
    · simp [figuresBase]

theorem selects_of_figures {cs : List Char} {b : Base} (h : ∀ c ∈ cs, '0' ≤ c ∧ c ≤ '9') :
    Selects cs b ↔ b = figuresBase cs := by
  have hplain : ∀ ds ⊆ cs, '.' ∉ ds ∧ 'e' ∉ ds ∧ 'E' ∉ ds := fun ds hds =>
    ⟨fun hc => absurd (h _ (hds hc)) (by decide), fun hc => absurd (h _ (hds hc)) (by decide),
      fun hc => absurd (h _ (hds hc)) (by decide)⟩
  constructor
  · intro hb
    cases hb with
    | hexadecimal => exact absurd (h 'x' (by simp)) (by decide)
    | octal => rfl
    | decimal _ hnot =>
      unfold figuresBase
      split
      · next c tail _ => exact absurd (h c (by simp)) (hnot c tail rfl).2
      · rfl
  · rintro rfl
    unfold figuresBase
    split
    · next c tail => exact .octal (h c (by simp)) (hplain tail (by simp))
    · next hshort =>
      exact .decimal (hplain cs (List.Subset.refl cs)) fun c tail e => absurd e (hshort c tail)

/-- The spelling of a numeral of a base selects the base as its shape does. -/
theorem shape_eq_iff_selects {text : List Char} {b : Base} {n : Int} (h : b.Spells text n) :
    shape text = .ok (.integer b) ↔ Selects (splitSign text).2 b := by
  obtain ⟨negative, digits, hbegins, -⟩ := h
  obtain ⟨run, hsplit, hrun⟩ := hbegins.splitSign_eq
  have hunsigned : (splitSign text).2 = b.mark ++ run := by rw [hsplit, List.append_nil]
  by_cases hb : b = .hexadecimal
  · subst hb
    rw [hunsigned]
    refine ⟨fun _ => .hexadecimal run, fun _ => ?_⟩
    unfold shape
    rw [hunsigned]
    rfl
  · rw [Base.mark_of_ne hb, List.nil_append] at hunsigned
    have hfigures : ∀ c ∈ (splitSign text).2, '0' ≤ c ∧ c ≤ '9' := by
      rw [hunsigned]
      exact ((List.forall₂_and_left _ _).1 (hrun.imp fun _ _ hd => ⟨hd.figure hb, hd⟩)).1
    rw [shape_of_figures hfigures, selects_of_figures hfigures]
    simp only [Except.ok.injEq, NumeralShape.integer.injEq]
    exact eq_comm

/-- A numeral of shape `b` is read in base `b`. -/
theorem decode_of_shape {t : IntType} {text : List Char} {b : Base}
    (h : shape text = .ok (.integer b)) :
    (NumericType.int t).decode text = Number.int <$> t.decode b text := by
  cases b <;> simp [NumericType.decode, NumericType.decodeInteger, NumericType.decodeDecimal, h]

theorem decode_int_eq_ok_iff {t : IntType} {text : List Char} {v : Number} :
    (NumericType.int t).decode text = .ok v ↔
      ∃ b n, v = .int n ∧ shape text = .ok (.integer b) ∧ t.decode b text = .ok n := by
  constructor
  · intro h
    obtain ⟨shape, hshape, -⟩ := bind_eq_ok.1 h
    cases shape with
    | float => simp [NumericType.decode, NumericType.decodeDecimal, hshape] at h
    | integer b =>
      rw [decode_of_shape hshape] at h
      obtain ⟨n, hn, rfl⟩ := map_eq_ok.1 h
      exact ⟨b, n, rfl, hshape, hn⟩
  · rintro ⟨b, n, rfl, hshape, hn⟩
    rw [decode_of_shape hshape, hn, ok_map]

/-! ## Exactness -/

/-- Integer numerals are read exactly.  In a base, a type reads a text exactly if it is a numeral of
the base, with a sign only if the type has one, whose value the type holds; every other text fails,
and among those that begin with a numeral, the failure is that the value is out of range exactly if
that of the whole run of digits is.  Without a base, the spelling selects it. -/
theorem IntType.decode_exact (t : IntType) (b : Base) (text : List Char) :
    (∀ n, t.decode b text = .ok n ↔
      (text.head? = some '-' → t.signed) ∧ b.Spells text n ∧ t.Holds n) ∧
    ((¬ ∃ n, (text.head? = some '-' → t.signed) ∧ b.Spells text n ∧ t.Holds n) →
      ∃ e, t.decode b text = .error e) ∧
    (∀ negative digits rest, b.Begins text negative digits rest → (negative → t.signed) →
      (t.decode b text = .error (.outOfRange (.int t)) ↔
        ¬ t.Holds (withSign negative (b.number digits)))) ∧
    ∀ v, (NumericType.int t).decode text = .ok v ↔
      ∃ b n, v = .int n ∧ Selects (splitSign text).2 b ∧
        (text.head? = some '-' → t.signed) ∧ b.Spells text n ∧ t.Holds n := by
  refine ⟨fun n => decode_eq_ok_iff, fun h => ?_, fun negative digits rest hbegins hs =>
    (decode_of_begins hbegins hs).1, fun v => ?_⟩
  · cases hdecode : t.decode b text with
    | error e => exact ⟨e, rfl⟩
    | ok n => exact absurd ⟨n, decode_eq_ok_iff.1 hdecode⟩ h
  · rw [decode_int_eq_ok_iff]
    constructor
    · rintro ⟨b, n, rfl, hshape, hn⟩
      have hspells := decode_eq_ok_iff.1 hn
      exact ⟨b, n, rfl, (shape_eq_iff_selects hspells.2.1).1 hshape, hspells⟩
    · rintro ⟨b, n, rfl, hselects, hspells⟩
      exact ⟨b, n, rfl, (shape_eq_iff_selects hspells.2.1).2 hselects, decode_eq_ok_iff.2 hspells⟩

/-- After `-129` an `Int8` is out of range, whatever follows. -/
theorem IntType.decode_exact_overlong :
    Base.decimal.Begins ['-', '1', '2', '9', 'a'] true [1, 2, 9] ['a'] ∧
      (⟨true, .w8⟩ : IntType).decode .decimal ['-', '1', '2', '9', 'a'] =
        .error (.outOfRange (.int ⟨true, .w8⟩)) := by
  have hdigit : ∀ d < 10, Base.decimal.Writes d.digitChar d := fun d hd => ⟨hd, .inl rfl⟩
  have hbegins : Base.decimal.Begins ['-', '1', '2', '9', 'a'] true [1, 2, 9] ['a'] := by
    refine ⟨⟨['1', '2', '9'], rfl, ?_⟩, List.cons_ne_nil _ _, ?_⟩
    · exact .cons (hdigit 1 (by decide)) (.cons (hdigit 2 (by decide))
        (.cons (hdigit 9 (by decide)) .nil))
    · rintro _ ⟨⟩ d hd
      cases Base.digit?_of_writes hd
  refine ⟨hbegins, ?_⟩
  exact ((IntType.decode_exact ⟨true, .w8⟩ .decimal _).2.2.1 true [1, 2, 9] ['a'] hbegins
    fun _ => rfl).2 (by decide)

end SchemaLang
