import Mathlib.Tactic.NormNum
import SchemaLang.Proofs.Decoding.Rounding
import SchemaLang.Proofs.Lexing.Patterns

/-!
# Fractions from their digits

What the text of a decimal fraction denotes, said without regard to how it is read:
`Decimal.Denotes` takes a text apart into a sign, a whole number, a fraction and a power of ten.
The texts that denote a number are those of the pattern `Pattern.decimal`, and a float type reads
each of them as the nearest number or reports it out of range, `FloatType.decode_nearest`.
-/

namespace SchemaLang

open Computability Numeral

/-! ## What a text denotes -/

namespace Pattern

/-- The pattern `[0-9]+`. -/
def figures : Language Char := one Digit * (one Digit)∗

/-- The pattern `-?[0-9]+(\.[0-9]+)?([eE][+-]?[0-9]+)?`. -/
def decimal : Language Char :=
  (1 + one (· = '-')) * (figures * ((1 + one (· = '.') * figures) *
    (1 + one (fun c => c = 'e' ∨ c = 'E') * ((1 + one (fun c => c = '+' ∨ c = '-')) * figures))))

end Pattern

namespace Decimal

/-- A run of one or more figures, and the digits that they write. -/
structure Figures (text : List Char) (digits : List Nat) : Prop where
  nonempty : digits ≠ []
  writes : List.Forall₂ Base.decimal.Writes text digits

/-- The places after the point; without a point there is none. -/
inductive Places : List Char → List Nat → Prop
  | none : Places [] []
  | point {text : List Char} {digits : List Nat} (h : Figures text digits) :
    Places ('.' :: text) digits

/-- The sign of an exponent, which may also be a plus. -/
inductive ExponentSign : List Char → Bool → Prop
  | none : ExponentSign [] false
  | plus : ExponentSign ['+'] false
  | minus : ExponentSign ['-'] true

/-- The exponent of a power of ten; without one it is zero. -/
inductive Exponent : List Char → Int → Prop
  | none : Exponent [] 0
  | some {letter : Char} {sign text : List Char} {negative : Bool} {digits : List Nat}
      (letter_eq : letter = 'e' ∨ letter = 'E') (isSign : ExponentSign sign negative)
      (h : Figures text digits) :
    Exponent (letter :: (sign ++ text)) (withSign negative (Base.decimal.number digits))

/-- The number with these digits before and after the point, times a power of ten. -/
def ofDigits (negative : Bool) (whole places : List Nat) (exponent : Int) : ℚ :=
  withSign negative 1 *
    (Base.decimal.number whole + Base.decimal.number places / 10 ^ places.length) * 10 ^ exponent

/-- The text, which has this sign, denotes the number. -/
inductive Denotes : List Char → Bool → ℚ → Prop
  | mk {whole point power : List Char} {digits places : List Nat} {exponent : Int}
      (negative : Bool) (isWhole : Figures whole digits) (isPlaces : Places point places)
      (isExponent : Exponent power exponent) :
    Denotes (sign negative ++ (whole ++ (point ++ power))) negative
      (ofDigits negative digits places exponent)

end Decimal

/-- The magnitudes that are rounded to a number of the type.  For the larger type they end below
half a place beyond the largest number; the largest number of the smaller type is followed by
others, and the half between it and the next one belongs to it. -/
def FloatType.Covers : FloatType → ℚ → Prop
  | .float32, q => |q| ≤ 2 ^ 128 - 2 ^ 104 + 2 ^ 74
  | .float64, q => |q| < 2 ^ 1024 - 2 ^ 970

/-! ## The pattern -/

theorem Pattern.mem_one_add {l : Language Char} {w : List Char} : w ∈ 1 + l ↔ w = [] ∨ w ∈ l := by
  rw [Language.mem_add, Language.mem_one]

namespace Decimal

theorem Figures.text_ne_nil {text : List Char} {digits : List Nat} (h : Figures text digits) :
    text ≠ [] := by
  rintro rfl
  obtain ⟨hne, hnil⟩ := h
  cases hnil
  exact hne rfl

theorem Figures.isDigit {text : List Char} {digits : List Nat} (h : Figures text digits) :
    ∀ c ∈ text, c.isDigit := forall_isDigit h.writes

theorem Figures.exists_cons {text : List Char} {digits : List Nat} (h : Figures text digits) :
    ∃ c cs, text = c :: cs ∧ c.isDigit := by
  obtain ⟨c, cs, rfl⟩ := List.exists_cons_of_ne_nil h.text_ne_nil
  exact ⟨c, cs, rfl, h.isDigit c List.mem_cons_self⟩

theorem exists_figures {text : List Char} (h : ∀ c ∈ text, c.isDigit) (hne : text ≠ []) :
    ∃ digits, Figures text digits :=
  ⟨_, by simpa using hne, forall₂_writes_of_isDigit h⟩

theorem mem_figures {text : List Char} :
    text ∈ Pattern.figures ↔ ∃ digits, Figures text digits := by
  rw [Pattern.figures, Pattern.mem_one_mul]
  simp only [Pattern.mem_kstar_one, Pattern.digit_iff]
  constructor
  · rintro ⟨c, cs, rfl, hc, hcs⟩
    exact exists_figures (List.forall_mem_cons.2 ⟨hc, hcs⟩) (List.cons_ne_nil _ _)
  · rintro ⟨digits, h⟩
    obtain ⟨c, cs, rfl, hc⟩ := h.exists_cons
    exact ⟨c, cs, rfl, hc, fun x hx => h.isDigit x (List.mem_cons_of_mem _ hx)⟩

theorem mem_sign {text : List Char} :
    text ∈ 1 + Pattern.one (· = '-') ↔ ∃ negative, text = sign negative := by
  rw [Pattern.mem_one_add]
  constructor
  · rintro (rfl | ⟨_, rfl, rfl⟩)
    · exact ⟨false, rfl⟩
    · exact ⟨true, rfl⟩
  · rintro ⟨_ | _, rfl⟩
    · exact .inl rfl
    · exact .inr ⟨_, rfl, rfl⟩

theorem mem_places {text : List Char} :
    text ∈ 1 + Pattern.one (· = '.') * Pattern.figures ↔ ∃ places, Places text places := by
  rw [Pattern.mem_one_add, Pattern.mem_one_mul]
  simp only [mem_figures]
  constructor
  · rintro (rfl | ⟨_, text, rfl, rfl, digits, h⟩)
    · exact ⟨_, .none⟩
    · exact ⟨_, .point h⟩
  · rintro ⟨_, _ | h⟩
    · exact .inl rfl
    · exact .inr ⟨_, _, rfl, rfl, _, h⟩

theorem mem_exponentSign {text : List Char} :
    text ∈ 1 + Pattern.one (fun c => c = '+' ∨ c = '-') ↔
      ∃ negative, ExponentSign text negative := by
  rw [Pattern.mem_one_add]
  constructor
  · rintro (rfl | ⟨_, rfl | rfl, rfl⟩)
    · exact ⟨_, .none⟩
    · exact ⟨_, .plus⟩
    · exact ⟨_, .minus⟩
  · rintro ⟨_, _ | _ | _⟩
    · exact .inl rfl
    · exact .inr ⟨_, .inl rfl, rfl⟩
    · exact .inr ⟨_, .inr rfl, rfl⟩

theorem mem_exponent {text : List Char} :
    text ∈ 1 + Pattern.one (fun c => c = 'e' ∨ c = 'E') *
        ((1 + Pattern.one (fun c => c = '+' ∨ c = '-')) * Pattern.figures) ↔
      ∃ exponent, Exponent text exponent := by
  rw [Pattern.mem_one_add, Pattern.mem_one_mul]
  simp only [Language.mem_mul, mem_exponentSign, mem_figures]
  constructor
  · rintro (rfl | ⟨letter, _, rfl, hletter, sign, ⟨_, hsign⟩, text, ⟨_, h⟩, rfl⟩)
    · exact ⟨_, .none⟩
    · exact ⟨_, .some hletter hsign h⟩
  · rintro ⟨_, _ | ⟨hletter, hsign, h⟩⟩
    · exact .inl rfl
    · exact .inr ⟨_, _, rfl, hletter, _, ⟨_, hsign⟩, _, ⟨_, h⟩, rfl⟩

/-- The texts of the pattern are those that denote a number. -/
theorem mem_decimal {text : List Char} :
    text ∈ Pattern.decimal ↔ ∃ negative q, Denotes text negative q := by
  simp only [Pattern.decimal, Language.mem_mul (l := 1 + Pattern.one (· = '-')),
    Language.mem_mul (l := Pattern.figures),
    Language.mem_mul (l := 1 + Pattern.one (· = '.') * Pattern.figures), mem_sign, mem_figures,
    mem_places, mem_exponent]
  constructor
  · rintro ⟨_, ⟨negative, rfl⟩, _, ⟨_, ⟨_, hwhole⟩, _, ⟨_, ⟨_, hplaces⟩, _, ⟨_, hexponent⟩, rfl⟩,
      rfl⟩, rfl⟩
    exact ⟨_, _, .mk negative hwhole hplaces hexponent⟩
  · rintro ⟨_, _, ⟨negative, hwhole, hplaces, hexponent⟩⟩
    exact ⟨_, ⟨_, rfl⟩, _, ⟨_, ⟨_, hwhole⟩, _, ⟨_, ⟨_, hplaces⟩, _, ⟨_, hexponent⟩, rfl⟩, rfl⟩,
      rfl⟩

/-! ## Reading -/

theorem readDigits_append {text rest : List Char} {digits : List Nat} (h : Figures text digits)
    (hrest : ∀ c ∈ rest.head?, ¬ c.isDigit) : readDigits (text ++ rest) = .ok (text, rest) := by
  have hspan := span_append h.isDigit hrest
  obtain ⟨c, cs, rfl, -⟩ := h.exists_cons
  rw [readDigits, hspan]

theorem figures_of_readDigits {cs text rest : List Char} (h : readDigits cs = .ok (text, rest)) :
    cs = text ++ rest ∧ ∃ digits, Figures text digits := by
  obtain ⟨hne, rfl, rfl⟩ := readDigits_ok h
  exact ⟨List.takeWhile_append_dropWhile.symm,
    exists_figures (List.all_eq_true.1 List.all_takeWhile) hne⟩

/-- The sign of an exponent, true for `-`, and what follows it. -/
def splitExponentSign : List Char → Bool × List Char
  | '+' :: cs => (false, cs)
  | cs => splitSign cs

theorem splitExponentSign_append {sign text : List Char} {negative : Bool} {digits : List Nat}
    (hsign : ExponentSign sign negative) (h : Figures text digits) :
    splitExponentSign (sign ++ text) = (negative, text) := by
  cases hsign with
  | none =>
    obtain ⟨c, cs, rfl, hc⟩ := h.exists_cons
    unfold splitExponentSign
    split
    · next hplus =>
      obtain ⟨rfl, rfl⟩ := List.cons.inj hplus
      exact absurd hc (by decide)
    · refine splitSign_sign false ?_
      rintro ⟨⟩
      exact absurd hc (by decide)
  | plus => rfl
  | minus => rfl

theorem exponentSign_splitExponentSign (cs : List Char) :
    ∃ sign, ExponentSign sign (splitExponentSign cs).1 ∧ sign ++ (splitExponentSign cs).2 = cs := by
  unfold splitExponentSign
  split
  · exact ⟨_, .plus, rfl⟩
  · unfold splitSign
    split
    · exact ⟨_, .minus, rfl⟩
    · exact ⟨_, .none, rfl⟩

theorem readExponent_cons {letter : Char} (h : letter = 'e' ∨ letter = 'E') (cs : List Char) :
    readExponent (letter :: cs) = (do
      let (digits, rest) ← readDigits (splitExponentSign cs).2
      if rest ≠ [] then .error (.expectedDigit .decimal)
      else .ok (withSign (splitExponentSign cs).1 (natOfDigits digits))) := by
  unfold readExponent splitExponentSign
  dsimp only
  rw [if_pos h]
  split
  · rfl
  · simp only [withSign, apply_ite Except.ok]

theorem readExponent_eq_ok_iff {text : List Char} {exponent : Int} :
    readExponent text = .ok exponent ↔ Exponent text exponent := by
  constructor
  · intro h
    cases text with
    | nil =>
      obtain rfl := Except.ok.inj h
      exact .none
    | cons letter cs =>
      by_cases hletter : letter = 'e' ∨ letter = 'E'
      · rw [readExponent_cons hletter] at h
        obtain ⟨⟨text, rest⟩, hread, h⟩ := bind_eq_ok.1 h
        obtain ⟨sign, hsign, hcs⟩ := exponentSign_splitExponentSign cs
        obtain ⟨htext, digits, hdigits⟩ := figures_of_readDigits hread
        dsimp only at h
        split at h
        · cases h
        · next hrest =>
          rw [not_not.1 hrest, List.append_nil] at htext
          obtain rfl := Except.ok.inj h
          rw [htext] at hcs
          rw [natOfDigits_eq_number hdigits.writes, ← hcs]
          exact .some hletter (hcs ▸ hsign) hdigits
      · simp [readExponent, hletter] at h
  · rintro (_ | ⟨hletter, hsign, h⟩)
    · rfl
    · have hread : readDigits (_ ++ []) = _ := readDigits_append h (by simp)
      rw [List.append_nil] at hread
      rw [readExponent_cons hletter, splitExponentSign_append hsign h]
      simp [hread, natOfDigits_eq_number h.writes]

theorem Exponent.head?_eq {text : List Char} {exponent : Int} (h : Exponent text exponent) :
    ∀ c ∈ text.head?, c = 'e' ∨ c = 'E' := by
  cases h with
  | none => rintro _ ⟨⟩
  | some hletter => rintro _ ⟨⟩; exact hletter

/-- Reads the places after a point, if there is one. -/
def readPlaces : List Char → Except NumeralError (List Char × List Char)
  | '.' :: cs => readDigits cs
  | cs => .ok ([], cs)

theorem read_eq (negative : Bool) (cs : List Char) :
    read negative cs = (do
      let (whole, cs) ← readDigits cs
      let (fraction, cs) ← readPlaces cs
      let exponent ← readExponent cs
      .ok ⟨negative, natOfDigits (whole ++ fraction), exponent - fraction.length⟩) := by
  unfold read
  refine bind_congr fun ⟨whole, rest⟩ => ?_
  dsimp only
  split
  · rfl
  · next hpoint => rw [readPlaces.eq_2 rest hpoint]

/-- The places that are read stand at the start of the text, behind a point if there are any. -/
theorem places_of_readPlaces {cs fraction rest : List Char}
    (h : readPlaces cs = .ok (fraction, rest)) :
    ∃ point places, cs = point ++ rest ∧ Places point places ∧
      List.Forall₂ Base.decimal.Writes fraction places := by
  unfold readPlaces at h
  split at h
  · obtain ⟨rfl, places, hplaces⟩ := figures_of_readDigits h
    exact ⟨_, _, rfl, .point hplaces, hplaces.writes⟩
  · obtain ⟨rfl, rfl⟩ := Prod.mk.inj (Except.ok.inj h)
    exact ⟨_, _, rfl, .none, .nil⟩

theorem exists_readPlaces {point power : List Char} {places : List Nat} {exponent : Int}
    (h : Places point places) (hpower : Exponent power exponent) :
    ∃ fraction, readPlaces (point ++ power) = .ok (fraction, power) ∧
      List.Forall₂ Base.decimal.Writes fraction places := by
  have hletter := hpower.head?_eq
  cases h with
  | none =>
    refine ⟨[], ?_, .nil⟩
    unfold readPlaces
    split
    · next hpoint =>
      rcases hletter '.' (by rw [← List.nil_append power, hpoint]; rfl) with h | h <;> cases h
    · rfl
  | @point text _ h =>
    refine ⟨text, readDigits_append h fun c hc => ?_, h.writes⟩
    rcases hletter c hc with rfl | rfl <;> decide

/-- A decimal fraction is read from its parts: the places after the point go into the digits and
out of the exponent. -/
theorem read_eq_ok_iff {cs : List Char} {negative : Bool} {d : Decimal} :
    read negative cs = .ok d ↔ ∃ whole point power digits places exponent,
      cs = whole ++ (point ++ power) ∧ Figures whole digits ∧ Places point places ∧
        Exponent power exponent ∧
          d = ⟨negative, Base.decimal.number (digits ++ places), exponent - places.length⟩ := by
  have hparts {whole fraction : List Char} {digits places : List Nat}
      (hwhole : Figures whole digits)
      (hfraction : List.Forall₂ Base.decimal.Writes fraction places) (exponent : Int) :
      (⟨negative, natOfDigits (whole ++ fraction), exponent - fraction.length⟩ : Decimal) =
        ⟨negative, Base.decimal.number (digits ++ places), exponent - places.length⟩ := by
    rw [natOfDigits_eq_number (List.rel_append hwhole.writes hfraction), hfraction.length_eq]
  rw [read_eq]
  constructor
  · intro h
    obtain ⟨⟨whole, _⟩, hwhole, hread⟩ := bind_eq_ok.1 h
    obtain ⟨⟨fraction, power⟩, hfraction, hrest⟩ := bind_eq_ok.1 hread
    obtain ⟨exponent, hexponent, hd⟩ := bind_eq_ok.1 hrest
    obtain ⟨rfl, digits, hdigits⟩ := figures_of_readDigits hwhole
    obtain ⟨point, places, rfl, hpoint, hplaces⟩ := places_of_readPlaces hfraction
    exact ⟨whole, point, power, digits, places, exponent, rfl, hdigits, hpoint,
      readExponent_eq_ok_iff.1 hexponent, (Except.ok.inj hd).symm.trans (hparts hdigits hplaces _)⟩
  · rintro ⟨whole, point, power, digits, places, exponent, rfl, hwhole, hpoint, hpower, rfl⟩
    obtain ⟨fraction, hplaces, hfraction⟩ := exists_readPlaces hpoint hpower
    have hnot : ∀ c ∈ (point ++ power).head?, ¬ c.isDigit := by
      intro c hc
      cases hpoint with
      | none => rcases hpower.head?_eq c hc with rfl | rfl <;> decide
      | point => obtain rfl := Option.some.inj hc; decide
    simp [readDigits_append hwhole hnot, hplaces, readExponent_eq_ok_iff.2 hpower,
      hparts hwhole hfraction]

/-! ## The number that is read -/

theorem number_append (ds es : List Nat) :
    Base.decimal.number (ds ++ es) =
      Base.decimal.number ds * 10 ^ es.length + Base.decimal.number es := by
  unfold Base.number
  rw [List.reverse_append, Nat.ofDigits_append, List.length_reverse, Nat.add_comm, Nat.mul_comm]
  rfl

theorem value_of_parts (negative : Bool) (digits places : List Nat) (exponent : Int) :
    value ⟨negative, Base.decimal.number (digits ++ places), exponent - places.length⟩ =
      ofDigits negative digits places exponent := by
  have hten : (10 : ℚ) ≠ 0 := by norm_num
  have hsign (n : Nat) : (withSign negative n : ℚ) = withSign negative 1 * n := by
    cases negative <;> simp [withSign]
  unfold value ofDigits
  dsimp only
  rw [hsign, number_append, zpow_sub₀ hten, zpow_natCast]
  push_cast
  field_simp

theorem Denotes.exists_read {text : List Char} {negative : Bool} {q : ℚ}
    (h : Denotes text negative q) : ∃ cs d, splitSign text = (negative, cs) ∧
      read negative cs = .ok d ∧ d.negative = negative ∧ d.value = q := by
  obtain ⟨negative, hwhole, hpoint, hpower⟩ := h
  refine ⟨_, _, splitSign_sign negative ?_,
    read_eq_ok_iff.2 ⟨_, _, _, _, _, _, rfl, hwhole, hpoint, hpower, rfl⟩, rfl,
    value_of_parts _ _ _ _⟩
  obtain ⟨c, cs, rfl, hc⟩ := hwhole.exists_cons
  rintro ⟨⟩
  exact absurd hc (by decide)

theorem denotes_of_read {text cs : List Char} {negative : Bool} {d : Decimal}
    (hsplit : splitSign text = (negative, cs)) (h : read negative cs = .ok d) :
    Denotes text negative d.value := by
  obtain ⟨whole, point, power, digits, places, exponent, rfl, hwhole, hpoint, hpower, rfl⟩ :=
    read_eq_ok_iff.1 h
  have htext := sign_splitSign text
  rw [hsplit] at htext
  rw [← htext, value_of_parts]
  exact .mk negative hwhole hpoint hpower

/-- A text denotes one number and has one sign. -/
theorem Denotes.unique {text : List Char} {negative negative' : Bool} {q q' : ℚ}
    (h : Denotes text negative q) (h' : Denotes text negative' q') :
    negative = negative' ∧ q = q' := by
  obtain ⟨cs, d, hsplit, hread, -, rfl⟩ := h.exists_read
  obtain ⟨cs', d', hsplit', hread', -, rfl⟩ := h'.exists_read
  obtain ⟨rfl, rfl⟩ := Prod.mk.inj (hsplit.symm.trans hsplit')
  obtain rfl := Except.ok.inj (hread.symm.trans hread')
  exact ⟨rfl, rfl⟩

/-! ## Texts that are rejected -/

/-- What is wrong with a text that does not denote a number. -/
def IsMalformed (e : NumeralError) : Prop := e = .unexpectedEnd ∨ e = .expectedDigit .decimal

theorem isMalformed_of_readDigits {cs : List Char} {e : NumeralError}
    (h : readDigits cs = .error e) : IsMalformed e := by
  unfold readDigits at h
  split at h
  · exact .inl (Except.error.inj h).symm
  · exact .inr (Except.error.inj h).symm
  · cases h

theorem isMalformed_of_readExponent {cs : List Char} {e : NumeralError}
    (h : readExponent cs = .error e) : IsMalformed e := by
  cases cs with
  | nil => cases h
  | cons letter cs =>
    by_cases hletter : letter = 'e' ∨ letter = 'E'
    · rw [readExponent_cons hletter] at h
      rcases bind_eq_error.1 h with h | ⟨⟨digits, rest⟩, -, h⟩
      · exact isMalformed_of_readDigits h
      · dsimp only at h
        split at h
        · exact .inr (Except.error.inj h).symm
        · cases h
    · simp only [readExponent, if_neg hletter] at h
      exact .inr (Except.error.inj h).symm

theorem isMalformed_of_read {cs : List Char} {negative : Bool} {e : NumeralError}
    (h : read negative cs = .error e) : IsMalformed e := by
  rw [read_eq] at h
  rcases bind_eq_error.1 h with hwhole | ⟨⟨whole, rest⟩, -, h⟩
  · exact isMalformed_of_readDigits hwhole
  · rcases bind_eq_error.1 h with hplaces | ⟨⟨fraction, power⟩, -, h⟩
    · unfold readPlaces at hplaces
      split at hplaces
      · exact isMalformed_of_readDigits hplaces
      · cases hplaces
    · rcases bind_eq_error.1 h with hexponent | ⟨exponent, -, h⟩
      · exact isMalformed_of_readExponent hexponent
      · cases h

end Decimal

namespace FloatType

variable {t : FloatType} {text cs : List Char} {negative : Bool}

/-! ## Range -/

theorem units_le_of_isFinite {x : Binary64} (h : x.IsFinite) :
    x.units ≤ FloatType.float64.max.units := by
  rw [Binary64.units_eq, Binary64.units_eq]
  exact Nat.mul_le_mul (Nat.le_pred_of_lt h.significand_lt)
    (Nat.pow_le_pow_right Nat.two_pos h.shift_le)

theorem isFinite_max_float32 : FloatType.float32.max.IsFinite :=
  ⟨by decide, by decide, by decide⟩

/-- The bound of the smaller type, in units: half a place beyond its largest number. -/
theorem covers_float32_iff {q : ℚ} : FloatType.float32.Covers q ↔
    |q| * 2 ^ 1074 ≤ FloatType.float32.max.units + 2 ^ FloatType.float32.max.shift / 2 := by
  have hsignificand : FloatType.float32.max.significand = 2 ^ 53 - 2 ^ 29 := by decide
  have hshift : FloatType.float32.max.shift = 75 + 1074 := rfl
  have hpos : (0 : ℚ) < 2 ^ 1074 := by positivity
  rw [Binary64.units_eq, hsignificand, hshift, Covers, ← mul_le_mul_iff_left₀ hpos]
  generalize 1074 = place
  push_cast
  rw [pow_add]
  refine iff_of_eq (congrArg _ ?_)
  ring

theorem covers_float32_lt {q : ℚ} (h : FloatType.float32.Covers q) :
    FloatType.float64.Covers q := by
  have hlast : (2 : ℚ) ^ 128 ≤ 2 ^ 970 := pow_le_pow_right₀ (by norm_num) (by norm_num)
  have hlarge : (2 : ℚ) ^ 970 ≤ (2 * 2 ^ 53 - 1) * 2 ^ 970 :=
    le_mul_of_one_le_left (by positivity) (by norm_num)
  rw [← Decimal.two_pow_sub] at hlarge
  have hbound : (2 : ℚ) ^ 128 - 2 ^ 104 + 2 ^ 74 < 2 ^ 128 := by norm_num
  exact (h.trans_lt hbound).trans_le (hlast.trans hlarge)

theorem exists_toBinary64?_iff {d : Decimal} :
    (∃ x, d.toBinary64? = some x) ↔ FloatType.float64.Covers d.value := by
  rw [← Option.ne_none_iff_exists', ne_eq, Decimal.toBinary64?_eq_none_iff, not_le]
  rfl

/-- The number that a decimal fraction is rounded to is one of the type exactly if the type covers
the fraction. -/
theorem covers_iff {d : Decimal} :
    t.Covers d.value ↔ ∃ x, d.toBinary64? = some x ∧ x.units ≤ t.max.units := by
  cases t with
  | float64 =>
    rw [← exists_toBinary64?_iff]
    refine exists_congr fun x => (and_iff_left_of_imp fun h => ?_).symm
    exact units_le_of_isFinite (Decimal.isFinite_of_toBinary64? h)
  | float32 =>
    have hround {x : Binary64} (hx : d.toBinary64? = some x) :
        FloatType.float32.Covers d.value ↔ x.units ≤ FloatType.float32.max.units := by
      rw [(Decimal.rounds_of_toBinary64? hx).2.units_le_iff isFinite_max_float32
        (Nat.even_iff.2 (by decide)), covers_float32_iff]
    constructor
    · intro h
      obtain ⟨x, hx⟩ := exists_toBinary64?_iff.2 (covers_float32_lt h)
      exact ⟨x, hx, (hround hx).1 h⟩
    · rintro ⟨x, hx, hunits⟩
      exact (hround hx).2 hunits

/-! ## Decoding -/

theorem read_of_hexMark {mark : Char} (h : mark = 'x' ∨ mark = 'X') :
    Decimal.read negative ('0' :: mark :: cs) = .error (.expectedDigit .decimal) := by
  rcases h with rfl | rfl <;> rfl

/-- A text that is read is rounded; the number must be one of the type. -/
theorem decode_of_read {d : Decimal} (hsplit : splitSign text = (negative, cs))
    (hread : Decimal.read negative cs = .ok d) :
    t.decode text = match d.toBinary64? with
      | some x => if x.units ≤ t.max.units then .ok x else .error (.outOfRange (.float t))
      | none => .error (.outOfRange (.float t)) := by
  unfold decode
  rw [hsplit]
  dsimp only
  split
  · rw [read_of_hexMark (.inl rfl)] at hread
    cases hread
  · rw [read_of_hexMark (.inr rfl)] at hread
    cases hread
  · rw [hread]
    rfl

theorem decode_eq_of_denotes {q : ℚ} (h : Decimal.Denotes text negative q) :
    (t.Covers q → ∃ x : Binary64, t.decode text = .ok x ∧ x.negative = negative ∧ x.IsNearest q) ∧
      (¬ t.Covers q → t.decode text = .error (.outOfRange (.float t))) := by
  obtain ⟨cs, d, hsplit, hread, rfl, rfl⟩ := h.exists_read
  rw [decode_of_read hsplit hread, covers_iff]
  constructor
  · rintro ⟨x, hx, hunits⟩
    refine ⟨x, ?_, (Decimal.rounds_of_toBinary64? hx).1, Decimal.isNearest_of_toBinary64? hx⟩
    simp [hx, hunits]
  · intro hcovers
    split
    · next x hx => rw [if_neg fun hunits => hcovers ⟨x, hx, hunits⟩]
    · rfl

theorem decode_of_malformed {e : NumeralError} (hsplit : splitSign text = (negative, cs))
    (hread : Decimal.read negative cs = .error e) :
    ∃ e', t.decode text = .error e' ∧ e' ≠ .outOfRange (.float t) := by
  unfold decode
  rw [hsplit]
  dsimp only
  split
  · exact ⟨_, rfl, nofun⟩
  · exact ⟨_, rfl, nofun⟩
  · rw [hread]
    refine ⟨_, rfl, ?_⟩
    rcases Decimal.isMalformed_of_read hread with rfl | rfl <;> nofun

/-- Fractions are read exactly.  A text that matches the pattern denotes one number; a float type
that covers it reads the text as the one nearest number of its sign, and any other float type
reports the number out of range.  Every other text is rejected for another reason. -/
theorem decode_nearest (t : FloatType) (text : List Char) :
    (text ∈ Pattern.decimal ↔ ∃ negative q, Decimal.Denotes text negative q) ∧
    (∀ negative q, Decimal.Denotes text negative q →
      (∀ negative' q', Decimal.Denotes text negative' q' → negative' = negative ∧ q' = q) ∧
      ((∃ x, t.decode text = .ok x) ↔ t.Covers q) ∧
      (∀ x, t.decode text = .ok x →
        ∀ y : Binary64, y.negative = negative ∧ y.IsNearest q ↔ y = x) ∧
      (¬ t.Covers q → t.decode text = .error (.outOfRange (.float t)))) ∧
    (text ∉ Pattern.decimal →
      ∃ e, t.decode text = .error e ∧ e ≠ .outOfRange (.float t)) := by
  refine ⟨Decimal.mem_decimal, fun negative q h => ?_, fun h => ?_⟩
  · obtain ⟨hcovers, hrange⟩ := decode_eq_of_denotes (t := t) h
    have hok {x : Binary64} (hx : t.decode text = .ok x) : t.Covers q := by
      by_contra hnot
      rw [hrange hnot] at hx
      cases hx
    refine ⟨fun _ _ h' => h'.unique h, ⟨fun ⟨x, hx⟩ => hok hx, fun hq => ?_⟩, fun x hx y => ?_,
      hrange⟩
    · obtain ⟨x, hx, -⟩ := hcovers hq
      exact ⟨x, hx⟩
    · obtain ⟨_, hx', hnegative, hnearest⟩ := hcovers (hok hx)
      obtain rfl := Except.ok.inj (hx.symm.trans hx')
      constructor
      · rintro ⟨hsign, hy⟩
        exact hy.unique hnearest (hsign.trans hnegative.symm)
      · rintro rfl
        exact ⟨hnegative, hnearest⟩
  · cases hread : Decimal.read (splitSign text).1 (splitSign text).2 with
    | ok d => exact absurd (Decimal.mem_decimal.2 ⟨_, _, Decimal.denotes_of_read rfl hread⟩) h
    | error e => exact decode_of_malformed rfl hread

/-- The whole number `2 ^ 53 + 1` is as near to `2 ^ 53` as to `2 ^ 53 + 2`, and the first of them
has the even significand. -/
theorem decode_nearest_tie :
    Decimal.Denotes "9007199254740993".toList false (2 ^ 53 + 1) ∧
      FloatType.float64.Covers (2 ^ 53 + 1) ∧
        FloatType.float64.decode "9007199254740993".toList = .ok ⟨false, 2 ^ 52, 1075⟩ ∧
          (⟨false, 2 ^ 52, 1075⟩ : Binary64).IsNearest (2 ^ 53 + 1) := by
  have hfigures : Decimal.Figures "9007199254740993".toList
      [9, 0, 0, 7, 1, 9, 9, 2, 5, 4, 7, 4, 0, 9, 9, 3] :=
    ⟨by decide, forall₂_writes_of_isDigit (List.all_eq_true.1 (by decide))⟩
  have hvalue : Decimal.ofDigits false [9, 0, 0, 7, 1, 9, 9, 2, 5, 4, 7, 4, 0, 9, 9, 3] [] 0 =
      2 ^ 53 + 1 := by
    norm_num [Decimal.ofDigits, Base.number, Base.radix, withSign, Nat.ofDigits]
  have hdenotes : Decimal.Denotes "9007199254740993".toList false (2 ^ 53 + 1) :=
    hvalue ▸ .mk false hfigures .none .none
  have hdecode : FloatType.float64.decode "9007199254740993".toList =
      .ok ⟨false, 2 ^ 52, 1075⟩ := by
    decide +kernel
  obtain ⟨-, hcovers, hnearest, -⟩ := (decode_nearest .float64 _).2.1 _ _ hdenotes
  exact ⟨hdenotes, hcovers.1 ⟨_, hdecode⟩, hdecode, ((hnearest _ hdecode _).2 rfl).2⟩

end FloatType

end SchemaLang
