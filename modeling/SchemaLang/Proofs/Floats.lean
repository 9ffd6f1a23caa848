import Mathlib.Algebra.Group.Nat.Defs
import SchemaLang.Numeric.Numeral
import SchemaLang.Proofs.Outcome

/-!
# Numerals of floats

Rounding a fraction gives a number in the one form that a finite binary64 number has, so the values
that a float type reads are finite, and no larger than the largest of the type:
`isFinite_of_decode` and `units_le_of_decode`.
-/

namespace SchemaLang

open Numeral

/-! ## Rounding -/

/-- The significand and the shift are those of the number's interchange encoding. -/
structure Binary64.IsFinite (x : Binary64) : Prop where
  significand_lt : x.significand < 2 ^ 53
  shift_le : x.shift ≤ maxShift
  leading : 0 < x.shift → 2 ^ 52 ≤ x.significand

theorem div_le_roundHalfEven (num den : Nat) : num / den ≤ roundHalfEven num den := by
  unfold roundHalfEven
  dsimp only
  split
  · exact Nat.le_refl _
  · split <;> omega

theorem roundHalfEven_le (num den : Nat) : roundHalfEven num den ≤ num / den + 1 := by
  unfold roundHalfEven
  dsimp only
  split
  · exact Nat.le_succ _
  · split <;> omega

/-- Shifting a quotient until it has 53 bits leaves no more of them. -/
theorem div_shift_lt (q : Nat) : q / 2 ^ (q.log2 - 52) < 2 ^ 53 := by
  apply Nat.div_lt_of_lt_mul
  rw [← Nat.pow_add]
  exact Nat.lt_of_lt_of_le Nat.lt_log2_self (Nat.pow_le_pow_right Nat.two_pos (by omega))

/-- A quotient that is shifted at all keeps 53 bits. -/
theorem le_div_shift {q : Nat} (h : 0 < q.log2 - 52) : 2 ^ 52 ≤ q / 2 ^ (q.log2 - 52) := by
  have hq : q ≠ 0 := by
    rintro rfl
    exact absurd h (by decide)
  rw [Nat.le_div_iff_mul_le (Nat.two_pow_pos _), ← Nat.pow_add]
  have hlog : 52 + (q.log2 - 52) = q.log2 := by omega
  rw [hlog]
  exact Nat.log2_self_le hq

theorem div_shiftLeft (num den shift : Nat) : num / (den <<< shift) = num / den / 2 ^ shift := by
  rw [Nat.shiftLeft_eq, Nat.div_div_eq_div_mul]

/-- A quotient that is shifted until it has 53 bits may be rounded up to one bit more. -/
theorem roundHalfEven_shift_le (num den : Nat) :
    roundHalfEven num (den <<< ((num / den).log2 - 52)) ≤ 2 ^ 53 := by
  refine Nat.le_trans (roundHalfEven_le _ _) ?_
  rw [div_shiftLeft]
  exact div_shift_lt _

theorem le_roundHalfEven_shift (num den : Nat) (h : 0 < (num / den).log2 - 52) :
    2 ^ 52 ≤ roundHalfEven num (den <<< ((num / den).log2 - 52)) := by
  refine Nat.le_trans (le_div_shift h) ?_
  rw [← div_shiftLeft]
  exact div_le_roundHalfEven _ _

namespace Binary64

theorem isFinite_zero (negative : Bool) : (zero negative).IsFinite :=
  ⟨Nat.two_pow_pos _, Nat.zero_le _, fun h => absurd h (Nat.lt_irrefl 0)⟩

theorem isFinite_of_ofRatio? {negative : Bool} {num den : Nat} {x : Binary64}
    (h : ofRatio? negative num den = some x) : x.IsFinite := by
  unfold ofRatio? at h
  dsimp only at h
  have hhigh := roundHalfEven_shift_le (num <<< 1074) den
  have hleading := le_roundHalfEven_shift (num <<< 1074) den
  generalize (num <<< 1074 / den).log2 - 52 = shift at h hhigh hleading
  generalize roundHalfEven (num <<< 1074) (den <<< shift) = significand at h hhigh hleading
  by_cases hcarry : significand = 1 <<< 53
  · rw [if_pos hcarry] at h
    obtain ⟨hle, e⟩ := Option.ite_none_right_eq_some.1 h
    obtain rfl := Option.some.inj e
    have hfits : 1 <<< 52 < 2 ^ 53 := by decide
    exact ⟨hfits, hle, fun _ => Nat.le_refl _⟩
  · rw [if_neg hcarry] at h
    obtain ⟨hle, e⟩ := Option.ite_none_right_eq_some.1 h
    obtain rfl := Option.some.inj e
    rw [Nat.one_shiftLeft] at hcarry
    exact ⟨Nat.lt_of_le_of_ne hhigh hcarry, hle, hleading⟩

/-- What is below a power of two, in units, is rounded to no more than it. -/
theorem exists_ofRatio?_of_lt {num den k : Nat} (negative : Bool) (h : num <<< 1074 / den < 2 ^ k)
    (hlow : 53 ≤ k) (hhigh : k ≤ maxShift + 52) :
    ∃ x, ofRatio? negative num den = some x ∧ x.units ≤ 2 ^ k := by
  have hshift : (num <<< 1074 / den).log2 - 52 ≤ k - 53 := by
    rcases Nat.eq_zero_or_pos (num <<< 1074 / den) with hq | hq
    · simp [hq]
    · have := (Nat.log2_lt (Nat.ne_of_gt hq)).2 h
      omega
  have hsignificand := roundHalfEven_shift_le (num <<< 1074) den
  unfold ofRatio?
  dsimp only
  generalize (num <<< 1074 / den).log2 - 52 = shift at hshift hsignificand ⊢
  generalize roundHalfEven (num <<< 1074) (den <<< shift) = significand at hsignificand ⊢
  have hpow : 2 ^ 53 * 2 ^ shift ≤ 2 ^ k := by
    rw [← Nat.pow_add]
    exact Nat.pow_le_pow_right Nat.two_pos (by omega)
  by_cases hcarry : significand = 1 <<< 53
  · rw [if_pos hcarry, if_pos (by dsimp only; omega)]
    refine ⟨_, rfl, ?_⟩
    have hunits : units ⟨negative, 1 <<< 52, shift + 1⟩ = 2 ^ 53 * 2 ^ shift := by
      rw [units, Nat.one_shiftLeft, Nat.shiftLeft_eq, ← Nat.pow_add, ← Nat.pow_add]
      exact congrArg (2 ^ ·) (by dsimp only; omega)
    rwa [hunits]
  · rw [if_neg hcarry, if_pos (by dsimp only; omega)]
    refine ⟨_, rfl, ?_⟩
    rw [units, Nat.shiftLeft_eq]
    exact Nat.le_trans (Nat.mul_le_mul_right _ hsignificand) hpow

end Binary64

theorem Decimal.isFinite_of_toBinary64? {d : Decimal} {x : Binary64}
    (h : d.toBinary64? = some x) : x.IsFinite := by
  unfold toBinary64? at h
  split at h
  · obtain rfl := Option.some.inj h
    exact Binary64.isFinite_zero _
  · split at h
    · cases h
    · split at h
      · obtain rfl := Option.some.inj h
        exact Binary64.isFinite_zero _
      · split at h
        · exact Binary64.isFinite_of_ofRatio? h
        · exact Binary64.isFinite_of_ofRatio? h

/-! ## Values -/

theorem FloatType.decode_ok {t : FloatType} {text : List Char} {x : Binary64}
    (h : t.decode text = .ok x) : x.IsFinite ∧ x.units ≤ t.max.units := by
  unfold decode at h
  generalize splitSign text = signed at h
  obtain ⟨negative, cs⟩ := signed
  dsimp only at h
  split at h
  · cases h
  · cases h
  · obtain ⟨d, -, h⟩ := bind_eq_ok.1 h
    split at h
    · next y hy =>
      split at h
      · next hle =>
        obtain rfl := Except.ok.inj h
        exact ⟨Decimal.isFinite_of_toBinary64? hy, hle⟩
      · cases h
    · cases h

/-- What a float type reads from a numeral is finite and no larger than its largest value. -/
theorem isFinite_of_decode {t : FloatType} {text : List Char} {x : Binary64}
    (h : (NumericType.float t).decode text = .ok (.float x)) :
    x.IsFinite ∧ x.units ≤ t.max.units := by
  obtain ⟨shape, -, hshape⟩ := bind_eq_ok.1 h
  have of_decode (hd : Number.float <$> t.decode text = .ok (.float x)) :
      x.IsFinite ∧ x.units ≤ t.max.units := by
    obtain ⟨y, hy, e⟩ := map_eq_ok.1 hd
    obtain rfl := Number.float.inj e
    exact t.decode_ok hy
  split at hshape
  · cases hshape
  · cases hshape
  · exact of_decode hshape
  · exact of_decode hshape

end SchemaLang
