import Mathlib.Algebra.Order.Field.Rat
import Mathlib.Algebra.Order.Ring.Abs
import Mathlib.Data.Nat.Cast.Order.Field
import Mathlib.Tactic.FieldSimp
import Mathlib.Tactic.Linarith
import Mathlib.Tactic.Positivity
import SchemaLang.Proofs.Decoding.Decimals

/-!
# Rounding to the nearest number

`Binary64.IsNearest` says which finite binary64 number is nearest to a rational one, without regard
to how it is found; there is only one of each sign, `IsNearest.unique`.  A decimal fraction is
rounded to it, `isNearest_of_toBinary64?`, unless the fraction lies half a place or more beyond the
largest finite number, `toBinary64?_eq_none_iff`.
-/

namespace SchemaLang

open Numeral

/-! ## Rounding a quotient -/

/-- How far a whole number is from the quotient `q + m / den`, counted in parts `1 / den`. -/
theorem dist_quotient {q m den : Nat} (hm : m < den) (k : Nat) :
    (∃ j, k + j = q ∧ |(k * den : ℤ) - (q * den + m)| = j * den + m) ∨
      ∃ j, q + 1 + j = k ∧ |(k * den : ℤ) - (q * den + m)| = j * den + (den - m) := by
  have hnonneg (j : Nat) : 0 ≤ (j * den : ℤ) := by exact_mod_cast Nat.zero_le (j * den)
  rcases Nat.lt_or_ge q k with hk | hk
  · obtain ⟨j, rfl⟩ := Nat.exists_eq_add_of_lt hk
    refine .inr ⟨j, by omega, ?_⟩
    have hsum : ((q + j + 1 : Nat) * den : ℤ) = q * den + j * den + den := by
      push_cast
      ring
    rw [hsum, abs_of_nonneg (by have := hnonneg j; omega)]
    ring
  · obtain ⟨j, rfl⟩ := Nat.exists_eq_add_of_le hk
    refine .inl ⟨j, rfl, ?_⟩
    have hsum : ((k + j : Nat) * den : ℤ) = k * den + j * den := by
      push_cast
      ring
    rw [hsum, abs_of_nonpos (by have := hnonneg j; omega)]
    ring

/-- The remainder decides which of the two neighbours a quotient is rounded to. -/
theorem roundHalfEven_cases (num den : Nat) :
    (roundHalfEven num den = num / den → 2 * (num % den) ≤ den) ∧
      (roundHalfEven num den = num / den + 1 → den ≤ 2 * (num % den)) ∧
        (2 * (num % den) = den → Even (roundHalfEven num den)) := by
  unfold roundHalfEven
  dsimp only
  split
  · exact ⟨by omega, by omega, by omega⟩
  · split
    · exact ⟨by omega, by omega, by omega⟩
    · exact ⟨by omega, by omega, fun _ => Nat.even_iff.2 (by omega)⟩

/-- Rounding a quotient gives a nearest whole number, and the even one of two. -/
theorem roundHalfEven_nearest {num den : Nat} (hden : 0 < den) (k : Nat) :
    |(roundHalfEven num den * den : ℤ) - num| ≤ |(k * den : ℤ) - num| ∧
      (k ≠ roundHalfEven num den →
        |(k * den : ℤ) - num| = |(roundHalfEven num den * den : ℤ) - num| →
          Even (roundHalfEven num den)) := by
  have hnum : (num : ℤ) = (num / den : Nat) * den + (num % den : Nat) := by
    exact_mod_cast (Nat.div_add_mod' num den).symm
  have hm := Nat.mod_lt num hden
  have hfloor := div_le_roundHalfEven num den
  have hceil := roundHalfEven_le num den
  obtain ⟨hdown, hup, hhalf⟩ := roundHalfEven_cases num den
  rw [hnum]
  generalize roundHalfEven num den = r at *
  generalize num / den = q at *
  generalize num % den = m at *
  rcases dist_quotient (q := q) hm k with ⟨j, hj, hk⟩ | ⟨j, hj, hk⟩ <;>
    rcases dist_quotient (q := q) hm r with ⟨i, hi, hr⟩ | ⟨i, hi, hr⟩
  all_goals
    -- `r` is next to the quotient, and `k` is either next to it too or further away by `den`.
    obtain rfl : i = 0 := by omega
    have hstep : j = 0 ∨ (den : ℤ) ≤ j * den := by
      rcases Nat.eq_zero_or_pos j with h | h
      · exact .inl h
      · exact .inr (by exact_mod_cast Nat.le_mul_of_pos_left den h)
    rw [hk, hr]
    constructor
    · rcases hstep with rfl | _ <;> omega
    · intro hne he
      apply hhalf
      rcases hstep with rfl | _ <;> omega

/-- A quotient is rounded up to an even number from a half before it on. -/
theorem roundHalfEven_eq_iff {num den n : Nat} (hden : 0 < den) (heven : Even n)
    (hlt : num / den < n) :
    roundHalfEven num den = n ↔ (2 * n - 1) * den ≤ 2 * num := by
  have hnum := Nat.div_add_mod' num den
  have hm := Nat.mod_lt num hden
  have hceil := roundHalfEven_le num den
  obtain ⟨k, rfl⟩ := heven
  rcases Nat.lt_or_ge (num / den + 1) (k + k) with hfar | hnear
  · have hstep : (num / den + 1) * den ≤ (k + k - 1) * den := Nat.mul_le_mul_right den (by omega)
    have hdouble : (2 * (k + k) - 1) * den = (k + k - 1) * den + (k + k - 1) * den + den := by
      rw [← Nat.add_mul, ← Nat.succ_mul]
      exact congrArg (· * den) (by omega)
    rw [Nat.succ_mul] at hstep
    exact iff_of_false (by omega) (by omega)
  · have hdouble : (2 * (k + k) - 1) * den = 2 * (num / den * den) + den := by
      rw [← Nat.mul_assoc, ← Nat.succ_mul]
      exact congrArg (· * den) (by omega)
    rw [hdouble]
    unfold roundHalfEven
    dsimp only
    split
    · omega
    · split <;> omega

namespace Binary64

/-! ## The nearest number -/

/-- The rational number that a finite number stands for. -/
def value (x : Binary64) : ℚ := withSign x.negative x.units / 2 ^ 1074

/-- The number is the finite one nearest to `q`; of two it is the one with the even significand. -/
structure IsNearest (x : Binary64) (q : ℚ) : Prop where
  isFinite : x.IsFinite
  le : ∀ y : Binary64, y.IsFinite → |x.value - q| ≤ |y.value - q|
  even : ∀ y : Binary64, y.IsFinite → y.value ≠ x.value → |y.value - q| = |x.value - q| →
    Even x.significand

/-- The magnitude of the number is, in units, the one nearest to `u`. -/
structure Rounds (x : Binary64) (u : ℚ) : Prop where
  isFinite : x.IsFinite
  le : ∀ y : Binary64, y.IsFinite → |x.units - u| ≤ |y.units - u|
  even : ∀ y : Binary64, y.IsFinite → y.units ≠ x.units → |y.units - u| = |x.units - u| →
    Even x.significand

theorem units_eq (x : Binary64) : x.units = x.significand * 2 ^ x.shift := Nat.shiftLeft_eq _ _

theorem abs_withSign (negative : Bool) (n : Nat) : |withSign negative n| = n := by
  cases negative <;> simp [withSign]

/-- The magnitude of `q` in units. -/
theorem abs_value (x : Binary64) : |x.value| * 2 ^ 1074 = x.units := by
  have hpos : (0 : ℚ) < 2 ^ 1074 := by positivity
  rw [value, abs_div, ← Int.cast_abs, abs_withSign, abs_of_pos hpos]
  field_simp
  rfl

/-- A number with fewer bits than the last of a larger one is not larger. -/
theorem units_lt_of_shift_lt {x : Binary64} (h : x.IsFinite) {shift : Nat} (hlt : x.shift < shift) :
    x.units < 2 ^ 52 * 2 ^ shift := by
  have hstep : 2 ^ 53 * 2 ^ x.shift ≤ 2 ^ 52 * 2 ^ shift := by
    rw [← Nat.pow_add, ← Nat.pow_add]
    exact Nat.pow_le_pow_right Nat.two_pos (by omega)
  rw [units_eq]
  exact Nat.lt_of_lt_of_le (Nat.mul_lt_mul_of_pos_right h.significand_lt (Nat.two_pow_pos _)) hstep

/-- A number whose last bit is not below that of a grid stands on the grid. -/
theorem exists_units_eq {x : Binary64} {shift : Nat} (h : shift ≤ x.shift) :
    ∃ k, x.units = k * 2 ^ shift := by
  refine ⟨x.significand * 2 ^ (x.shift - shift), ?_⟩
  rw [units_eq, Nat.mul_assoc, ← Nat.pow_add, Nat.sub_add_cancel h]

theorem abs_sub_div (n num : Nat) {den : Nat} (hden : 0 < den) :
    |(n : ℚ) - num / den| = ((|(n * den : ℤ) - num| : ℤ) : ℚ) / den := by
  have hpos : (0 : ℚ) < den := by exact_mod_cast hden
  have hdiff : (n : ℚ) - num / den = ((n * den - num : ℤ) : ℚ) / den := by
    push_cast
    field_simp
  rw [hdiff, abs_div, abs_of_pos hpos, ← Int.cast_abs]

/-- A number below the first one with 53 bits at its place is further from `u` than that one. -/
theorem abs_sub_lt_of_lt {n m : Nat} {u : ℚ} (hn : n < m) (hm : m ≤ u) :
    |(m : ℚ) - u| < |(n : ℚ) - u| := by
  have hlt : (n : ℚ) < m := by exact_mod_cast hn
  rw [abs_of_nonpos (by linarith), abs_of_nonpos (by linarith)]
  linarith

/-! ## Rounding a fraction -/

/-- The number that `ofRatio?` makes of the rounded significand. -/
theorem exists_of_ofRatio? {negative : Bool} {num den : Nat} {x : Binary64}
    (h : ofRatio? negative num den = some x) :
    ∃ shift r, shift = (num <<< 1074 / den).log2 - 52 ∧
      r = roundHalfEven (num <<< 1074) (den <<< shift) ∧
      x.negative = negative ∧ x.units = r * 2 ^ shift ∧ (Even r → Even x.significand) := by
  unfold ofRatio? at h
  dsimp only at h
  refine ⟨_, _, rfl, rfl, ?_⟩
  obtain ⟨-, h⟩ := Option.ite_none_right_eq_some.1 h
  obtain rfl := Option.some.inj h
  split
  · next hcarry =>
    refine ⟨rfl, ?_, fun _ => ⟨2 ^ 51, rfl⟩⟩
    rw [hcarry, units_eq, Nat.one_shiftLeft, Nat.one_shiftLeft, ← Nat.pow_add, ← Nat.pow_add]
    exact congrArg (2 ^ ·) (by dsimp only; omega)
  · exact ⟨rfl, units_eq _, id⟩

/-- On the grid of the last bit, rounding a quotient decides. -/
theorem nearest_on_grid {num den : Nat} (hden : 0 < den) (shift k : Nat) :
    |((roundHalfEven num (den <<< shift) * 2 ^ shift : Nat) : ℚ) - num / den| ≤
        |((k * 2 ^ shift : Nat) : ℚ) - num / den| ∧
      (k * 2 ^ shift ≠ roundHalfEven num (den <<< shift) * 2 ^ shift →
        |((k * 2 ^ shift : Nat) : ℚ) - num / den| =
          |((roundHalfEven num (den <<< shift) * 2 ^ shift : Nat) : ℚ) - num / den| →
            Even (roundHalfEven num (den <<< shift))) := by
  have hplace : 0 < den <<< shift := by
    rw [Nat.shiftLeft_eq]
    exact Nat.mul_pos hden (Nat.two_pow_pos _)
  have hcast (n : Nat) : (n * (den <<< shift : Nat) : ℤ) = (n * 2 ^ shift : Nat) * den := by
    rw [Nat.shiftLeft_eq]
    push_cast
    ring
  have hpos : (0 : ℚ) < den := Nat.cast_pos.2 hden
  obtain ⟨hle, htie⟩ := @roundHalfEven_nearest num _ hplace k
  rw [hcast, hcast] at hle htie
  rw [abs_sub_div _ _ hden, abs_sub_div _ _ hden, div_le_div_iff_of_pos_right hpos,
    div_left_inj' hpos.ne']
  refine ⟨Int.cast_le.2 hle, fun hne he => htie ?_ (Int.cast_injective he)⟩
  rintro rfl
  exact hne rfl

theorem rounds_of_ofRatio? {negative : Bool} {num den : Nat} {x : Binary64} (hden : 0 < den)
    (h : ofRatio? negative num den = some x) :
    x.negative = negative ∧ x.Rounds ((num <<< 1074 : Nat) / den) := by
  have hfinite := isFinite_of_ofRatio? h
  obtain ⟨shift, r, hshift, rfl, hnegative, hunits, heven⟩ := exists_of_ofRatio? h
  have hgrid := @nearest_on_grid (num <<< 1074) den hden shift
  rw [← hunits] at hgrid
  generalize num <<< 1074 = scaled at *
  -- Below that grid every number is further away than the least one on it with 53 bits.
  have hbelow {y : Binary64} (hy : y.IsFinite) (hlt : y.shift < shift) :
      |(x.units : ℚ) - scaled / den| < |(y.units : ℚ) - scaled / den| := by
    refine lt_of_le_of_lt (hgrid (2 ^ 52)).1 (abs_sub_lt_of_lt (units_lt_of_shift_lt hy hlt) ?_)
    have hbits : 2 ^ 52 * 2 ^ shift ≤ scaled / den := by
      rw [← Nat.le_div_iff_mul_le (Nat.two_pow_pos _)]
      exact hshift ▸ le_div_shift (by omega)
    rw [le_div_iff₀ (Nat.cast_pos.2 hden)]
    exact_mod_cast (Nat.le_div_iff_mul_le hden).1 hbits
  refine ⟨hnegative, hfinite, fun y hy => ?_, fun y hy hne he => ?_⟩
  · rcases Nat.lt_or_ge y.shift shift with hlt | hle
    · exact (hbelow hy hlt).le
    · obtain ⟨k, hk⟩ := exists_units_eq hle
      rw [hk]
      exact (hgrid k).1
  · rcases Nat.lt_or_ge y.shift shift with hlt | hle
    · exact absurd he (hbelow hy hlt).ne'
    · obtain ⟨k, hk⟩ := exists_units_eq hle
      rw [hk] at hne he
      exact heven ((hgrid k).2 hne he)

/-! ## Numbers out of range -/

/-- No number is left if the significand needs a place past the last one. -/
theorem ofRatio?_eq_none {negative : Bool} {num den : Nat} :
    ofRatio? negative num den = none ↔ maxShift < (num <<< 1074 / den).log2 - 52 ∨
      (num <<< 1074 / den).log2 - 52 = maxShift ∧
        roundHalfEven (num <<< 1074) (den <<< maxShift) = 2 ^ 53 := by
  unfold ofRatio?
  dsimp only
  generalize (num <<< 1074 / den).log2 - 52 = shift
  rw [Nat.one_shiftLeft]
  split
  · next hcarry =>
    dsimp only
    rw [ite_eq_right_iff]
    constructor
    · intro h
      have : ¬ shift + 1 ≤ maxShift := fun hle => nomatch h hle
      rcases Nat.lt_or_eq_of_le (by omega : maxShift ≤ shift) with h' | rfl
      · exact .inl h'
      · exact .inr ⟨rfl, hcarry⟩
    · intro h hle
      omega
  · next hcarry =>
    dsimp only
    rw [ite_eq_right_iff]
    constructor
    · intro h
      exact .inl (by_contra fun hlt => nomatch h (by omega))
    · rintro (h | ⟨rfl, h⟩) hle
      · omega
      · exact absurd h hcarry

/-- A fraction is out of range from half a unit of the last place beyond the largest number on. -/
theorem ofRatio?_eq_none_iff {negative : Bool} {num den : Nat} (hden : 0 < den) :
    ofRatio? negative num den = none ↔
      (2 * 2 ^ 53 - 1) * (2 ^ (maxShift - 1) * den) ≤ num <<< 1074 := by
  have hlt := div_shift_lt (num <<< 1074 / den)
  have hge := @le_div_shift (num <<< 1074 / den)
  rw [ofRatio?_eq_none]
  generalize num <<< 1074 = scaled at *
  generalize (scaled / den).log2 - 52 = shift at *
  rw [Nat.div_div_eq_div_mul, Nat.mul_comm] at hlt hge
  have htop : 0 < maxShift := by decide
  generalize maxShift = top at *
  have hplace (e : Nat) : 0 < 2 ^ e * den := Nat.mul_pos (Nat.two_pow_pos e) hden
  have hhalf : 2 ^ top * den = 2 * (2 ^ (top - 1) * den) := by
    rw [← Nat.mul_assoc, ← Nat.pow_succ', Nat.succ_eq_add_one, Nat.sub_add_cancel htop]
  rcases Nat.lt_trichotomy shift top with hshift | rfl | hshift
  · have hbound : 2 ^ shift * den ≤ 2 ^ (top - 1) * den :=
      Nat.mul_le_mul_right den (Nat.pow_le_pow_right Nat.two_pos (by omega))
    rw [Nat.div_lt_iff_lt_mul (hplace _)] at hlt
    exact iff_of_false (by omega) (by omega)
  · rw [or_iff_right (Nat.lt_irrefl _), and_iff_right rfl, Nat.shiftLeft_eq, Nat.mul_comm den,
      roundHalfEven_eq_iff (hplace _) (by decide : Even (2 ^ 53)) hlt, hhalf]
    omega
  · have hbound : 2 ^ (top + 1) * den ≤ 2 ^ shift * den :=
      Nat.mul_le_mul_right den (Nat.pow_le_pow_right Nat.two_pos hshift)
    rw [Nat.pow_succ', Nat.mul_assoc, hhalf] at hbound
    have hbits := hge (by omega)
    rw [Nat.le_div_iff_mul_le (hplace _)] at hbits
    exact iff_of_true (.inl hshift) (by omega)

/-! ## Signs -/

/-- The sign of the number is that of `q`; zero has both. -/
def SignOf (x : Binary64) (q : ℚ) : Prop := if x.negative then q ≤ 0 else 0 ≤ q

theorem signOf_value (x : Binary64) : x.SignOf x.value := by
  have hpos : (0 : ℚ) ≤ x.units / 2 ^ 1074 := by positivity
  unfold SignOf value withSign
  split
  · push_cast
    rw [neg_div]
    exact neg_nonpos.2 hpos
  · rwa [Int.cast_natCast]

/-- Numbers of one sign differ by as much as their magnitudes. -/
theorem SignOf.abs_sub {x : Binary64} {p q : ℚ} (hp : x.SignOf p) (hq : x.SignOf q) :
    |p - q| = |(|p| - |q|)| := by
  unfold SignOf at hp hq
  cases hnegative : x.negative with
  | false =>
    rw [hnegative, if_neg Bool.false_ne_true] at hp hq
    rw [abs_of_nonneg hp, abs_of_nonneg hq]
  | true =>
    rw [hnegative, if_pos rfl] at hp hq
    rw [abs_of_nonpos hp, abs_of_nonpos hq, neg_sub_neg, abs_sub_comm]

theorem abs_units_sub (x : Binary64) (q : ℚ) :
    |(x.units : ℚ) - |q| * 2 ^ 1074| = |(|x.value| - |q|)| * 2 ^ 1074 := by
  rw [← abs_value, ← sub_mul, abs_mul, abs_of_pos (by positivity : (0 : ℚ) < 2 ^ 1074)]

theorem units_eq_iff {x y : Binary64} : y.units = x.units ↔ |y.value| = |x.value| := by
  have hpos : (2 : ℚ) ^ 1074 ≠ 0 := by positivity
  rw [← Nat.cast_inj (R := ℚ), ← abs_value, ← abs_value, mul_left_inj' hpos]

/-- To round the magnitude is to round the number. -/
theorem Rounds.isNearest {x : Binary64} {q : ℚ} (h : x.Rounds (|q| * 2 ^ 1074))
    (hq : x.SignOf q) : x.IsNearest q := by
  have hpos : (0 : ℚ) < 2 ^ 1074 := by positivity
  have hx := (signOf_value x).abs_sub hq
  have hle (y : Binary64) (hy : y.IsFinite) : |(|x.value| - |q|)| ≤ |(|y.value| - |q|)| := by
    have hunits := h.le y hy
    rwa [abs_units_sub, abs_units_sub, mul_le_mul_iff_left₀ hpos] at hunits
  refine ⟨h.isFinite, fun y hy => ?_, fun y hy hne he => ?_⟩
  · rw [hx]
    exact (hle y hy).trans (abs_abs_sub_abs_le _ _)
  · have hmagnitude : |(|y.value| - |q|)| = |(|x.value| - |q|)| :=
      le_antisymm ((abs_abs_sub_abs_le _ _).trans (he.trans hx).le) (hle y hy)
    by_cases hunits : y.units = x.units
    · -- Only the number of the other sign is left, and it is not as near unless both are zero.
      have hneg : y.value = -x.value := (abs_eq_abs.1 (units_eq_iff.1 hunits)).resolve_left hne
      have hzero : x.value = 0 := by
        rw [hneg] at he
        rcases abs_eq_abs.1 he with h' | h'
        · linarith
        · have hq0 : q = 0 := by linarith
          have hleast := hle (zero false) (isFinite_zero false)
          have hval : (zero false).value = 0 := by simp [value, zero, units, withSign]
          rw [hq0, hval] at hleast
          simpa using hleast
      exact absurd (by rw [hneg, hzero, neg_zero]) hne
    · refine h.even y hy hunits ?_
      rw [abs_units_sub, abs_units_sub, hmagnitude]

/-! ## One nearest number -/

theorem IsFinite.units_lt {x y : Binary64} (hx : x.IsFinite) (hy : y.IsFinite)
    (h : x.shift < y.shift) : x.units < y.units := by
  have hleading := Nat.mul_le_mul_right (2 ^ y.shift) (hy.leading (by omega))
  rw [← units_eq] at hleading
  exact Nat.lt_of_lt_of_le (units_lt_of_shift_lt hx h) hleading

/-- A finite number is given by its sign and its magnitude. -/
theorem IsFinite.eq_of_units {x y : Binary64} (hx : x.IsFinite) (hy : y.IsFinite)
    (hnegative : x.negative = y.negative) (h : x.units = y.units) : x = y := by
  have hshift : x.shift = y.shift := by
    rcases Nat.lt_trichotomy x.shift y.shift with hlt | he | hlt
    · exact absurd h (hx.units_lt hy hlt).ne
    · exact he
    · exact absurd h (hy.units_lt hx hlt).ne'
  rw [units_eq, units_eq, hshift] at h
  have hsignificand := Nat.eq_of_mul_eq_mul_right (Nat.two_pow_pos _) h
  obtain ⟨negative, significand, shift⟩ := x
  obtain rfl : negative = y.negative := hnegative
  obtain rfl : shift = y.shift := hshift
  obtain rfl : significand = y.significand := hsignificand
  rfl

/-- The number after `x`, unless the significand is full. -/
def next (x : Binary64) : Binary64 := { x with significand := x.significand + 1 }

theorem units_next (x : Binary64) : x.next.units = x.units + 2 ^ x.shift := by
  rw [units_eq, units_eq, next, Nat.add_mul, Nat.one_mul]

theorem IsFinite.next {x : Binary64} (h : x.IsFinite) (hlt : x.significand + 1 < 2 ^ 53) :
    x.next.IsFinite :=
  ⟨hlt, h.shift_le, fun hpos => (h.leading hpos).trans (Nat.le_succ _)⟩

theorem IsFinite.next_le {x y : Binary64} (hx : x.IsFinite) (hy : y.IsFinite)
    (h : x.units < y.units) : x.next.units ≤ y.units := by
  rw [units_next]
  rcases Nat.lt_or_ge y.shift x.shift with hshift | hshift
  · exact absurd h (hy.units_lt hx hshift).le.not_gt
  · obtain ⟨k, hk⟩ := exists_units_eq hshift
    rw [hk, units_eq] at h ⊢
    rw [← Nat.succ_mul]
    exact Nat.mul_le_mul_right _ (Nat.lt_of_mul_lt_mul_right h)

/-- The number after one with an even significand has an odd one. -/
theorem IsFinite.not_even_of_units {x y : Binary64} (hx : x.IsFinite) (hy : y.IsFinite)
    (hxe : Even x.significand) (h : y.units = x.next.units) : ¬ Even y.significand := by
  have hlt := hx.significand_lt
  have hnext : x.next.IsFinite := hx.next (by obtain ⟨k, hk⟩ := hxe; omega)
  have hsign : IsFinite ⟨y.negative, x.significand + 1, x.shift⟩ :=
    ⟨hnext.significand_lt, hnext.shift_le, hnext.leading⟩
  rw [hy.eq_of_units hsign rfl h, Nat.not_even_iff_odd]
  exact hxe.add_one

/-- Between two numbers with even significands there is another one. -/
theorem IsFinite.exists_between {x y : Binary64} (hx : x.IsFinite) (hy : y.IsFinite)
    (hxe : Even x.significand) (hye : Even y.significand) (h : x.units < y.units) :
    ∃ z : Binary64, z.IsFinite ∧ z.negative = x.negative ∧ x.units < z.units ∧
      z.units < y.units := by
  have hlt := hx.significand_lt
  refine ⟨x.next, hx.next (by obtain ⟨k, hk⟩ := hxe; omega), rfl, ?_, ?_⟩
  · rw [units_next]
    exact Nat.lt_add_of_pos_right (Nat.two_pow_pos _)
  · refine Nat.lt_of_le_of_ne (hx.next_le hy h) fun he => ?_
    exact hx.not_even_of_units hy hxe he.symm hye

/-- Magnitudes order the numbers of one sign, and reversely if it is minus. -/
theorem value_lt {x y : Binary64} (h : x.negative = y.negative) (hlt : x.units < y.units) :
    if x.negative then y.value < x.value else x.value < y.value := by
  have hcast : (x.units : ℚ) / 2 ^ 1074 < y.units / 2 ^ 1074 := by
    have hpos : (0 : ℚ) < 2 ^ 1074 := by positivity
    rw [div_lt_div_iff_of_pos_right hpos]
    exact Nat.cast_lt.2 hlt
  unfold value withSign
  rw [← h]
  cases x.negative
  · simpa using hcast
  · simpa [neg_div] using hcast

/-- What lies between two numbers is nearer to their middle. -/
theorem abs_sub_lt_of_between {a b c q : ℚ} (h : |a - q| = |b - q|) (hac : a < c) (hcb : c < b) :
    |c - q| < |a - q| := by
  rcases abs_eq_abs.1 h with he | he
  · linarith
  · rw [abs_of_nonpos (by linarith : a - q ≤ 0), abs_lt]
    constructor <;> linarith

theorem IsNearest.units_le {x y : Binary64} {q : ℚ} (hx : x.IsNearest q) (hy : y.IsNearest q)
    (h : x.negative = y.negative) : y.units ≤ x.units := by
  by_contra! hlt
  have hdist := le_antisymm (hx.le y hy.isFinite) (hy.le x hx.isFinite)
  have hne : x.value ≠ y.value := fun he =>
    hlt.ne (units_eq_iff.2 (congrArg abs he))
  obtain ⟨z, hz, hnegative, hxz, hzy⟩ := hx.isFinite.exists_between hy.isFinite
    (hx.even y hy.isFinite hne.symm hdist.symm) (hy.even x hx.isFinite hne hdist) hlt
  have hlow := value_lt hnegative.symm hxz
  have hhigh := value_lt (hnegative.trans h) hzy
  rw [hnegative] at hhigh
  refine (hx.le z hz).not_gt ?_
  split at hlow
  · next hminus =>
    rw [if_pos hminus] at hhigh
    rw [hdist]
    exact abs_sub_lt_of_between hdist.symm hhigh hlow
  · next hplus =>
    rw [if_neg hplus] at hhigh
    exact abs_sub_lt_of_between hdist hlow hhigh

/-- A number has one nearest binary64 number of each sign. -/
theorem IsNearest.unique {x y : Binary64} {q : ℚ} (hx : x.IsNearest q) (hy : y.IsNearest q)
    (h : x.negative = y.negative) : x = y :=
  hx.isFinite.eq_of_units hy.isFinite h (Nat.le_antisymm (hy.units_le hx h.symm) (hx.units_le hy h))

end Binary64

/-! ## Bounds -/

/-- The rounded magnitude does not pass `m` exactly if half a place beyond it is not passed; this
half goes to `m`, the number with the even significand. -/
theorem Binary64.Rounds.units_le_iff {x m : Binary64} {u : ℚ} (h : x.Rounds u) (hm : m.IsFinite)
    (heven : Even m.significand) :
    x.units ≤ m.units ↔ u ≤ m.units + 2 ^ m.shift / 2 := by
  have hlt := hm.significand_lt
  have hnext : m.next.IsFinite := hm.next (by obtain ⟨k, hk⟩ := heven; omega)
  have hplace : (m.next.units : ℚ) = m.units + 2 ^ m.shift := by
    rw [units_next]
    push_cast
    rfl
  have hpos : (0 : ℚ) < 2 ^ m.shift := by positivity
  constructor
  · intro hle
    have hcast : (x.units : ℚ) ≤ m.units := Nat.cast_le.2 hle
    by_contra! hgt
    refine (h.le m.next hnext).not_gt ?_
    rw [abs_of_nonpos (by linarith : (x.units : ℚ) - u ≤ 0), abs_lt, hplace]
    constructor <;> linarith
  · intro hle
    by_contra! hgt
    have hcast : (m.next.units : ℚ) ≤ x.units := Nat.cast_le.2 (hm.next_le h.isFinite hgt)
    have hnear := h.le m hm
    rw [abs_of_nonneg (by linarith : (0 : ℚ) ≤ x.units - u)] at hnear
    have hfar : u - m.units = x.units - u := by
      rcases le_abs.1 hnear with h' | h' <;> linarith
    have hunits : x.units = m.next.units := Nat.cast_injective (R := ℚ) (by linarith)
    refine hm.not_even_of_units h.isFinite heven hunits (h.even m hm hgt.ne ?_)
    rw [abs_of_nonneg (by linarith : (0 : ℚ) ≤ x.units - u),
      abs_of_nonpos (by linarith : (m.units : ℚ) - u ≤ 0)]
    linarith

/-! ## Decimal fractions -/

/-- Less than half a unit is rounded to zero. -/
theorem Binary64.rounds_zero (negative : Bool) {u : ℚ} (hu : 0 ≤ u) (h : u < 1 / 2) :
    (zero negative).Rounds u := by
  have hunits : (zero negative).units = 0 := rfl
  have hlt (y : Binary64) (hy : y.units ≠ 0) : u < |(y.units : ℚ) - u| := by
    have hone : (1 : ℚ) ≤ y.units := by exact_mod_cast Nat.one_le_iff_ne_zero.2 hy
    rw [abs_of_nonneg (by linarith)]
    linarith
  refine ⟨isFinite_zero _, fun y _ => ?_, fun y _ hne he => ?_⟩
  · rw [hunits, Nat.cast_zero, zero_sub, abs_neg, abs_of_nonneg hu]
    by_cases hy : y.units = 0
    · rw [hy, Nat.cast_zero, zero_sub, abs_neg, abs_of_nonneg hu]
    · exact (hlt y hy).le
  · rw [hunits, Nat.cast_zero, zero_sub, abs_neg, abs_of_nonneg hu] at he
    exact absurd he (hlt y hne).ne'

namespace Decimal

/-- The rational number that a decimal fraction denotes. -/
def value (d : Decimal) : ℚ := withSign d.negative d.digits * 10 ^ d.exponent

theorem abs_value (d : Decimal) : |d.value| = d.digits * 10 ^ d.exponent := by
  have hpos : (0 : ℚ) < 10 ^ d.exponent := zpow_pos (by norm_num) _
  rw [value, abs_mul, ← Int.cast_abs, Binary64.abs_withSign, abs_of_pos hpos]
  rfl

theorem signOf_value {x : Binary64} {d : Decimal} (h : x.negative = d.negative) :
    x.SignOf d.value := by
  have hpos : (0 : ℚ) ≤ d.digits * 10 ^ d.exponent :=
    mul_nonneg (Nat.cast_nonneg _) (zpow_pos (by norm_num) _).le
  unfold Binary64.SignOf value withSign
  rw [h]
  split
  · push_cast
    rw [neg_mul]
    exact neg_nonpos.2 hpos
  · rwa [Int.cast_natCast]

theorem abs_value_of_nonneg {d : Decimal} (h : 0 ≤ d.exponent) :
    |d.value| = (d.digits * Nat.pow 10 d.exponent.toNat : Nat) / (1 : Nat) := by
  obtain ⟨n, hn⟩ := Int.eq_ofNat_of_zero_le h
  rw [abs_value, hn, Int.toNat_natCast, zpow_natCast, Nat.cast_one, div_one, Nat.cast_mul]
  exact congrArg _ (Nat.cast_pow 10 n).symm

theorem abs_value_of_neg {d : Decimal} (h : d.exponent < 0) :
    |d.value| = d.digits / (Nat.pow 10 (-d.exponent).toNat : Nat) := by
  obtain ⟨n, hn⟩ := Int.eq_ofNat_of_zero_le (Int.neg_nonneg.2 h.le)
  rw [abs_value, hn, Int.toNat_natCast, ← neg_neg d.exponent, hn, zpow_neg, zpow_natCast,
    ← div_eq_mul_inv]
  exact congrArg _ (Nat.cast_pow 10 n).symm

/-- What is decided without any power of ten is below half a unit. -/
theorem abs_value_lt_of_log2 {d : Decimal} {k : Nat}
    (h : d.digits.log2 + (k + 2) < 3 * -d.exponent) : |d.value| * 2 ^ k < 1 / 2 := by
  have hneg : d.exponent < 0 := by omega
  have hdigits : d.digits * 2 ^ k * 2 < 10 ^ (-d.exponent).toNat := by
    calc d.digits * 2 ^ k * 2
        < 2 ^ (d.digits.log2 + 1) * 2 ^ k * 2 :=
          Nat.mul_lt_mul_of_pos_right
            (Nat.mul_lt_mul_of_pos_right Nat.lt_log2_self (Nat.two_pow_pos _)) Nat.two_pos
      _ = 2 ^ (d.digits.log2 + 1 + k + 1) := by rw [← Nat.pow_add, ← Nat.pow_succ]
      _ ≤ 2 ^ (3 * (-d.exponent).toNat) := Nat.pow_le_pow_right Nat.two_pos (by omega)
      _ = (2 ^ 3) ^ (-d.exponent).toNat := Nat.pow_mul 2 3 _
      _ ≤ 10 ^ (-d.exponent).toNat := Nat.pow_le_pow_left (by decide) _
  have hpos : (0 : ℚ) < (Nat.pow 10 (-d.exponent).toNat : Nat) :=
    Nat.cast_pos.2 (Nat.pow_pos (by decide))
  rw [abs_value_of_neg hneg, div_mul_eq_mul_div, div_lt_div_iff₀ hpos two_pos, one_mul]
  have hcast := Nat.cast_lt (α := ℚ).2 hdigits
  rwa [Nat.cast_mul, Nat.cast_mul, Nat.cast_pow] at hcast

theorem rounds_of_ratio {d : Decimal} {num den : Nat} {x : Binary64} (hden : 0 < den)
    (hvalue : |d.value| = num / den) (h : Binary64.ofRatio? d.negative num den = some x) :
    x.negative = d.negative ∧ x.Rounds (|d.value| * 2 ^ 1074) := by
  obtain ⟨hnegative, hrounds⟩ := Binary64.rounds_of_ofRatio? hden h
  refine ⟨hnegative, ?_⟩
  generalize 1074 = place at hrounds ⊢
  rwa [Nat.shiftLeft_eq, Nat.cast_mul, Nat.cast_pow, mul_div_right_comm, ← hvalue] at hrounds

theorem rounds_of_toBinary64? {d : Decimal} {x : Binary64} (h : d.toBinary64? = some x) :
    x.negative = d.negative ∧ x.Rounds (|d.value| * 2 ^ 1074) := by
  unfold toBinary64? at h
  split at h
  · next hzero =>
    obtain rfl := Option.some.inj h
    refine ⟨rfl, Binary64.rounds_zero _ ?_ ?_⟩
    all_goals rw [abs_value, hzero, Nat.cast_zero, zero_mul, zero_mul]
    norm_num
  · split at h
    · cases h
    · split at h
      · next hsmall =>
        obtain rfl := Option.some.inj h
        exact ⟨rfl, Binary64.rounds_zero _ (by positivity) (abs_value_lt_of_log2 hsmall)⟩
      · split at h
        · next hexponent =>
          exact rounds_of_ratio Nat.one_pos (abs_value_of_nonneg hexponent) h
        · next hexponent =>
          exact rounds_of_ratio (Nat.pow_pos (by decide)) (abs_value_of_neg (by omega)) h

/-- A decimal fraction is rounded to the nearest number of its sign. -/
theorem isNearest_of_toBinary64? {d : Decimal} {x : Binary64} (h : d.toBinary64? = some x) :
    x.IsNearest d.value := by
  obtain ⟨hnegative, hrounds⟩ := rounds_of_toBinary64? h
  exact hrounds.isNearest (signOf_value hnegative)

/-- The place of the last bit of the largest number, and of the bit after it. -/
theorem two_pow_sub (place : Nat) :
    (2 : ℚ) ^ (54 + place) - 2 ^ place = (2 * 2 ^ 53 - 1) * 2 ^ place := by
  rw [pow_add]
  ring

theorem ratio_eq_none_iff {d : Decimal} {num den : Nat} (hden : 0 < den)
    (hvalue : |d.value| = num / den) :
    Binary64.ofRatio? d.negative num den = none ↔ 2 ^ 1024 - 2 ^ 970 ≤ |d.value| := by
  have hlast : Binary64.maxShift - 1 = 970 + 1074 := rfl
  rw [Binary64.ofRatio?_eq_none_iff hden, hvalue, le_div_iff₀ (Nat.cast_pos.2 hden), hlast,
    two_pow_sub 970]
  generalize 970 = last
  generalize 1074 = place
  rw [Nat.shiftLeft_eq, Nat.pow_add, Nat.mul_right_comm _ _ den, ← Nat.mul_assoc,
    Nat.mul_le_mul_right_iff (Nat.two_pow_pos _), ← Nat.mul_assoc, ← Nat.cast_le (α := ℚ)]
  push_cast
  norm_num

theorem two_pow_le_ten_pow : (2 : ℚ) ^ 1024 ≤ 10 ^ 309 := by
  calc (2 : ℚ) ^ 1024 = 2 * (2 ^ 93) ^ 11 := by rw [← pow_mul, ← pow_succ']
    _ ≤ 10 * (10 ^ 28) ^ 11 :=
        mul_le_mul (by norm_num) (pow_le_pow_left₀ (by norm_num) (by norm_num) 11)
          (by positivity) (by norm_num)
    _ = 10 ^ 309 := by rw [← pow_mul, ← pow_succ']

/-- A decimal fraction is out of range from half a unit of the last place beyond the largest number
on. -/
theorem toBinary64?_eq_none_iff {d : Decimal} :
    d.toBinary64? = none ↔ 2 ^ 1024 - 2 ^ 970 ≤ |d.value| := by
  have hbound : (1 : ℚ) ≤ 2 ^ 1024 - 2 ^ 970 := by
    rw [two_pow_sub 970]
    exact one_le_mul_of_one_le_of_one_le (by norm_num) (one_le_pow₀ (by norm_num))
  unfold toBinary64?
  split
  · next hzero =>
    rw [abs_value, hzero, Nat.cast_zero, zero_mul]
    exact iff_of_false nofun (zero_lt_one.trans_le hbound).not_ge
  · next hdigits =>
    split
    · next hlarge =>
      refine iff_of_true rfl ?_
      have hone : (1 : ℚ) ≤ d.digits := Nat.one_le_cast.2 (Nat.one_le_iff_ne_zero.2 hdigits)
      have hpow : (10 : ℚ) ^ 309 ≤ 10 ^ d.exponent := by
        rw [← zpow_natCast]
        exact zpow_le_zpow_right₀ (by norm_num) (by omega)
      rw [abs_value]
      calc (2 : ℚ) ^ 1024 - 2 ^ 970 ≤ 2 ^ 1024 := sub_le_self _ (by positivity)
        _ ≤ 10 ^ 309 := two_pow_le_ten_pow
        _ ≤ 10 ^ d.exponent := hpow
        _ ≤ d.digits * 10 ^ d.exponent := le_mul_of_one_le_left (zpow_pos (by norm_num) _).le hone
    · split
      · next hsmall =>
        refine iff_of_false nofun (lt_of_lt_of_le ?_ hbound).not_ge
        have hlt := abs_value_lt_of_log2 hsmall
        have hle : |d.value| ≤ |d.value| * 2 ^ 1074 :=
          le_mul_of_one_le_right (abs_nonneg _) (one_le_pow₀ (by norm_num))
        exact hle.trans_lt (hlt.trans (by norm_num))
      · split
        · next hexponent =>
          exact ratio_eq_none_iff Nat.one_pos (abs_value_of_nonneg hexponent)
        · next hexponent =>
          exact ratio_eq_none_iff (Nat.pow_pos (by decide)) (abs_value_of_neg (by omega))

end Decimal

end SchemaLang
