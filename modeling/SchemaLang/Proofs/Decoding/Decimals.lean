import Mathlib.Data.List.TakeDrop
import Mathlib.Data.List.TakeWhile
import SchemaLang.Proofs.Decoding.Integers
import SchemaLang.Proofs.Floats

/-!
# Whole decimals read as floats

A float type reads a decimal integer as the number that its digits denote.  It always does so below
the sixty-fourth power of two, `exists_decode_of_spells`, and what it reads without a mark of a
float is a decimal integer, `exists_spells_of_decode`.
-/

namespace SchemaLang

open Numeral

/-! ## Runs of figures -/

theorem isDigit_iff {c : Char} : c.isDigit ↔ '0' ≤ c ∧ c ≤ '9' := by
  simp [Char.isDigit, Char.le_def, UInt32.le_iff_toNat_le]

theorem writes_of_isDigit {c : Char} (h : c.isDigit) :
    Base.decimal.Writes c (c.toNat - '0'.toNat) := by
  have hc := isDigit_iff.1 h
  have hle : c.toNat ≤ '9'.toNat := hc.2
  have hlt : c.toNat - '0'.toNat < Base.decimal.radix := by
    simp [Base.radix] at hle ⊢
    omega
  apply Base.writes_of_digit?
  unfold Base.digit?
  rw [if_pos hc]
  exact if_pos hlt

theorem isDigit_of_writes {c : Char} {d : Nat} (h : Base.decimal.Writes c d) :
    c.isDigit ∧ c.toNat - '0'.toNat = d := by
  have hc : c.isDigit := isDigit_iff.2 (h.figure (by decide))
  have hvalue := Base.digit?_of_writes (writes_of_isDigit hc)
  exact ⟨hc, Option.some.inj (hvalue.symm.trans (Base.digit?_of_writes h))⟩

theorem forall₂_writes_of_isDigit {cs : List Char} (h : ∀ c ∈ cs, c.isDigit) :
    List.Forall₂ Base.decimal.Writes cs (cs.map fun c => c.toNat - '0'.toNat) := by
  rw [List.forall₂_map_right_iff, List.forall₂_same]
  exact fun c hc => writes_of_isDigit (h c hc)

theorem forall_isDigit {cs : List Char} {digits : List Nat}
    (h : List.Forall₂ Base.decimal.Writes cs digits) : ∀ c ∈ cs, c.isDigit :=
  ((List.forall₂_and_left _ _).1 (h.imp fun _ _ hc => ⟨(isDigit_of_writes hc).1, hc⟩)).1

/-- Both ways to read decimal digits give their number. -/
theorem natOfDigits_eq_number {cs : List Char} {digits : List Nat}
    (h : List.Forall₂ Base.decimal.Writes cs digits) :
    natOfDigits cs = Base.decimal.number digits := by
  suffices ∀ earlier,
      cs.foldl (fun n c => 10 * n + (c.toNat - '0'.toNat)) (Base.decimal.number earlier) =
        Base.decimal.number (earlier ++ digits) from this []
  induction h with
  | nil => simp
  | @cons c d cs digits hc _ ih =>
    intro earlier
    have hnext : 10 * Base.decimal.number earlier + (c.toNat - '0'.toNat) =
        Base.decimal.number (earlier ++ [d]) := by
      rw [Base.number_concat, (isDigit_of_writes hc).2, Nat.mul_comm]
      rfl
    rw [List.foldl_cons, hnext, ih, List.append_assoc, List.singleton_append]

/-! ## Reading the digits of a float -/

namespace Decimal

theorem readDigits_ok {cs digits rest : List Char} (h : readDigits cs = .ok (digits, rest)) :
    digits ≠ [] ∧ digits = cs.takeWhile Char.isDigit ∧ rest = cs.dropWhile Char.isDigit := by
  unfold readDigits at h
  rw [List.span_eq_takeWhile_dropWhile] at h
  split at h
  · cases h
  · cases h
  · next hne =>
    obtain ⟨rfl, rfl⟩ := Prod.mk.inj (Except.ok.inj h)
    exact ⟨fun e => hne _ (by rw [e]), rfl, rfl⟩

theorem readDigits_of_isDigit {cs : List Char} (h : ∀ c ∈ cs, c.isDigit) (hne : cs ≠ []) :
    readDigits cs = .ok (cs, []) := by
  have htake : cs.takeWhile Char.isDigit = cs := List.takeWhile_eq_self_iff.2 h
  have hdrop : cs.dropWhile Char.isDigit = [] := List.dropWhile_eq_nil_iff.2 h
  unfold readDigits
  rw [List.span_eq_takeWhile_dropWhile, htake, hdrop]
  simp [hne]

/-- Figures alone are read as a whole number. -/
theorem read_of_isDigit {cs : List Char} (negative : Bool) (h : ∀ c ∈ cs, c.isDigit)
    (hne : cs ≠ []) : read negative cs = .ok ⟨negative, natOfDigits cs, 0⟩ := by
  simp [read, readDigits_of_isDigit h hne, readExponent]

/-- Without a mark of a float, only figures are read. -/
theorem isDigit_of_read {cs : List Char} {negative : Bool} {d : Decimal}
    (h : read negative cs = .ok d) (plain : ∀ c ∈ cs, ¬ isFloatMark c) :
    cs ≠ [] ∧ ∀ c ∈ cs, c.isDigit := by
  obtain ⟨⟨whole, rest⟩, hwhole, h⟩ := bind_eq_ok.1 h
  obtain ⟨hne, htake, hdrop⟩ := readDigits_ok hwhole
  have hrest : ∀ c ∈ rest, ¬ isFloatMark c :=
    fun c hc => plain c ((List.dropWhile_suffix _).subset (hdrop ▸ hc))
  cases rest with
  | nil =>
    have hdigits : ∀ c ∈ cs, c.isDigit := List.dropWhile_eq_nil_iff.1 hdrop.symm
    refine ⟨?_, hdigits⟩
    rintro rfl
    exact hne htake
  | cons c tail =>
    -- The fraction and the exponent start with a mark, so nothing accounts for `c`.
    have hc : ¬ isFloatMark c := hrest c List.mem_cons_self
    simp only [isFloatMark, Bool.or_eq_true, decide_eq_true_eq, not_or] at hc
    simp [readExponent, hc] at h

/-- A whole number below a power of two that a float can have is rounded to no more than it. -/
theorem exists_toBinary64?_of_lt {n k : Nat} (negative : Bool) (h : n < 2 ^ k) (hlow : 0 < k)
    (hhigh : k ≤ 1023) :
    ∃ x, (⟨negative, n, 0⟩ : Decimal).toBinary64? = some x ∧ x.units ≤ 2 ^ (k + 1074) := by
  by_cases hn : n = 0
  · exact ⟨.zero negative, by simp [toBinary64?, hn], Nat.zero_le _⟩
  · have hscaled : ∀ e, n <<< e / 1 < 2 ^ (k + e) := by
      intro e
      rw [Nat.div_one, Nat.shiftLeft_eq, Nat.pow_add]
      exact Nat.mul_lt_mul_of_pos_right h (Nat.two_pow_pos e)
    obtain ⟨x, hx, hunits⟩ := Binary64.exists_ofRatio?_of_lt negative (hscaled _) (by omega)
      (by unfold Binary64.maxShift; omega)
    refine ⟨x, ?_, hunits⟩
    have hone : n * Nat.pow 10 (0 : Int).toNat = n := Nat.mul_one n
    have hsmall : ¬ ((n.log2 : Int) + 1076 < 3 * -0) := by omega
    simp only [toBinary64?, if_neg hn, if_neg hsmall]
    simpa [hone] using hx

end Decimal

/-! ## Reading whole decimals -/

namespace FloatType

/-- The largest number of either float type is at least the seventy-fifth power of two. -/
theorem two_pow_le_units_max (t : FloatType) {k : Nat} (hk : k ≤ 75) :
    2 ^ (k + 1074) ≤ t.max.units := by
  have hmax : 75 + 1074 ≤ t.max.shift := by cases t <;> decide
  have hshift : k + 1074 ≤ t.max.shift := by omega
  have hsignificand : 0 < t.max.significand := by cases t <;> decide
  rw [Binary64.units, Nat.shiftLeft_eq]
  exact Nat.le_trans (Nat.pow_le_pow_right Nat.two_pos hshift)
    (Nat.le_mul_of_pos_left _ hsignificand)

theorem units_max_le (t : FloatType) : t.max.units ≤ FloatType.float64.max.units := by
  have hshift : t.max.shift ≤ FloatType.float64.max.shift := by cases t <;> decide
  have hsignificand : t.max.significand ≤ FloatType.float64.max.significand := by
    cases t <;> decide
  rw [Binary64.units, Binary64.units, Nat.shiftLeft_eq, Nat.shiftLeft_eq]
  exact Nat.mul_le_mul hsignificand (Nat.pow_le_pow_right Nat.two_pos hshift)

/-- What one float type reads, the other reads as the same number unless it is too large. -/
theorem decode_of_decode {t u : FloatType} {text : List Char} {x : Binary64}
    (h : u.decode text = .ok x) :
    t.decode text = if x.units ≤ t.max.units then .ok x else .error (.outOfRange (.float t)) := by
  unfold decode at h ⊢
  generalize splitSign text = signed at h ⊢
  obtain ⟨negative, cs⟩ := signed
  dsimp only at h ⊢
  split at h
  · cases h
  · cases h
  · obtain ⟨d, hd, h⟩ := bind_eq_ok.1 h
    split at h
    · next y hy =>
      split at h
      · obtain rfl := Except.ok.inj h
        simp [hd, hy]
      · cases h
    · cases h

/-- A decimal integer of at most 64 bits is read by every float type. -/
theorem exists_decode_of_spells {t : FloatType} {text : List Char} {n : Int}
    (h : Base.decimal.Spells text n) (hn : n.natAbs < 2 ^ 64) : ∃ x, t.decode text = .ok x := by
  obtain ⟨negative, digits, hbegins, rfl⟩ := h
  obtain ⟨run, hsplit, hrun⟩ := hbegins.splitSign_eq
  rw [Base.mark, List.nil_append, List.append_nil] at hsplit
  have hdigits := forall_isDigit hrun
  have hne : run ≠ [] := by
    rintro rfl
    cases hrun
    exact hbegins.digits_ne_nil rfl
  have hsmall : natOfDigits run < 2 ^ 64 := by
    rw [natOfDigits_eq_number hrun]
    cases negative with
    | false => simpa [withSign] using hn
    | true => simpa [withSign] using hn
  obtain ⟨x, hx, hunits⟩ :=
    Decimal.exists_toBinary64?_of_lt negative hsmall (by decide) (by decide)
  have hmax : x.units ≤ t.max.units := Nat.le_trans hunits (t.two_pow_le_units_max (by decide))
  refine ⟨x, ?_⟩
  unfold decode
  rw [hsplit]
  dsimp only
  split
  · exact absurd (hdigits 'x' (by simp)) (by decide)
  · exact absurd (hdigits 'X' (by simp)) (by decide)
  · simp [Decimal.read_of_isDigit negative hdigits hne, hx, hmax]

/-- What a float type reads without a mark of a float is a decimal integer. -/
theorem exists_spells_of_decode {t : FloatType} {text : List Char} {x : Binary64}
    (h : t.decode text = .ok x) (plain : ∀ c ∈ (splitSign text).2, ¬ isFloatMark c) :
    ∃ n, Base.decimal.Spells text n := by
  have htext := sign_splitSign text
  unfold decode at h
  generalize splitSign text = signed at h plain htext
  obtain ⟨negative, cs⟩ := signed
  dsimp only at h plain htext
  split at h
  · cases h
  · cases h
  · obtain ⟨d, hd, -⟩ := bind_eq_ok.1 h
    obtain ⟨hne, hdigits⟩ := Decimal.isDigit_of_read hd plain
    have hrun := forall₂_writes_of_isDigit hdigits
    refine ⟨_, negative, _, ⟨⟨cs, ?_, hrun⟩, ?_, by simp⟩, rfl⟩
    · rw [Base.mark, List.nil_append, List.append_nil, htext]
    · simpa using hne

end FloatType

end SchemaLang
