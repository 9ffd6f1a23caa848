import SchemaLang.Numeric.Numeral
import SchemaLang.Proofs.Outcome

/-!
# Numerals of integers

What an integer type reads from a numeral is one of its values: `holds_of_decode`.  A number that is
printed in decimal, or in hexadecimal after its mark, is read back as the same number by every
integer type that holds it: `decode_toDigits` and `decode_hexadecimal`.
-/

namespace SchemaLang

open Numeral

/-! ## Values -/

namespace IntType

theorem min_nonpos (t : IntType) : t.min ≤ 0 := by
  unfold min
  split
  · exact Int.neg_nonpos_of_nonneg (Int.natCast_nonneg _)
  · exact Int.le_refl 0

theorem holds_zero (t : IntType) : t.Holds 0 := by
  refine ⟨t.min_nonpos, ?_⟩
  have hpos : 0 < 1 <<< (if t.signed then t.width.bits - 1 else t.width.bits) := by
    rw [Nat.one_shiftLeft]
    exact Nat.two_pow_pos _
  unfold max
  omega

/-- What a type holds it holds together with every smaller number. -/
theorem Holds.of_le {t : IntType} {m n : Nat} (h : t.Holds n) (hm : m ≤ n) : t.Holds m :=
  ⟨Int.le_trans t.min_nonpos (Int.natCast_nonneg m), Int.le_trans (Int.ofNat_le.2 hm) h.2⟩

theorem Holds.toNat {t : IntType} {n : Int} (h : t.Holds n) (hs : t.signed = false) :
    t.Holds n.toNat ∧ (n.toNat : Int) = n := by
  have hn : 0 ≤ n := by simpa [min, hs] using h.1
  rw [Int.toNat_of_nonneg hn]
  exact ⟨h, rfl⟩

theorem decodeDigits_holds {t : IntType} {b : Base} {negative : Bool} {n : Int} (cs : List Char) :
    ∀ {value : Int}, t.decodeDigits b negative value cs = .ok n → t.Holds value → t.Holds n := by
  induction cs with
  | nil =>
    intro value h hv
    obtain rfl := Except.ok.inj h
    exact hv
  | cons c cs ih =>
    intro value h hv
    simp only [decodeDigits] at h
    split at h
    · cases h
    · split at h
      · next hnext => exact ih h hnext
      · cases h

theorem decode_holds {t : IntType} {b : Base} {text : List Char} {n : Int}
    (h : t.decode b text = .ok n) : t.Holds n := by
  simp only [decode] at h
  split at h
  · cases h
  · split at h
    · cases h
    · cases h
    · cases h
    · exact decodeDigits_holds _ h t.holds_zero
    · cases h
    · exact decodeDigits_holds _ h t.holds_zero

end IntType

theorem holds_of_decode {t : IntType} {text : List Char} {n : Int}
    (h : (NumericType.int t).decode text = .ok (.int n)) : t.Holds n := by
  obtain ⟨shape, -, hshape⟩ := bind_eq_ok.1 h
  have of_decode {b : Base} (hb : Number.int <$> t.decode b text = .ok (.int n)) : t.Holds n := by
    obtain ⟨m, hm, e⟩ := map_eq_ok.1 hb
    obtain rfl := Number.int.inj e
    exact IntType.decode_holds hm
  split at hshape
  · exact of_decode hshape
  · exact of_decode hshape
  · simp only [NumericType.decodeDecimal] at hshape
    split at hshape
    · cases hshape
    · exact of_decode hshape
  · simp only [NumericType.decodeDecimal] at hshape
    split at hshape
    · cases hshape
    · exact of_decode hshape

/-! ## Digits -/

theorem digit?_digitChar_decimal : ∀ d < 10, Base.decimal.digit? d.digitChar = some d := by decide

/-- Digits are read from the left, so a run of them may be cut anywhere. -/
theorem decodeDigits_append (t : IntType) (b : Base) (negative : Bool) (cs ds : List Char) :
    ∀ value, t.decodeDigits b negative value (cs ++ ds) =
      (t.decodeDigits b negative value cs >>= fun v => t.decodeDigits b negative v ds) := by
  induction cs with
  | nil => intro value; rfl
  | cons c cs ih =>
    intro value
    simp only [List.cons_append, IntType.decodeDigits]
    cases b.digit? c with
    | none => rfl
    | some d =>
      dsimp only
      split
      · exact ih _
      · rfl

/-- The digits of a number are read back as the number. -/
theorem decodeDigits_toDigits {t : IntType} {b : Base} (hradix : 1 < b.radix)
    (hdigit : ∀ d < b.radix, b.digit? d.digitChar = some d) (n : Nat) (h : t.Holds n) :
    t.decodeDigits b false 0 (Nat.toDigits b.radix n) = .ok n := by
  induction n using Nat.strongRecOn with
  | _ n ih =>
    rcases Nat.lt_or_ge n b.radix with hn | hn
    · rw [Nat.toDigits_of_lt_base hn]
      simp [IntType.decodeDigits, IntType.extend, hdigit n hn, h]
    · have hlt : n / b.radix < n := Nat.div_lt_self (by omega) hradix
      have hmod : n % b.radix < b.radix := Nat.mod_lt _ (by omega)
      have hvalue : ((n / b.radix : Nat) : Int) * b.radix + ((n % b.radix : Nat) : Int) = n := by
        exact_mod_cast Nat.div_add_mod' n b.radix
      rw [Nat.toDigits_of_base_le hradix hn, decodeDigits_append,
        ih _ hlt (h.of_le (Nat.le_of_lt hlt)), ok_bind]
      simp only [IntType.decodeDigits, hdigit _ hmod, IntType.extend, Bool.false_eq_true, if_false,
        hvalue, if_pos h]

/-! ## Numerals -/

/-- The first digit of a positive number is not zero. -/
theorem toDigits_eq_cons {n : Nat} (h : 0 < n) :
    ∃ c cs, Nat.toDigits 10 n = c :: cs ∧ c ≠ '0' := by
  induction n using Nat.strongRecOn with
  | _ n ih =>
    rcases Nat.lt_or_ge n 10 with hn | hn
    · refine ⟨n.digitChar, [], Nat.toDigits_of_lt_base hn, ?_⟩
      have hdigits : ∀ d < 10, 0 < d → d.digitChar ≠ '0' := by decide
      exact hdigits n hn h
    · obtain ⟨c, cs, hcs, hc⟩ := ih (n / 10) (by omega) (by omega)
      exact ⟨c, cs ++ [(n % 10).digitChar], by simp [Nat.toDigits_of_base_le _ hn, hcs], hc⟩

theorem splitSign_toDigits (n : Nat) :
    splitSign (Nat.toDigits 10 n) = (false, Nat.toDigits 10 n) := by
  have hdigit : ∀ c ∈ Nat.toDigits 10 n, c.isDigit :=
    fun c hc => Nat.isDigit_of_mem_toDigits (by decide) (by decide) hc
  unfold splitSign
  split
  · next cs hcs =>
    have := hdigit '-' (by rw [hcs]; exact List.mem_cons_self)
    simp at this
  · rfl

/-- A printed number is a decimal numeral: it has neither a mark of a float nor a leading zero. -/
theorem shape_toDigits (n : Nat) : shape (Nat.toDigits 10 n) = .ok (.integer .decimal) := by
  have hdigit : ∀ c ∈ Nat.toDigits 10 n, c.isDigit :=
    fun c hc => Nat.isDigit_of_mem_toDigits (by decide) (by decide) hc
  have hfloat : (Nat.toDigits 10 n).any isFloatMark = false := by
    rw [List.any_eq_false]
    intro c hc
    have := hdigit c hc
    simp only [isFloatMark, Bool.or_eq_true, decide_eq_true_eq]
    rintro ((rfl | rfl) | rfl) <;> simp at this
  rcases Nat.eq_zero_or_pos n with rfl | hn
  · rfl
  · obtain ⟨c, cs, hcs, hc⟩ := toDigits_eq_cons hn
    rw [hcs] at hfloat
    have hsign := splitSign_toDigits n
    rw [hcs] at hsign
    simp only [shape, hcs, hsign]
    split
    · next e => exact absurd (List.cons.inj e).1 hc
    · next e => exact absurd (List.cons.inj e).1 hc
    · rw [hfloat]
      simp only [Bool.false_eq_true, if_false]
      split
      · next e => exact absurd (List.cons.inj e).1 hc
      · rfl

theorem decode_toDigits {t : IntType} {n : Nat} (h : t.Holds n) :
    (NumericType.int t).decode (Nat.toDigits 10 n) = .ok (.int n) := by
  have hdigits := decodeDigits_toDigits (b := .decimal) (by decide) digit?_digitChar_decimal n h
  have hdecode : t.decode .decimal (Nat.toDigits 10 n) = .ok (n : Int) := by
    simp only [IntType.decode, splitSign_toDigits, Bool.false_and, Bool.false_eq_true, if_false]
    split
    · next e => exact absurd e Nat.toDigits_ne_nil
    · next cs e =>
      have hx := Nat.isDigit_of_mem_toDigits (b := 10) (n := n) (c := 'X') (by decide) (by decide)
        (by rw [e]; simp)
      simp at hx
    · exact absurd ‹Base.decimal = Base.hexadecimal› (by decide)
    · exact absurd ‹Base.decimal = Base.hexadecimal› (by decide)
    · exact absurd ‹Base.decimal = Base.hexadecimal› (by decide)
    · exact hdigits
  simp [NumericType.decode, NumericType.decodeDecimal, shape_toDigits, hdecode]

end SchemaLang
