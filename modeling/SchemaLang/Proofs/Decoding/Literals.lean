import SchemaLang.Proofs.Decoding.Decimals
import SchemaLang.Proofs.Grammar.Completeness
import SchemaLang.Proofs.Grammar.Soundness
import SchemaLang.Proofs.Lexing.Patterns

/-!
# Numerals before and after their type is known

A numeral is read twice: the parser tries the widest type of its shape, and the linker reads it for
the type that it turns out to have.  `numeral_of_decode` says which numerals of some type the parser
lets through, and `decode_of_numeral` what can still happen to one that it let through.
-/

namespace SchemaLang

open Numeral SchemaLang.Parser

/-! ## The widest integer type -/

/-- The integer type that the parser tries: 64 bits, signed exactly if the text has a sign. -/
def Numeral.widest (text : List Char) : IntType := ⟨text.head? = some '-', .w64⟩

/-- No integer type goes beyond 64 bits. -/
theorem IntType.Holds.bounds {t : IntType} {n : Int} (h : t.Holds n) :
    -2 ^ 63 ≤ n ∧ n < 2 ^ 64 := by
  have hlimits : -2 ^ 63 ≤ t.min ∧ t.max < 2 ^ 64 := by
    obtain ⟨signed, width⟩ := t
    cases signed <;> cases width <;> decide
  exact ⟨Int.le_trans hlimits.1 h.1, Int.lt_of_le_of_lt h.2 hlimits.2⟩

/-- With the sign given, the widest type holds all of 64 bits. -/
theorem holds_widest_iff {b : Base} {text : List Char} {n : Int} (h : b.Spells text n) :
    (widest text).Holds n ↔ -2 ^ 63 ≤ n ∧ n < 2 ^ 64 := by
  refine ⟨IntType.Holds.bounds, fun hn => ?_⟩
  obtain ⟨negative, digits, hbegins, rfl⟩ := h
  cases negative with
  | true =>
    have hwidest : widest text = ⟨true, .w64⟩ := by simp [widest, hbegins.negative_iff.1 rfl]
    have hneg : withSign true (b.number digits) ≤ 0 := by simp [withSign]
    rw [hwidest]
    exact ⟨hn.1, Int.le_trans hneg (by decide)⟩
  | false =>
    have hhead : text.head? ≠ some '-' := fun hhead =>
      Bool.false_ne_true (hbegins.negative_iff.2 hhead)
    have hwidest : widest text = ⟨false, .w64⟩ := by simp [widest, hhead]
    have hpos : 0 ≤ withSign false (b.number digits) := by simp [withSign]
    rw [hwidest]
    refine ⟨hpos, ?_⟩
    have hmax : (⟨false, .w64⟩ : IntType).max = 2 ^ 64 - 1 := by decide
    rw [hmax]
    omega

/-- A numeral has one value. -/
theorem Base.Spells.unique {b : Base} {text : List Char} {m n : Int} (hm : b.Spells text m)
    (hn : b.Spells text n) : m = n := by
  obtain ⟨negative, digits, hdigits, rfl⟩ := hm
  obtain ⟨negative', digits', hdigits', rfl⟩ := hn
  obtain ⟨run, hsplit, hrun⟩ := hdigits.splitSign_eq
  obtain ⟨run', hsplit', hrun'⟩ := hdigits'.splitSign_eq
  obtain ⟨rfl, hmarked⟩ := Prod.mk.inj (hsplit.symm.trans hsplit')
  simp only [List.append_nil, List.append_cancel_left_eq] at hmarked
  subst hmarked
  have hunique : Relator.RightUnique b.Writes := fun c d e hd he =>
    Option.some.inj ((Base.digit?_of_writes hd).symm.trans (Base.digit?_of_writes he))
  rw [hunique.forall₂ hrun hrun']

/-! ## The parser's check -/

section Check

variable {span : Span} {s : String} {stream : Stream}

theorem isNumeral_of_run {l : Literal} {rest : Stream}
    (h : (numeral span s).run stream = .ok (l, rest)) : Grammar.IsNumeral span s l := by
  obtain ⟨lexemes, stop, bound⟩ := stream
  obtain ⟨used, rest, -, -, -, hnumeral⟩ := sound_numeral span s h
  exact hnumeral

/-- The parser lets an integer through exactly if 64 bits hold it. -/
theorem run_numeral_integer {b : Base} {n : Int} (hshape : shape s.toList = .ok (.integer b))
    (hspells : b.Spells s.toList n) :
    (numeral span s).run stream =
      if -2 ^ 63 ≤ n ∧ n < 2 ^ 64 then .ok (.int span s, stream)
      else .error ⟨span, .invalidNumeral (.outOfRange (.int (widest s.toList)))⟩ := by
  have hsign : s.toList.head? = some '-' → (widest s.toList).signed :=
    fun hhead => by simp [widest, hhead]
  have hholds := holds_widest_iff hspells
  have hdecode := decode_of_shape (t := widest s.toList) hshape
  split
  · next hn =>
    have hread : (widest s.toList).decode b s.toList = .ok n :=
      IntType.decode_eq_ok_iff.2 ⟨hsign, hspells, hholds.2 hn⟩
    rw [hread, ok_map, widest] at hdecode
    exact run_numeral (.int hshape hdecode) stream
  · next hn =>
    have hrange : (widest s.toList).decode b s.toList =
        .error (.outOfRange (.int (widest s.toList))) := by
      obtain ⟨negative, digits, hbegins, rfl⟩ := hspells
      exact (IntType.decode_of_begins hbegins fun hneg => hsign (hbegins.negative_iff.1 hneg)).1.2
        fun h => hn (hholds.1 h)
    rw [hrange, error_map, widest] at hdecode
    simp [numeral, hshape, hdecode, run_fail, widest]

/-- The parser lets through what some float type reads, if it has the shape of a float. -/
theorem exists_run_numeral_float {t : FloatType} {x : Binary64}
    (hshape : shape s.toList = .ok .float) (h : t.decode s.toList = .ok x) :
    ∃ l, (numeral span s).run stream = .ok (l, stream) := by
  have hmax : x.units ≤ FloatType.float64.max.units :=
    Nat.le_trans (FloatType.decode_ok h).2 (FloatType.units_max_le t)
  have hwide : FloatType.float64.decode s.toList = .ok x := by
    rw [FloatType.decode_of_decode h, if_pos hmax]
  refine ⟨.float span s, run_numeral (.float (x := .float x) hshape ?_) stream⟩
  rw [NumericType.decodeDecimal, hwide, ok_map]

end Check

/-! ## Numerals of some type -/

/-- A decimal integer that is out of the range of 64 bits: below the least signed or above the
greatest unsigned number. -/
def Numeral.IsHuge (text : List Char) : Prop :=
  Selects (splitSign text).2 .decimal ∧
    ∃ n, Base.decimal.Spells text n ∧ ¬ (-2 ^ 63 ≤ n ∧ n < 2 ^ 64)

theorem isHuge_iff {b : Base} {text : List Char} {n : Int} (hshape : shape text = .ok (.integer b))
    (hspells : b.Spells text n) :
    IsHuge text ↔ b = .decimal ∧ ¬ (-2 ^ 63 ≤ n ∧ n < 2 ^ 64) := by
  have hselects := (shape_eq_iff_selects hspells).1 hshape
  constructor
  · rintro ⟨hdecimal, m, hm, hhuge⟩
    obtain rfl := hselects.unique hdecimal
    exact ⟨rfl, hspells.unique hm ▸ hhuge⟩
  · rintro ⟨rfl, hhuge⟩
    exact ⟨hselects, n, hspells, hhuge⟩

theorem not_isHuge_of_float {text : List Char} (h : shape text = .ok .float) : ¬ IsHuge text := by
  rintro ⟨hselects, n, hspells, -⟩
  rw [(shape_eq_iff_selects hspells).2 hselects] at h
  cases h

/-- A decimal shape has no mark of a float. -/
theorem plain_of_shape {text : List Char} (h : shape text = .ok (.integer .decimal)) :
    ∀ c ∈ (splitSign text).2, ¬ isFloatMark c := by
  unfold shape at h
  split at h
  · cases h
  · cases h
  · split at h
    · cases h
    · next hfloat => exact List.any_eq_false.1 (Bool.eq_false_of_not_eq_true hfloat)

/-- The shape of what a float type reads. -/
theorem shape_of_decode_float {t : FloatType} {text : List Char} {v : Number}
    (h : (NumericType.float t).decode text = .ok v) :
    (shape text = .ok .float ∨ shape text = .ok (.integer .decimal)) ∧
      ∃ x, t.decode text = .ok x := by
  obtain ⟨shape, hshape, h⟩ := bind_eq_ok.1 h
  have exists_of_map (h : Number.float <$> t.decode text = .ok v) : ∃ x, t.decode text = .ok x := by
    obtain ⟨x, hx, -⟩ := map_eq_ok.1 h
    exact ⟨x, hx⟩
  split at h
  · cases h
  · cases h
  · exact ⟨.inr hshape, exists_of_map h⟩
  · exact ⟨.inl hshape, exists_of_map h⟩

/-- The parser lets a numeral through that some type reads, unless it is a decimal integer beyond 64
bits.  Only the float types read such a one, and the parser reports it as out of range for the
integers of 64 bits. -/
theorem numeral_of_decode {t : NumericType} {s : String} {v : Number}
    (h : t.decode s.toList = .ok v) (span : Span) (stream : Stream) :
    (¬ IsHuge s.toList → ∃ l, (numeral span s).run stream = .ok (l, stream)) ∧
    (IsHuge s.toList → (∃ u, t = .float u) ∧ (numeral span s).run stream =
      .error ⟨span, .invalidNumeral
        (.outOfRange (.int ⟨s.toList.head? = some '-', .w64⟩))⟩) := by
  cases t with
  | int t =>
    obtain ⟨b, n, rfl, hshape, hn⟩ := decode_int_eq_ok_iff.1 h
    obtain ⟨-, hspells, hholds⟩ := IntType.decode_eq_ok_iff.1 hn
    rw [isHuge_iff hshape hspells, run_numeral_integer hshape hspells, if_pos hholds.bounds]
    exact ⟨fun _ => ⟨_, rfl⟩, fun hhuge => absurd hholds.bounds hhuge.2⟩
  | float t =>
    obtain ⟨hfloat | hdecimal, x, hx⟩ := shape_of_decode_float h
    · exact ⟨fun _ => exists_run_numeral_float hfloat hx,
        fun hhuge => absurd hhuge (not_isHuge_of_float hfloat)⟩
    · obtain ⟨n, hspells⟩ := FloatType.exists_spells_of_decode hx (plain_of_shape hdecimal)
      rw [isHuge_iff hdecimal hspells, run_numeral_integer hdecimal hspells]
      constructor
      · intro hhuge
        have hbounds : -2 ^ 63 ≤ n ∧ n < 2 ^ 64 := not_not.1 fun hn => hhuge ⟨rfl, hn⟩
        exact ⟨_, if_pos hbounds⟩
      · rintro ⟨-, hhuge⟩
        exact ⟨⟨t, rfl⟩, if_neg hhuge⟩

/-- A hexadecimal numeral of 64 bits is let through. -/
theorem numeral_of_decode_hexadecimal :
    (NumericType.int ⟨false, .w64⟩).decode "0x8000000000000000".toList =
        .ok (.int 9223372036854775808) ∧
      ¬ IsHuge "0x8000000000000000".toList ∧
      ∃ l, (numeral ⟨0, 18⟩ "0x8000000000000000").run ⟨[], 18, 1⟩ = .ok (l, ⟨[], 18, 1⟩) := by
  have hdecode : (NumericType.int ⟨false, .w64⟩).decode "0x8000000000000000".toList =
      .ok (.int 9223372036854775808) := by decide
  have hhuge : ¬ IsHuge "0x8000000000000000".toList := by
    rintro ⟨hselects, -⟩
    exact nomatch Selects.unique (.hexadecimal _) hselects
  exact ⟨hdecode, hhuge, (numeral_of_decode hdecode ⟨0, 18⟩ ⟨[], 18, 1⟩).1 hhuge⟩

/-- The number after the last one of 64 bits is a number token that `Float64` reads, but the parser
does not let it through. -/
theorem numeral_rejects_float :
    "18446744073709551616".toList ∈ Pattern.number ∧
      (NumericType.float .float64).decode "18446744073709551616".toList =
        .ok (.float ⟨false, 4503599627370496, 1086⟩) ∧
      (numeral ⟨0, 20⟩ "18446744073709551616").run ⟨[], 20, 1⟩ =
        .error ⟨⟨0, 20⟩, .invalidNumeral (.outOfRange (.int ⟨false, .w64⟩))⟩ := by
  refine ⟨?_, ?_, ?_⟩
  · have hscan : scan '1' "8446744073709551616".toList =
        .token (.number "18446744073709551616") 19 := rfl
    exact (matches_of_scan hscan).1
  · exact ok_of_toOption (by decide +kernel)
  · exact error_of_failure? (by decide)

/-! ## Numerals that the parser let through -/

/-- Why a type may refuse a numeral that is well formed. -/
inductive NumericType.Refuses : NumericType → NumeralError → Prop
  | outOfRange (t : NumericType) : Refuses t (.outOfRange t)
  | negativeUnsigned {t : IntType} (unsigned : t.signed = false) :
    Refuses (.int t) (.negativeUnsigned t)
  | unsupportedBase (b : Base) (t : FloatType) : Refuses (.float t) (.unsupportedBase b t)
  | expectedInteger (t : IntType) : Refuses (.int t) (.expectedInteger t)

/-- What one integer type reads, another reads too unless it has no sign or does not hold the
value. -/
theorem decode_or_refuses {t u : IntType} {b : Base} {text : List Char} {n : Int}
    (h : u.decode b text = .ok n) :
    t.decode b text = .ok n ∨
      ∃ e, t.decode b text = .error e ∧ (NumericType.int t).Refuses e := by
  obtain ⟨-, ⟨negative, digits, hbegins, rfl⟩, -⟩ := IntType.decode_eq_ok_iff.1 h
  by_cases hs : negative → t.signed
  · obtain ⟨hrange, hread⟩ := IntType.decode_of_begins hbegins hs
    by_cases hn : t.Holds (withSign negative (b.number digits))
    · exact .inl ((hread _).2 ⟨rfl, rfl, hn⟩)
    · exact .inr ⟨_, hrange.2 hn, .outOfRange _⟩
  · obtain ⟨hnegative, hunsigned⟩ := Classical.not_imp.1 hs
    have hunsigned : t.signed = false := Bool.eq_false_of_not_eq_true hunsigned
    obtain ⟨run, hsplit, -⟩ := hbegins.splitSign_eq
    refine .inr ⟨.negativeUnsigned t, ?_, .negativeUnsigned hunsigned⟩
    rw [IntType.decode, hsplit]
    simp [hnegative, hunsigned]

/-- Two integer types that read a text read the same number. -/
theorem decode_int_unique {t u : IntType} {text : List Char} {v w : Number}
    (hv : (NumericType.int t).decode text = .ok v)
    (hw : (NumericType.int u).decode text = .ok w) : v = w := by
  obtain ⟨b, m, rfl, hshape, hm⟩ := decode_int_eq_ok_iff.1 hv
  obtain ⟨b', n, rfl, hshape', hn⟩ := decode_int_eq_ok_iff.1 hw
  obtain ⟨⟩ := hshape.symm.trans hshape'
  rw [(IntType.decode_eq_ok_iff.1 hm).2.1.unique (IntType.decode_eq_ok_iff.1 hn).2.1]

/-- A decimal integer of at most 64 bits is read by every float type. -/
theorem exists_decode_float {t : FloatType} {text : List Char} {n : Int}
    (hshape : shape text = .ok (.integer .decimal)) (hspells : Base.decimal.Spells text n)
    (hn : -2 ^ 63 ≤ n ∧ n < 2 ^ 64) : ∃ x, (NumericType.float t).decode text = .ok (.float x) := by
  obtain ⟨x, hx⟩ := FloatType.exists_decode_of_spells (t := t) hspells (by omega)
  exact ⟨x, by simp [NumericType.decode, NumericType.decodeDecimal, hshape, hx]⟩

/-- Every type reads or refuses an integer that the widest type reads. -/
theorem decode_or_refuses_integer {b : Base} {text : List Char} {n : Int}
    (hshape : shape text = .ok (.integer b)) (h : (widest text).decode b text = .ok n)
    (t : NumericType) :
    (∃ v, t.decode text = .ok v) ∨ ∃ e, t.decode text = .error e ∧ t.Refuses e := by
  cases t with
  | int t =>
    rw [decode_of_shape hshape]
    obtain ht | ⟨e, ht, he⟩ := decode_or_refuses (t := t) h
    · exact .inl ⟨.int n, by rw [ht, ok_map]⟩
    · exact .inr ⟨e, by rw [ht, error_map], he⟩
  | float t =>
    by_cases hb : b = .decimal
    · subst hb
      obtain ⟨-, hspells, hholds⟩ := IntType.decode_eq_ok_iff.1 h
      obtain ⟨x, hx⟩ := exists_decode_float (t := t) hshape hspells hholds.bounds
      exact .inl ⟨.float x, hx⟩
    · refine .inr ⟨.unsupportedBase b t, ?_, .unsupportedBase b t⟩
      cases b with
      | decimal => exact absurd rfl hb
      | octal | hexadecimal => simp [NumericType.decode, NumericType.decodeInteger, hshape]

/-- Every type reads or refuses a float that the widest type reads. -/
theorem decode_or_refuses_float {text : List Char} {x : Binary64} (hshape : shape text = .ok .float)
    (h : FloatType.float64.decode text = .ok x) (t : NumericType) :
    (∃ v, t.decode text = .ok v) ∨ ∃ e, t.decode text = .error e ∧ t.Refuses e := by
  cases t with
  | int t =>
    refine .inr ⟨.expectedInteger t, ?_, .expectedInteger t⟩
    simp [NumericType.decode, NumericType.decodeDecimal, hshape]
  | float t =>
    have hdecode : (NumericType.float t).decode text = Number.float <$> t.decode text := by
      simp [NumericType.decode, NumericType.decodeDecimal, hshape]
    rw [hdecode, FloatType.decode_of_decode h]
    by_cases hx : x.units ≤ t.max.units
    · rw [if_pos hx]
      exact .inl ⟨.float x, rfl⟩
    · rw [if_neg hx]
      exact .inr ⟨.outOfRange (.float t), rfl, .outOfRange _⟩

/-- A numeral that the parser let through is well formed for every numeric type: a type reads it, or
refuses it because of its range, its sign, its base or its shape.  `Float64` reads all floats, both
float types read all decimal integers, and integer types agree on the value. -/
theorem decode_of_numeral {span : Span} {s : String} {stream rest : Stream} {l : Literal}
    (h : (numeral span s).run stream = .ok (l, rest)) :
    (∀ t : NumericType, (∃ v, t.decode s.toList = .ok v) ∨
      ∃ e, t.decode s.toList = .error e ∧ t.Refuses e) ∧
    (l = .float span s → ∃ x, (NumericType.float .float64).decode s.toList = .ok (.float x)) ∧
    (l = .int span s → Selects (splitSign s.toList).2 .decimal →
      ∀ t : FloatType, ∃ x, (NumericType.float t).decode s.toList = .ok (.float x)) ∧
    ∀ t u v w, (NumericType.int t).decode s.toList = .ok v →
      (NumericType.int u).decode s.toList = .ok w → v = w := by
  cases isNumeral_of_run h with
  | @int b v hshape hdecoded =>
    rw [← widest, decode_of_shape hshape] at hdecoded
    obtain ⟨n, hn, -⟩ := map_eq_ok.1 hdecoded
    refine ⟨decode_or_refuses_integer hshape hn, nofun, fun _ hselects t => ?_,
      fun _ _ _ _ hv hw => decode_int_unique hv hw⟩
    obtain ⟨-, hspells, hholds⟩ := IntType.decode_eq_ok_iff.1 hn
    obtain rfl := ((shape_eq_iff_selects hspells).1 hshape).unique hselects
    exact exists_decode_float hshape hspells hholds.bounds
  | @float v hshape hdecoded =>
    obtain ⟨x, hx, -⟩ := map_eq_ok.1 hdecoded
    refine ⟨decode_or_refuses_float hshape hx, fun _ => ⟨x, ?_⟩, nofun,
      fun _ _ _ _ hv hw => decode_int_unique hv hw⟩
    simp [NumericType.decode, NumericType.decodeDecimal, hshape, hx]

/-- An `Int8` numeral at the edge of its range, which every float type reads too. -/
theorem decode_of_numeral_minimum :
    (numeral ⟨0, 4⟩ "-128").run ⟨[], 4, 1⟩ = .ok (.int ⟨0, 4⟩ "-128", ⟨[], 4, 1⟩) ∧
      Selects (splitSign "-128".toList).2 .decimal ∧
      ((∃ v, (NumericType.int ⟨false, .w8⟩).decode "-128".toList = .ok v) ∨
        ∃ e, (NumericType.int ⟨false, .w8⟩).decode "-128".toList = .error e ∧
          (NumericType.int ⟨false, .w8⟩).Refuses e) ∧
      ∀ t : FloatType, ∃ x, (NumericType.float t).decode "-128".toList = .ok (.float x) := by
  have hrun : (numeral ⟨0, 4⟩ "-128").run ⟨[], 4, 1⟩ = .ok (.int ⟨0, 4⟩ "-128", ⟨[], 4, 1⟩) :=
    rfl
  have hselects : Selects (splitSign "-128".toList).2 .decimal := by
    refine .decimal (by decide) fun c tail e => ?_
    simp [splitSign] at e
  have h := decode_of_numeral hrun
  exact ⟨hrun, hselects, h.1 _, h.2.2.1 rfl hselects⟩

end SchemaLang
