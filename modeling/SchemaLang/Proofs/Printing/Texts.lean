import SchemaLang.Proofs.Outcome
import SchemaLang.Text.Escape
import SchemaLang.Token.Lexer

/-!
# Printed texts

The written form of a text is read back as the text, `decode_encode`, and ends where its quote
stands, `quoted_encode`.
-/

namespace SchemaLang

open Escape

/-! ## Escapes -/

theorem hexDigit?_hexDigit : ∀ n < 16, hexDigit? (hexDigit n) = some n := by decide

theorem hexDigit_ne_plus : ∀ n < 16, hexDigit n ≠ '+' := by decide

/-- The two digits written for a control character stand for it. -/
theorem ascii?_hexDigit {c : Char} (h : c.toNat < 128) :
    ascii? (hexDigit (c.toNat / 16)) (hexDigit (c.toNat % 16)) = some c := by
  have hhigh : c.toNat / 16 < 16 := by omega
  have hlow : c.toNat % 16 < 16 := Nat.mod_lt _ (by decide)
  have hvalue : 16 * (c.toNat / 16) + c.toNat % 16 = c.toNat := Nat.div_add_mod _ _
  simp [ascii?, hexDigit_ne_plus _ hhigh, hexDigit?_hexDigit _ hhigh, hexDigit?_hexDigit _ hlow,
    hvalue, h]

theorem decode_cons_of_ne {c : Char} (h : c ≠ '\\') (cs : List Char) :
    decode (c :: cs) = (c :: ·) <$> decode cs := by
  rw [decode]
  all_goals simp_all

theorem decode_encodeChar_append (c : Char) (cs : List Char) :
    decode (encodeChar c ++ cs) = (c :: ·) <$> decode cs := by
  unfold encodeChar
  split
  · simp [decode, letter?]
  · simp [decode, letter?]
  · simp [decode, letter?]
  · simp [decode, letter?]
  · simp [decode, letter?]
  · simp [decode, letter?]
  · split
    · next hc => simp [decode, ascii?_hexDigit (c := c) (by omega)]
    · next hb _ _ => exact decode_cons_of_ne hb cs

theorem decode_encode (cs : List Char) : decode (encode cs) = .ok cs := by
  induction cs with
  | nil => rfl
  | cons c cs ih =>
    have happend : encode (c :: cs) = encodeChar c ++ encode cs := rfl
    rw [happend, decode_encodeChar_append, ih, ok_map]

/-! ## Quotes -/

theorem quoted_cons_of_ne {c : Char} (hq : c ≠ '"') (hb : c ≠ '\\') (cs : List Char) :
    Scan.quoted '"' (c :: cs) = ((Scan.quoted '"' cs).1, (Scan.quoted '"' cs).2 + 1) := by
  rw [Scan.quoted]
  all_goals simp_all

/-- The written form of a character keeps the text open. -/
theorem quoted_encodeChar_append (c : Char) (cs : List Char) :
    Scan.quoted '"' (encodeChar c ++ cs) =
      ((Scan.quoted '"' cs).1, (Scan.quoted '"' cs).2 + (encodeChar c).length) := by
  have hhex : ∀ n < 16, hexDigit n ≠ '"' ∧ hexDigit n ≠ '\\' := by decide
  unfold encodeChar
  split
  · simp [Scan.quoted]
  · simp [Scan.quoted]
  · simp [Scan.quoted]
  · simp [Scan.quoted]
  · simp [Scan.quoted]
  · simp [Scan.quoted]
  · split
    · next hc =>
      have hhigh := hhex (c.toNat / 16) (by omega)
      have hlow := hhex (c.toNat % 16) (by omega)
      simp [Scan.quoted, quoted_cons_of_ne hhigh.1 hhigh.2, quoted_cons_of_ne hlow.1 hlow.2]
    · next hb hq _ => simp [quoted_cons_of_ne hq hb]

theorem quoted_encode (cs rest : List Char) :
    Scan.quoted '"' (encode cs ++ '"' :: rest) = (true, (encode cs).length + 1) := by
  induction cs with
  | nil => simp [encode, Scan.quoted]
  | cons c cs ih =>
    have happend : encode (c :: cs) = encodeChar c ++ encode cs := rfl
    rw [happend, List.append_assoc, quoted_encodeChar_append, ih, List.length_append]
    simp only [Prod.mk.injEq, true_and]
    omega

end SchemaLang
