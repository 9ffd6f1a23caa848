/-!
# Escapes in text literals

Between its quotes a text literal holds plain characters and escapes.  `Escape.decode` replaces
each escape by the character it stands for, or gives the first one that stands for none;
`Escape.encode` writes a text with an escape for the quote, the backslash and every ASCII control
character.
-/

namespace SchemaLang.Escape

/-- The character that the letter after a backslash stands for, the hexadecimal escape aside. -/
def letter? : Char → Option Char
  | 'n' => some '\n'
  | 'r' => some '\r'
  | 't' => some '\t'
  | '0' => some '\x00'
  | '\\' => some '\\'
  | '"' => some '"'
  | '\'' => some '\''
  | _ => none

/-- The value of a hexadecimal digit. -/
def hexDigit? (c : Char) : Option Nat :=
  if '0' ≤ c ∧ c ≤ '9' then some (c.toNat - '0'.toNat)
  else if 'a' ≤ c ∧ c ≤ 'f' then some (c.toNat - 'a'.toNat + 10)
  else if 'A' ≤ c ∧ c ≤ 'F' then some (c.toNat - 'A'.toNat + 10)
  else none

/-- The ASCII character that two characters after `\x` stand for.  They are two hexadecimal digits,
or a plus sign and one. -/
def ascii? (high low : Char) : Option Char := do
  let h ← if high = '+' then some 0 else hexDigit? high
  let l ← hexDigit? low
  if 16 * h + l < 128 then some (Char.ofNat (16 * h + l)) else none

/-- The text with every escape replaced by its character, or the first bad escape as written.  A
bad `\x` takes along the two characters that follow it, as far as there are any. -/
def decode : List Char → Except (List Char) (List Char)
  | [] => .ok []
  | '\\' :: 'x' :: high :: low :: cs =>
    match ascii? high low with
    | some c => (c :: ·) <$> decode cs
    | none => .error ['\\', 'x', high, low]
  | '\\' :: 'x' :: cs => .error ('\\' :: 'x' :: cs)
  | '\\' :: e :: cs =>
    match letter? e with
    | some c => (c :: ·) <$> decode cs
    | none => .error ['\\', e]
  | ['\\'] => .error ['\\']
  | c :: cs => (c :: ·) <$> decode cs

/-- A lowercase hexadecimal digit. -/
def hexDigit (n : Nat) : Char :=
  if n < 10 then Char.ofNat ('0'.toNat + n) else Char.ofNat ('a'.toNat + (n - 10))

/-- The written form of one character of a text. -/
def encodeChar (c : Char) : List Char :=
  match c with
  | '\n' => ['\\', 'n']
  | '\r' => ['\\', 'r']
  | '\t' => ['\\', 't']
  | '\x00' => ['\\', '0']
  | '\\' => ['\\', '\\']
  | '"' => ['\\', '"']
  | c =>
    if c.toNat < 0x20 ∨ c.toNat = 0x7F then
      ['\\', 'x', hexDigit (c.toNat / 16), hexDigit (c.toNat % 16)]
    else [c]

/-- The written form of a text between the quotes. -/
def encode (cs : List Char) : List Char := cs.flatMap encodeChar

end SchemaLang.Escape
