import SchemaLang.Numeric.Kind

/-!
# Numerals

How the text of a numeric literal is read for a numeric type.  The spelling selects the base: `0x`
is hexadecimal, a leading `0` before more digits is octal, a fraction or an exponent makes a float.
`IntType.decode` reads an integer of one base and rejects it as soon as its digits leave the range
of the type; `FloatType.decode` reads a decimal fraction and rounds it to binary64;
`NumericType.decode` chooses between them by the spelling.
-/

namespace SchemaLang

/-- The base of an integer numeral. -/
inductive Base where
  | octal | decimal | hexadecimal
deriving DecidableEq

namespace Base

def radix : Base → Nat
  | .octal => 8
  | .decimal => 10
  | .hexadecimal => 16

/-- The adjective for the base's digits. -/
def name : Base → String
  | .octal => "octal"
  | .decimal => "decimal"
  | .hexadecimal => "hexadecimal"

/-- The value of a digit in the base; letters count from ten in either case. -/
def digit? (b : Base) (c : Char) : Option Nat :=
  let value :=
    if '0' ≤ c ∧ c ≤ '9' then c.toNat - '0'.toNat
    else if 'a' ≤ c ∧ c ≤ 'z' then c.toNat - 'a'.toNat + 10
    else if 'A' ≤ c ∧ c ≤ 'Z' then c.toNat - 'A'.toNat + 10
    else b.radix
  if value < b.radix then some value else none

end Base

/-- What is wrong with a numeral. -/
inductive NumeralError where
  | unexpectedEnd
  | expectedDigit (base : Base)
  | uppercaseHexMark
  | expectedHexMark
  | negativeUnsigned (type : IntType)
  | outOfRange (type : NumericType)
  | unsupportedBase (base : Base) (type : FloatType)
  | expectedInteger (type : IntType)
deriving DecidableEq

/-- The wording of the error. -/
def NumeralError.message : NumeralError → String
  | .unexpectedEnd => "unexpected end of numeric literal"
  | .expectedDigit base => "expected " ++ base.name ++ " digit"
  | .uppercaseHexMark => "hexadecimal literals must start with a lowercase `0x`"
  | .expectedHexMark => "expected a `0x` prefix"
  | .negativeUnsigned type => "negative literal for unsigned type `" ++ type.name ++ "`"
  | .outOfRange type => "literal out of range for `" ++ type.name ++ "`"
  | .unsupportedBase base type => base.name ++ " literals cannot be used for `" ++ type.name ++ "`"
  | .expectedInteger type => "expected an integer literal for `" ++ type.name ++ "`"

/-- What the spelling of a numeral says about its reading. -/
inductive NumeralShape where
  | integer (base : Base)
  | float
deriving DecidableEq

namespace Numeral

/-- A numeral's sign, true for `-`, and what follows it. -/
def splitSign : List Char → Bool × List Char
  | '-' :: cs => (true, cs)
  | cs => (false, cs)

/-- The characters that make a numeral a float. -/
def isFloatMark (c : Char) : Bool := c = '.' || c = 'e' || c = 'E'

/-- The shape that a numeral's spelling selects. -/
def shape (text : List Char) : Except NumeralError NumeralShape :=
  match (splitSign text).2 with
  | '0' :: 'x' :: _ => .ok (.integer .hexadecimal)
  | '0' :: 'X' :: _ => .error .uppercaseHexMark
  | cs =>
    if cs.any isFloatMark then .ok .float
    else match cs with
      | '0' :: _ :: _ => .ok (.integer .octal)
      | _ => .ok (.integer .decimal)

/-- The value of a run of decimal digits. -/
def natOfDigits (cs : List Char) : Nat := cs.foldl (fun n c => 10 * n + (c.toNat - '0'.toNat)) 0

end Numeral

open Numeral

namespace IntType

/-- Appends one digit to the value read so far. -/
def extend (b : Base) (negative : Bool) (value : Int) (digit : Nat) : Int :=
  if negative then value * b.radix - digit else value * b.radix + digit

/-- Reads the digits of a numeral from the left.  The first character that is no digit of the base
or that takes the value out of the type's range ends the reading. -/
def decodeDigits (t : IntType) (b : Base) (negative : Bool) :
    Int → List Char → Except NumeralError Int
  | value, [] => .ok value
  | value, c :: cs =>
    match b.digit? c with
    | none => .error (.expectedDigit b)
    | some d =>
      let next := extend b negative value d
      if t.Holds next then decodeDigits t b negative next cs else .error (.outOfRange (.int t))

/-- Reads an integer numeral of one base for an integer type. -/
def decode (t : IntType) (b : Base) (text : List Char) : Except NumeralError Int :=
  let (negative, cs) := splitSign text
  if negative && !t.signed then .error (.negativeUnsigned t)
  else match b, cs with
    | _, [] => .error .unexpectedEnd
    | _, '0' :: 'X' :: _ => .error .uppercaseHexMark
    | .hexadecimal, ['0', 'x'] => .error .unexpectedEnd
    | .hexadecimal, '0' :: 'x' :: ds => t.decodeDigits b negative 0 ds
    | .hexadecimal, _ => .error .expectedHexMark
    | _, ds => t.decodeDigits b negative 0 ds

end IntType

namespace Decimal

/-- A run of decimal digits, which must not be empty, and what follows it. -/
def readDigits (cs : List Char) : Except NumeralError (List Char × List Char) :=
  match cs.span Char.isDigit with
  | ([], []) => .error .unexpectedEnd
  | ([], _) => .error (.expectedDigit .decimal)
  | found => .ok found

/-- Reads the exponent of a float numeral, if there is one; nothing may follow it. -/
def readExponent : List Char → Except NumeralError Int
  | [] => .ok 0
  | c :: cs =>
    if c = 'e' ∨ c = 'E' then do
      let (negative, cs) := match cs with
        | '+' :: cs => (false, cs)
        | cs => splitSign cs
      let (digits, rest) ← readDigits cs
      if rest ≠ [] then .error (.expectedDigit .decimal)
      else if negative then .ok (-natOfDigits digits) else .ok (natOfDigits digits)
    else .error (.expectedDigit .decimal)

/-- Reads `digits [. digits] [exponent]` after a sign. -/
def read (negative : Bool) (cs : List Char) : Except NumeralError Decimal := do
  let (whole, cs) ← readDigits cs
  let (fraction, cs) ← match cs with
    | '.' :: cs => readDigits cs
    | cs => .ok ([], cs)
  let exponent ← readExponent cs
  .ok ⟨negative, natOfDigits (whole ++ fraction), exponent - fraction.length⟩

end Decimal

namespace FloatType

/-- Reads a decimal numeral for a float type and rounds it to binary64. -/
def decode (t : FloatType) (text : List Char) : Except NumeralError Binary64 := do
  let (negative, cs) := splitSign text
  match cs with
  | '0' :: 'x' :: _ => .error (.unsupportedBase .hexadecimal t)
  | '0' :: 'X' :: _ => .error .uppercaseHexMark
  | cs =>
    let decimal ← Decimal.read negative cs
    match decimal.toBinary64? with
    | some x => if x.units ≤ t.max.units then .ok x else .error (.outOfRange (.float t))
    | none => .error (.outOfRange (.float t))

end FloatType

namespace NumericType

/-- Reads an octal or hexadecimal integer, which only integer types accept. -/
def decodeInteger (t : NumericType) (b : Base) (text : List Char) : Except NumeralError Number :=
  match t with
  | .float t => .error (.unsupportedBase b t)
  | .int t => .int <$> t.decode b text

/-- Reads a decimal integer for an integer type, or a decimal fraction for a float type. -/
def decodeDecimal (t : NumericType) (text : List Char) : Except NumeralError Number :=
  match t with
  | .float t => .float <$> t.decode text
  | .int t =>
    match shape text with
    | .ok .float => .error (.expectedInteger t)
    | _ => .int <$> t.decode .decimal text

/-- Reads a numeral in the base that its spelling selects. -/
def decode (t : NumericType) (text : List Char) : Except NumeralError Number := do
  match ← shape text with
  | .integer .hexadecimal => t.decodeInteger .hexadecimal text
  | .integer .octal => t.decodeInteger .octal text
  | .integer .decimal | .float => t.decodeDecimal text

end NumericType

end SchemaLang
