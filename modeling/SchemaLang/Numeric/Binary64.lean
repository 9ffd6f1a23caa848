/-!
# Finite binary64 numbers

A finite binary64 number is a sign and a whole number of units of `2 ^ -1074`, the smallest
positive one.  The whole number is kept as `significand * 2 ^ shift`, where the significand has at
most 53 bits and, once the shift is positive, exactly 53.  `Binary64.ofRatio?` rounds a fraction to
the nearest such number, a tie going to the even significand, and gives nothing for a fraction
that rounds past the largest one.
-/

namespace SchemaLang

/-- The finite number `± significand * 2 ^ shift * 2 ^ -1074`. -/
structure Binary64 where
  negative : Bool
  significand : Nat
  shift : Nat
deriving DecidableEq, Inhabited

/-- The quotient `num / den` rounded to the nearest whole number, a half going to the even one. -/
def roundHalfEven (num den : Nat) : Nat :=
  let quotient := num / den
  let twice := 2 * (num % den)
  if twice < den then quotient
  else if den < twice then quotient + 1
  else quotient + quotient % 2

namespace Binary64

/-- The largest shift of a finite number. -/
def maxShift : Nat := 2045

/-- The number's magnitude, counted in units of `2 ^ -1074`. -/
def units (x : Binary64) : Nat := x.significand <<< x.shift

/-- Zero of the given sign. -/
def zero (negative : Bool) : Binary64 := ⟨negative, 0, 0⟩

/-- The same magnitude with the other sign. -/
def neg (x : Binary64) : Binary64 := { x with negative := !x.negative }

/-- The interchange encoding.  A significand of 53 bits carries its leading bit into the exponent
field, which is why a shift of zero serves subnormal numbers and the smallest normal ones alike. -/
def toBits (x : Binary64) : Nat :=
  (if x.negative then 1 <<< 63 else 0) + x.shift <<< 52 + x.significand

/-- The number nearest to `± num / den`, or nothing if that is past the largest finite one. -/
def ofRatio? (negative : Bool) (num den : Nat) : Option Binary64 :=
  let scaled := num <<< 1074
  let shift := (scaled / den).log2 - 52
  let significand := roundHalfEven scaled (den <<< shift)
  let rounded : Binary64 :=
    if significand = 1 <<< 53 then ⟨negative, 1 <<< 52, shift + 1⟩ else ⟨negative, significand, shift⟩
  if rounded.shift ≤ maxShift then some rounded else none

end Binary64

/-- The decimal fraction `± digits * 10 ^ exponent`. -/
structure Decimal where
  negative : Bool
  digits : Nat
  exponent : Int
deriving DecidableEq, Inhabited

namespace Decimal

/-- The binary64 number nearest to a decimal fraction, or nothing if it is out of range.

A nonzero fraction with an exponent above 308 is at least `10 ^ 309`, past every finite number;
one below `2 ^ (log2 digits + 1) * 8 ^ exponent ≤ 2 ^ -1075` rounds to zero.  Deciding these two
first keeps the powers of ten that are computed in proportion to the text. -/
def toBinary64? (d : Decimal) : Option Binary64 :=
  if d.digits = 0 then some (.zero d.negative)
  else if 308 < d.exponent then none
  else if d.digits.log2 + 1076 < 3 * -d.exponent then some (.zero d.negative)
  else if 0 ≤ d.exponent then Binary64.ofRatio? d.negative (d.digits * Nat.pow 10 d.exponent.toNat) 1
  else Binary64.ofRatio? d.negative d.digits (Nat.pow 10 (-d.exponent).toNat)

end Decimal

end SchemaLang
