import SchemaLang.Numeric.Binary64

/-!
# Numeric types

The eight integer types and the two float types of the language, each with its name, its width
and the least and greatest value that a literal of the type may have.
-/

namespace SchemaLang

/-- The width of an integer type. -/
inductive Width where
  | w8 | w16 | w32 | w64
deriving DecidableEq

/-- The number of bits of a width. -/
def Width.bits : Width → Nat
  | .w8 => 8
  | .w16 => 16
  | .w32 => 32
  | .w64 => 64

/-- An integer type. -/
structure IntType where
  signed : Bool
  width : Width
deriving DecidableEq

namespace IntType

/-- The name of the type in a schema. -/
def name : IntType → String
  | ⟨true, .w8⟩ => "Int8"
  | ⟨true, .w16⟩ => "Int16"
  | ⟨true, .w32⟩ => "Int32"
  | ⟨true, .w64⟩ => "Int64"
  | ⟨false, .w8⟩ => "UInt8"
  | ⟨false, .w16⟩ => "UInt16"
  | ⟨false, .w32⟩ => "UInt32"
  | ⟨false, .w64⟩ => "UInt64"

/-- The least value of the type. -/
def min (t : IntType) : Int :=
  if t.signed then -((1 <<< (t.width.bits - 1) : Nat) : Int) else 0

/-- The greatest value of the type. -/
def max (t : IntType) : Int :=
  ((1 <<< (if t.signed then t.width.bits - 1 else t.width.bits) : Nat) : Int) - 1

/-- `n` is a value of the type. -/
def Holds (t : IntType) (n : Int) : Prop := t.min ≤ n ∧ n ≤ t.max

instance (t : IntType) (n : Int) : Decidable (t.Holds n) := inferInstanceAs (Decidable (_ ∧ _))

end IntType

/-- A float type. -/
inductive FloatType where
  | float32 | float64
deriving DecidableEq

namespace FloatType

/-- The name of the type in a schema. -/
def name : FloatType → String
  | .float32 => "Float32"
  | .float64 => "Float64"

/-- The number of bits of the type. -/
def bits : FloatType → Nat
  | .float32 => 32
  | .float64 => 64

/-- The largest magnitude of the type: `(2 ^ 24 - 1) * 2 ^ 104` or `(2 ^ 53 - 1) * 2 ^ 971`. -/
def max : FloatType → Binary64
  | .float32 => ⟨false, 1 <<< 53 - 1 <<< 29, 1149⟩
  | .float64 => ⟨false, 1 <<< 53 - 1, Binary64.maxShift⟩

end FloatType

/-- A type that numeric literals are written for. -/
inductive NumericType where
  | int (t : IntType)
  | float (t : FloatType)
deriving DecidableEq

namespace NumericType

/-- The name of the type in a schema. -/
def name : NumericType → String
  | .int t => t.name
  | .float t => t.name

/-- The number of bits of the type. -/
def bits : NumericType → Nat
  | .int t => t.width.bits
  | .float t => t.bits

/-- Every numeric type, the integers first. -/
def all : List NumericType :=
  [.int ⟨true, .w8⟩, .int ⟨true, .w16⟩, .int ⟨true, .w32⟩, .int ⟨true, .w64⟩,
   .int ⟨false, .w8⟩, .int ⟨false, .w16⟩, .int ⟨false, .w32⟩, .int ⟨false, .w64⟩,
   .float .float32, .float .float64]

/-- The numeric type of a name. -/
def ofName? (name : String) : Option NumericType := all.find? (·.name = name)

end NumericType

/-- A decoded numeric value. -/
inductive Number where
  | int (n : Int)
  | float (x : Binary64)
deriving DecidableEq

namespace NumericType

/-- The least value of the type. -/
def min : NumericType → Number
  | .int t => .int t.min
  | .float t => .float t.max.neg

/-- The greatest value of the type. -/
def max : NumericType → Number
  | .int t => .int t.max
  | .float t => .float t.max

end NumericType

end SchemaLang
