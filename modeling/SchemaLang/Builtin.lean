import SchemaLang.Numeric.Kind

/-!
# Builtin types

The types that every schema may name without declaring them.
-/

namespace SchemaLang

/-- A builtin type. -/
inductive Builtin where
  | void | bool | numeric (t : NumericType) | text | data | anyPointer
deriving DecidableEq

namespace Builtin

/-- The name of a builtin type. -/
def name : Builtin → String
  | .void => "Void"
  | .bool => "Bool"
  | .numeric t => t.name
  | .text => "Text"
  | .data => "Data"
  | .anyPointer => "AnyPointer"

/-- Every builtin type. -/
def all : List Builtin :=
  [.void, .bool] ++ NumericType.all.map .numeric ++ [.text, .data, .anyPointer]

/-- The builtin type of a name. -/
def ofName? (name : String) : Option Builtin := all.find? (·.name = name)

/-- The numeric type that a builtin type is, if it is one. -/
def numeric? : Builtin → Option NumericType
  | .numeric t => some t
  | _ => none

end Builtin

end SchemaLang
