/-!
# Primitive types

* `Primitive`: the twelve types that literals and map entries can have.
* `Primitive.keyword`, `Primitive.ofKeyword?`: their spelling.
* `Primitive.range?`: the bounds of the integer types.
-/

namespace Idl

/-- A type without parts. -/
inductive Primitive where
  | int8
  | int16
  | int32
  | int64
  | uint8
  | uint16
  | uint32
  | uint64
  | float32
  | float64
  | string
  | bool
  deriving DecidableEq

namespace Primitive

/-- Every primitive type. -/
def all : List Primitive :=
  [int8, int16, int32, int64, uint8, uint16, uint32, uint64, float32, float64, string, bool]

/-- The spelling in a schema. -/
def keyword : Primitive → String
  | int8 => "int8"
  | int16 => "int16"
  | int32 => "int32"
  | int64 => "int64"
  | uint8 => "uint8"
  | uint16 => "uint16"
  | uint32 => "uint32"
  | uint64 => "uint64"
  | float32 => "float32"
  | float64 => "float64"
  | string => "string"
  | bool => "bool"

/-- The type that a word spells. -/
def ofKeyword? (word : String) : Option Primitive :=
  all.find? fun p => p.keyword = word

/-- The least and the greatest value of an integer type. -/
def range? : Primitive → Option (Int × Int)
  | int8 => some (-0x80, 0x7f)
  | int16 => some (-0x8000, 0x7fff)
  | int32 => some (-0x80000000, 0x7fffffff)
  | int64 => some (-0x8000000000000000, 0x7fffffffffffffff)
  | uint8 => some (0, 0xff)
  | uint16 => some (0, 0xffff)
  | uint32 => some (0, 0xffffffff)
  | uint64 => some (0, 0xffffffffffffffff)
  | _ => none

/-- An integer type. -/
def isInteger (p : Primitive) : Bool := p.range?.isSome

/-- A floating point type. -/
def isFloat (p : Primitive) : Bool := p = float32 || p = float64

end Primitive

end Idl
