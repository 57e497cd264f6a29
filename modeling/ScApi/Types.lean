import Mathlib.Data.Nat.Notation
import Mathlib.Tactic.Common
import ScApi.Lib.Bytes

/-!
# Types of variables and telemetries

A `Type` is a 16-bit code, whose low byte is the base type and whose high byte is the variant, with
16 bits of data for the variant: the size of an array or the index of a bit. The code comes from
another process, so nothing restricts it to the codes that have a name.

Handles are templates over the ten C++ types that `get_base_type` is defined for. A value of such a
type is kept as its bits.

## Main results

* `baseType_ofBase`: a type made of a base type has this base type.
* `ofBytes_bytes`: the bytes of a value give the value back.
-/

open Bytes

namespace ScApi

/-- `Type::BaseType`. It is cast from a byte, which may be none of the enumerators. -/
inductive BaseType where
  | invalid
  | boolean
  | i8
  | u8
  | i16
  | u16
  | i32
  | u32
  | i64
  | f32
  | f64
  | cstring
  | unnamed (code : ℕ)
  deriving DecidableEq, Repr

namespace BaseType

/-- The number of a base type. -/
def code : BaseType → ℕ
  | invalid => 0x00
  | boolean => 0x01
  | i8 => 0x02
  | u8 => 0x03
  | i16 => 0x04
  | u16 => 0x05
  | i32 => 0x06
  | u32 => 0x07
  | i64 => 0x08
  | f32 => 0x09
  | f64 => 0x0A
  | cstring => 0x20
  | unnamed code => code

/-- The cast of a number to a base type. -/
def ofCode : ℕ → BaseType
  | 0x00 => invalid
  | 0x01 => boolean
  | 0x02 => i8
  | 0x03 => u8
  | 0x04 => i16
  | 0x05 => u16
  | 0x06 => i32
  | 0x07 => u32
  | 0x08 => i64
  | 0x09 => f32
  | 0x0A => f64
  | 0x20 => cstring
  | code => unnamed code

/-- `Type::getBaseTypeByteSize`. -/
def byteSize : BaseType → ℕ
  | i8 | u8 => 1
  | i16 | u16 => 2
  | i32 | u32 | f32 => 4
  | f64 | i64 => 8
  | _ => 0

end BaseType

/-- The struct `Type`. -/
structure DataType where
  type : UInt16
  variantData : UInt16 := 0
  deriving DecidableEq, Repr

namespace DataType

/-- The constructor of `Type` from a base type. -/
def ofBase (b : BaseType) : DataType where
  type := UInt16.ofNat b.code

/-- `Type::getBaseType`. -/
def baseType (t : DataType) : BaseType :=
  BaseType.ofCode (t.type.toNat % 256)

/-- `SC_API_TYPE_GET_VARIANT`. -/
def variant (t : DataType) : ℕ :=
  t.type.toNat / 256

/-- `Type::isArray`. -/
def isArray (t : DataType) : Bool :=
  t.variant = 1

/-- `Type::isBit`. -/
def isBit (t : DataType) : Bool :=
  t.variant = 2

/-- `Type::getArraySize`. -/
def arraySize (t : DataType) : ℕ :=
  t.variantData.toNat

/-- `Type::getValueByteSize`. It switches on the whole code, so only a base type without a variant
has the size of a base type. -/
def valueByteSize (t : DataType) : ℕ :=
  match BaseType.ofCode t.type.toNat with
  | .invalid => 0
  | .i8 | .u8 => 1
  | .i16 | .u16 => 2
  | .i32 | .u32 | .f32 => 4
  | .f64 | .i64 => 8
  | _ =>
      if t.baseType = .cstring then
        t.arraySize
      else if t.isArray then
        t.baseType.byteSize * t.arraySize + 8
      else
        0

end DataType

/-- The C++ types that `get_base_type` is defined for. -/
inductive Scalar where
  | bool
  | int8
  | uint8
  | int16
  | uint16
  | int32
  | uint32
  | int64
  | float
  | double
  deriving DecidableEq, Repr

namespace Scalar

/-- `get_base_type`. -/
def baseType : Scalar → BaseType
  | bool => .boolean
  | int8 => .i8
  | uint8 => .u8
  | int16 => .i16
  | uint16 => .u16
  | int32 => .i32
  | uint32 => .u32
  | int64 => .i64
  | float => .f32
  | double => .f64

/-- The size of a value in bytes. -/
def size : Scalar → ℕ
  | bool | int8 | uint8 => 1
  | int16 | uint16 => 2
  | int32 | uint32 | float => 4
  | int64 | double => 8

/-- The bits that tell values of a type apart. -/
def bits : Scalar → ℕ
  | bool => 1
  | t => 8 * t.size

/-- A value, as its bits. -/
abbrev Value (t : Scalar) := BitVec t.bits

/-- The value as an object in memory. -/
def bytes {t : Scalar} (v : t.Value) : List UInt8 :=
  toLe t.size v.toNat

/-- The value that some bytes in memory are. -/
def ofBytes (t : Scalar) (l : List UInt8) : t.Value :=
  BitVec.ofNat t.bits (ofLe l)

/-- The C++ type whose base type a type is, if it is a base type at all. -/
def ofDataType (t : DataType) : Option Scalar :=
  [bool, int8, uint8, int16, uint16, int32, uint32, int64, float, double].find? fun s =>
    .ofBase s.baseType = t

@[simp] theorem length_bytes {t : Scalar} (v : t.Value) : (bytes v).length = t.size :=
  length_toLe _ _

/-- A type made of a base type has this base type. -/
theorem baseType_ofBase (t : Scalar) : (DataType.ofBase t.baseType).baseType = t.baseType := by
  cases t <;> rfl

theorem ofDataType_ofBase (t : Scalar) : ofDataType (.ofBase t.baseType) = some t := by
  cases t <;> rfl

theorem two_pow_bits_le (t : Scalar) : 2 ^ t.bits ≤ 256 ^ t.size := by
  cases t <;> norm_num [bits, size]

/-- **A value is read back from its bytes.** -/
theorem ofBytes_bytes {t : Scalar} (v : t.Value) : t.ofBytes (bytes v) = v := by
  rw [ofBytes, bytes, ofLe_toLe_of_lt (v.isLt.trans_le t.two_pow_bits_le), BitVec.ofNat_toNat,
    BitVec.setWidth_eq]

end Scalar

end ScApi
