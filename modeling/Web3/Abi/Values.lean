import Web3.Foundations.Outcome
import Web3.Foundations.Words
import Web3.Abi.Types

/-! # Go values

The values that `abi.Encode` inspects through `reflect` and that `abi.Decode` builds. A slice or
array carries its element type, because `reflect.Value.Bytes` accepts byte elements only. A value
held in an interface is represented by the value itself, so the `v.Elem()` at the start of `encode`
is the identity, and a nil interface is `invalid`. A `*big.Int` is `bigInt`; any other pointer is
`ptr`. -/

namespace Web3.Abi

/-- A Go value. Strings are byte strings; a struct field has its name, whether it is exported, its
`abi` tag and its value. -/
inductive Val where
  | invalid
  | bool (b : Bool)
  | uint (n : UInt64)
  | uint8 (n : UInt8)
  | uint16 (n : UInt16)
  | uint32 (n : UInt32)
  | uint64 (n : UInt64)
  | int (n : Int64)
  | int8 (n : Int8)
  | int16 (n : Int16)
  | int32 (n : Int32)
  | int64 (n : Int64)
  | bigInt (n : ℤ)
  | string (s : Bytes)
  | slice (elemType : GoType) (vs : List Val)
  | array (elemType : GoType) (vs : List Val)
  | map (kvs : List (String × Val))
  | struct (fields : List (String × Bool × String × Val))
  | ptr (v : Val)

namespace Val

def kindString : Val → String
  | invalid => "invalid"
  | bool _ => "bool"
  | uint _ => "uint"
  | uint8 _ => "uint8"
  | uint16 _ => "uint16"
  | uint32 _ => "uint32"
  | uint64 _ => "uint64"
  | int _ => "int"
  | int8 _ => "int8"
  | int16 _ => "int16"
  | int32 _ => "int32"
  | int64 _ => "int64"
  | bigInt _ => "ptr"
  | string _ => "string"
  | slice _ _ => "slice"
  | array _ _ => "array"
  | map _ => "map"
  | struct _ => "struct"
  | ptr _ => "ptr"

def ofBytes (bs : Bytes) : Val := slice .uint8 (bs.map uint8)

def ofByteArray (bs : Bytes) : Val := array .uint8 (bs.map uint8)

def toUint8 : Val → UInt8
  | uint8 n => n
  | _ => 0

/-- `v.Bytes()`, after `convertArrayToBytes` for an array. Both panic unless the elements are
bytes. -/
def bytes : Val → Outcome Bytes
  | slice .uint8 vs => .ok (vs.map toUint8)
  | array .uint8 vs => .ok (vs.map toUint8)
  | slice _ _ => .panic "reflect.Value.Bytes of non-byte slice"
  | array _ _ => .panic "reflect.Copy: element types differ"
  | v => .panic ("reflect: call of reflect.Value.Bytes on " ++ v.kindString ++ " Value")

def integer? : Val → Option ℤ
  | uint n => some n.toNat
  | uint8 n => some n.toNat
  | uint16 n => some n.toNat
  | uint32 n => some n.toNat
  | uint64 n => some n.toNat
  | int n => some n.toInt
  | int8 n => some n.toInt
  | int16 n => some n.toInt
  | int32 n => some n.toInt
  | int64 n => some n.toInt
  | bigInt n => some n
  | _ => none

def bytes? (v : Val) : Option Bytes :=
  match v.bytes with
  | .ok bs => some bs
  | _ => none

theorem map_toUint8_map_uint8 (bs : Bytes) : (bs.map uint8).map toUint8 = bs := by
  rw [List.map_map]
  exact List.map_id bs

@[simp] theorem bytes_ofBytes (bs : Bytes) : (ofBytes bs).bytes = .ok bs := by
  rw [ofBytes, bytes, map_toUint8_map_uint8]

@[simp] theorem bytes_ofByteArray (bs : Bytes) : (ofByteArray bs).bytes = .ok bs := by
  rw [ofByteArray, bytes, map_toUint8_map_uint8]

theorem bytes?_eq_some {v : Val} {bs : Bytes} : v.bytes? = some bs ↔ v.bytes = .ok bs := by
  unfold bytes?
  cases v.bytes <;> simp

end Val
end Web3.Abi
