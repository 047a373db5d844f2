import Mathlib.Tactic

/-! # ABI types

The types of `abi/type.go`: `Typ` has one constructor for each `Kind` that `NewType` builds, with
the fields of `Type` that matter for it. The reflect type `t.t` is not stored but computed
(`goType`), since `readType` and `decodeSimpleType` derive it from the kind, the size and the
element type. -/

namespace Web3.Abi

mutual
inductive Typ where
  | bool
  | uint (size : ℕ)
  | int (size : ℕ)
  | string
  | array (size : ℕ) (elem : Typ)
  | slice (elem : Typ)
  | address
  | bytes
  | fixedBytes (size : ℕ)
  | function
  | tuple (tupleName : String) (elems : TupleElems)

inductive TupleElems where
  | nil
  | cons (name : String) (elem : Typ) (indexed : Bool) (rest : TupleElems)
end

inductive GoType where
  | bool | string | bigInt | mapStringIface | iface
  | uint | uint8 | uint16 | uint32 | uint64
  | int | int8 | int16 | int32 | int64
  | slice (elem : GoType)
  | array (size : ℕ) (elem : GoType)
  deriving DecidableEq, Repr

def goType : Typ → GoType
  | .bool => .bool
  | .uint 8 => .uint8
  | .uint 16 => .uint16
  | .uint 32 => .uint32
  | .uint 64 => .uint64
  | .uint _ => .bigInt
  | .int 8 => .int8
  | .int 16 => .int16
  | .int 32 => .int32
  | .int 64 => .int64
  | .int _ => .bigInt
  | .string => .string
  | .array size elem => .array size (goType elem)
  | .slice elem => .slice (goType elem)
  | .address => .array 20 .uint8
  | .bytes => .slice .uint8
  | .fixedBytes size => .array size .uint8
  | .function => .array 24 .uint8
  | .tuple _ _ => .mapStringIface

/-- The number of bytes of a value of a Go type, on a 64-bit machine. -/
def goSize : GoType → ℕ
  | .bool | .uint8 | .int8 => 1
  | .uint16 | .int16 => 2
  | .uint32 | .int32 => 4
  | .uint | .uint64 | .int | .int64 => 8
  | .bigInt | .mapStringIface => 8
  | .string | .iface => 16
  | .slice _ => 24
  | .array size elem => size * goSize elem

def TupleElems.length : TupleElems → ℕ
  | .nil => 0
  | .cons _ _ _ rest => rest.length + 1

mutual
def isDynamicType : Typ → Bool
  | .tuple _ elems => anyDynamicType elems
  | .string => true
  | .bytes => true
  | .slice _ => true
  | .array _ elem => isDynamicType elem
  | _ => false

def anyDynamicType : TupleElems → Bool
  | .nil => false
  | .cons _ elem _ rest => isDynamicType elem || anyDynamicType rest
end

def isArrayOrTuple : Typ → Bool
  | .array _ _ => true
  | .tuple _ _ => true
  | _ => false

mutual
def getTypeSize : Typ → ℕ
  | .array size elem =>
    if isDynamicType elem then 32
    else if isArrayOrTuple elem then size * getTypeSize elem else size * 32
  | .tuple _ elems => if anyDynamicType elems then 32 else getTypeSizes elems
  | _ => 32

def getTypeSizes : TupleElems → ℕ
  | .nil => 0
  | .cons _ elem _ rest => getTypeSize elem + getTypeSizes rest
end

def nameToKey (name : String) (index : ℕ) : String :=
  if name = "" then toString index else name

def nameToLowerKey (name : String) (index : ℕ) : String :=
  if name = "" then toString index else name.toLower

def TupleElems.keys : TupleElems → ℕ → List String
  | .nil, _ => []
  | .cons name _ _ rest, i => nameToKey name i :: rest.keys (i + 1)

mutual
/-- The types the ABI specification has: integers of 8 to 256 bits in steps of 8, `bytes1` to
`bytes32`, arrays with at least one element, and tuples with at least one component and no two
components with the same key. -/
def WellFormed : Typ → Prop
  | .uint size => 8 ≤ size ∧ size ≤ 256 ∧ 8 ∣ size
  | .int size => 8 ≤ size ∧ size ≤ 256 ∧ 8 ∣ size
  | .fixedBytes size => 1 ≤ size ∧ size ≤ 32
  | .array size elem => 1 ≤ size ∧ WellFormed elem
  | .slice elem => WellFormed elem
  | .tuple _ elems => elems ≠ .nil ∧ (elems.keys 0).Nodup ∧ AllWellFormed elems
  | _ => True

def AllWellFormed : TupleElems → Prop
  | .nil => True
  | .cons _ elem _ rest => WellFormed elem ∧ AllWellFormed rest
end

/-! ## Head sizes -/

variable {t : Typ}

theorem getTypeSize_of_dynamic (h : isDynamicType t = true) : getTypeSize t = 32 := by
  cases t with
  | array size elem =>
    have he : isDynamicType elem = true := by simpa [isDynamicType] using h
    simp [getTypeSize, he]
  | tuple name elems =>
    have he : anyDynamicType elems = true := by simpa [isDynamicType] using h
    simp [getTypeSize, he]
  | _ => rfl

theorem getTypeSize_of_not_arrayOrTuple (h : isArrayOrTuple t = false) : getTypeSize t = 32 := by
  cases t with
  | array | tuple => simp [isArrayOrTuple] at h
  | _ => rfl

/-- The head of an array with static elements is that of its elements, one after the other. -/
theorem getTypeSize_array_static {size : ℕ} {elem : Typ} (h : isDynamicType elem = false) :
    getTypeSize (.array size elem) = size * getTypeSize elem := by
  cases ha : isArrayOrTuple elem with
  | true => simp [getTypeSize, h, ha]
  | false => simp [getTypeSize, h, ha, getTypeSize_of_not_arrayOrTuple ha]

theorem getTypeSize_tuple_static {name : String} {elems : TupleElems}
    (h : anyDynamicType elems = false) : getTypeSize (.tuple name elems) = getTypeSizes elems := by
  simp [getTypeSize, h]

end Web3.Abi
