import Web3.Abi.Values

/-! # The encoder

`abi/encode.go`, function by function. Loops that append to `ret` and `tail` are recursions with
these two as accumulators; `int` lengths and offsets are natural numbers. -/

namespace Web3.Abi

variable (v : Val)

def encodeErr (t : String) : String :=
  "failed to encode " ++ v.kindString ++ " as " ++ t

/-! ## Words and padding -/

/-- Pad with zero bytes on the left or right up to `size`; a longer string keeps its last `size`
bytes. -/
def padBytes (b : Bytes) (size : ℕ) (left : Bool) : Bytes :=
  let l := b.length
  if l = size then b
  else if l > size then b.drop (l - size)
  else if left then List.replicate (size - l) 0 ++ b
  else b ++ List.replicate (size - l) 0

def leftPad (b : Bytes) (size : ℕ) : Bytes := padBytes b size true

def rightPad (b : Bytes) (size : ℕ) : Bytes := padBytes b size false

/-- The 32-byte word of a `big.Int`: a negative or too large number is reduced modulo `2 ^ 256`. -/
def toU256 (n : ℤ) : Bytes :=
  let b : ℤ := if n < 0 ∨ bitLen n.natAbs > 256 then n % 2 ^ 256 else n
  leftPad (toBytes b.natAbs) 32

/-- The word of an `int`; `encodeNum` cannot fail on one. -/
def packNum (offset : ℕ) : Bytes := toU256 offset

/-! ## Elementary types -/

def encodeNum : Outcome Bytes :=
  match v.integer? with
  | some n => .ok (toU256 n)
  | none =>
    match v with
    | .ptr w => .err (encodeErr w "number")
    | _ => .err (encodeErr v "number")

def encodeBool : Outcome Bytes :=
  match v with
  | .bool true => .ok (leftPad (toBytes 1) 32)
  | .bool false => .ok (leftPad (toBytes 0) 32)
  | _ => .err (encodeErr v "bool")

def packBytesSlice (buf : Bytes) (l : ℕ) : Bytes :=
  packNum l ++ rightPad buf ((l + 31) / 32 * 32)

def encodeFixedBytes : Outcome Bytes := do
  let b ← v.bytes
  return rightPad b 32

def encodeAddress : Outcome Bytes := do
  let b ← v.bytes
  return leftPad b 32

def encodeBytes : Outcome Bytes := do
  let b ← v.bytes
  return packBytesSlice b b.length

def encodeString : Outcome Bytes :=
  match v with
  | .string s => .ok (packBytesSlice s s.length)
  | _ => .err (encodeErr v "string")

/-! ## Tuples -/

inductive Fields where
  | list (vs : List Val)
  | map (kvs : List (String × Val))

def Fields.len : Fields → ℕ
  | .list vs => vs.length
  | .map kvs => kvs.length

/-- `v.Index(i)`, or `v.MapIndex` of the lower-case key; `none` is an invalid value. -/
def Fields.get : Fields → String → ℕ → Option Val
  | .list vs, _, i => vs[i]?
  | .map kvs, name, i => kvs.lookup (nameToLowerKey name i)

/-- The exported fields of a struct by key, without those tagged `-`. The first field of a key
wins. -/
def mapFromStruct (fields : List (String × Bool × String × Val)) : List (String × Val) :=
  fields.zipIdx.foldl (fun res f =>
    let (name, exported, tag, v) := f.1
    if !exported then res
    else if tag = "-" then res
    else
      let key := if tag ≠ "" then nameToLowerKey tag f.2 else nameToLowerKey name f.2
      if (res.lookup key).isSome then res else res ++ [(key, v)]) []

/-- `v.Elem()` of a pointer. The fields of a `big.Int` are not exported. -/
def Val.deref : Val → Val
  | .ptr v => v
  | .bigInt _ => .struct []
  | v => v

def tupleFields : Outcome Fields :=
  match v.deref with
  | .slice _ vs => .ok (.list vs)
  | .array _ vs => .ok (.list vs)
  | .map kvs => .ok (.map kvs)
  | .struct fields => .ok (.map (mapFromStruct fields))
  | w => .err (encodeErr w "tuple")

/-! ## The recursion -/

def encodeElems (enc : Val → Outcome Bytes) (isDynamic : Bool) : List Val → ℕ → Bytes → Bytes → Outcome Bytes
  | [], _, ret, tail => .ok (ret ++ tail)
  | v :: vs, offset, ret, tail => do
    let val ← enc v
    if isDynamic then
      encodeElems enc isDynamic vs (offset + val.length) (ret ++ packNum offset) (tail ++ val)
    else
      encodeElems enc isDynamic vs offset (ret ++ val) tail

def startOffset (elem : Typ) (len : ℕ) : ℕ :=
  if isDynamicType elem then getTypeSize elem * len else 0

mutual
def encode : Typ → Val → Outcome Bytes
  | .slice elem, v =>
    match v with
    | .slice _ vs =>
      encodeElems (fun w => encode elem w) (isDynamicType elem) vs
        (startOffset elem vs.length) (packNum vs.length) []
    | .array _ _ => .err "expected array"
    | _ => .err (encodeErr v "Slice")
  | .array size elem, v =>
    match v with
    | .array _ vs =>
      if size ≠ vs.length then .err "array len incompatible"
      else
        encodeElems (fun w => encode elem w) (isDynamicType elem) vs
          (startOffset elem vs.length) [] []
    | .slice _ _ => .err "expected slice"
    | _ => .err (encodeErr v "Array")
  | .tuple _ elems, v => do
    let fields ← tupleFields v
    if fields.len < elems.length then
      .err ("expected at least the same length,expected " ++ toString elems.length ++ " but " ++ toString fields.len)
    else encodeTuple elems 0 fields (getTypeSizes elems) [] []
  | .string, v => encodeString v
  | .bool, v => encodeBool v
  | .address, v => encodeAddress v
  | .int _, v => encodeNum v
  | .uint _, v => encodeNum v
  | .bytes, v => encodeBytes v
  | .fixedBytes _, v => encodeFixedBytes v
  | .function, v => encodeFixedBytes v

def encodeTuple : TupleElems → ℕ → Fields → ℕ → Bytes → Bytes → Outcome Bytes
  | .nil, _, _, _, ret, tail => .ok (ret ++ tail)
  | .cons name elem _ rest, i, fields, offset, ret, tail =>
    match fields.get name i with
    | none => .err ("cannot get key " ++ nameToLowerKey name i)
    | some aux => do
      let val ← encode elem aux
      if isDynamicType elem then
        encodeTuple rest (i + 1) fields (offset + val.length) (ret ++ packNum offset) (tail ++ val)
      else
        encodeTuple rest (i + 1) fields offset (ret ++ val) tail
end

def Encode (t : Typ) : Outcome Bytes := encode t v

/-! ## What padding computes -/

variable {b : Bytes} {size : ℕ}

theorem leftPad_eq (h : b.length ≤ size) : leftPad b size = List.replicate (size - b.length) 0 ++ b := by
  have hgt : ¬ b.length > size := by omega
  by_cases he : b.length = size
  · simp [leftPad, padBytes, he]
  · simp [leftPad, padBytes, he, hgt]

theorem rightPad_eq (h : b.length ≤ size) : rightPad b size = b ++ List.replicate (size - b.length) 0 := by
  have hgt : ¬ b.length > size := by omega
  by_cases he : b.length = size
  · simp [rightPad, padBytes, he]
  · simp [rightPad, padBytes, he, hgt]

theorem leftPad_toBytes {n : ℕ} (h : n < 2 ^ 256) : leftPad (toBytes n) 32 = beBytes 32 n := by
  rw [leftPad_eq (length_toBytes_le (k := 32) h)]
  exact replicate_append_toBytes h

theorem toU256_eq (n : ℤ) : toU256 n = beBytes 32 (n % 2 ^ 256).toNat := by
  have hpos : (0 : ℤ) ≤ n % 2 ^ 256 := Int.emod_nonneg n (by norm_num)
  have hlt : n % 2 ^ 256 < 2 ^ 256 := Int.emod_lt_of_pos n (by norm_num)
  have hres : (if n < 0 ∨ bitLen n.natAbs > 256 then n % 2 ^ 256 else n) = n % 2 ^ 256 := by
    split
    · rfl
    · next h =>
      push Not at h
      have hsize : n.natAbs < 2 ^ 256 := (bitLen_le_iff _ _).mp h.2
      exact (Int.emod_eq_of_lt h.1 (by omega)).symm
  have habs : (n % 2 ^ 256).natAbs = (n % 2 ^ 256).toNat := by omega
  simp only [toU256, hres, habs]
  exact leftPad_toBytes (by omega)

theorem packNum_eq (n : ℕ) : packNum n = beBytes 32 n := by
  have hn : ((n : ℤ) % 2 ^ 256).toNat = n % 256 ^ 32 := by
    norm_num
    omega
  rw [packNum, toU256_eq, hn, beBytes_mod]

end Web3.Abi
