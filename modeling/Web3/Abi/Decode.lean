import Web3.Abi.Values

/-! # The decoder

`abi/decode.go`, function by function. Every slice `decode` works on is a suffix of its input, so
its capacity equals its length as long as that holds of the input itself; such a slice is the list
of its bytes. A slice expression out of range is a panic (`sliceExpr`), which is not the same as the
errors the code returns.

The memory for the elements of a slice or an array is allocated before they are read. Its size is a product
with the size of the element type, and not bounded by the input: `Runtime` says which sizes can be
allocated. Other allocations are not larger than the input and are taken to succeed. `32*size` does not overflow, since `NewType` reads the size of an array as 32 bits and a
length is not larger than the input. -/

namespace Web3.Abi

/-- `buf[lo:hi]`, for the bytes `buf` that can be reached up to the capacity. -/
def sliceExpr (buf : Bytes) (lo hi : ℕ) : Outcome Bytes :=
  if lo ≤ hi ∧ hi ≤ buf.length then .ok ((buf.take hi).drop lo)
  else .panic "runtime error: slice bounds out of range"

/-- The Go runtime, as far as the decoder depends on it: the numbers of bytes that it can allocate. -/
class Runtime where
  allocates : ℕ → Bool

/-- Where no other runtime is given, every allocation succeeds. -/
instance : Runtime := ⟨fun _ => true⟩

/-- `reflect.MakeSlice` and `reflect.New`, for a number of bytes. -/
def allocate [Runtime] (size : ℕ) : Outcome Unit :=
  if Runtime.allocates size then .ok () else .panic "runtime: allocation size out of range"

/-- The value of `Int64()` of a `big.Int` with low 64 bits `n`. -/
def lowInt64 (n : ℕ) : ℤ := (UInt64.ofNat n).toInt64.toInt

/-! ## Offsets and lengths -/

def readOffset (data : Bytes) (len : ℕ) : Outcome ℕ := do
  let offsetBig ← ofBytes <$> sliceExpr data 0 32
  if bitLen offsetBig > 63 then
    .err ("offset larger than int64: " ++ toString (lowInt64 offsetBig))
  else if offsetBig > len then
    .err ("offset insufficient " ++ toString len ++ " require " ++ toString offsetBig)
  else .ok offsetBig

def readLength (data : Bytes) : Outcome ℕ := do
  let lengthBig ← ofBytes <$> sliceExpr data 0 32
  if bitLen lengthBig > 63 then
    .err ("length larger than int64: " ++ toString (lowInt64 lengthBig))
  else if lengthBig > data.length then
    .err ("length insufficient " ++ toString data.length ++ " require " ++ toString lengthBig)
  else .ok lengthBig

/-! ## Elementary types -/

def decodeBool (data : Bytes) : Outcome Val :=
  match (data[31]? : Option UInt8) with
  | none => .panic "runtime error: index out of range"
  | some 0 => .ok (.bool false)
  | some 1 => .ok (.bool true)
  | some _ => .err "bad boolean"

def lastBytes (k : ℕ) (b : Bytes) : ℕ := ofBytes (b.drop (b.length - k))

def maxInt256 : ℕ := 2 ^ 255 - 1

def maxUint256 : ℕ := 2 ^ 256 - 1

/-- `readInteger` for a type whose reflect type is `*big.Int`: a signed number above the largest
`int256` is negative. -/
def readBigInt (signed : Bool) (b : Bytes) : Val :=
  let ret : ℤ := ofBytes b
  if !signed then .bigInt ret
  else if ret > maxInt256 then .bigInt (-((maxUint256 + -ret) + 1))
  else .bigInt ret

def readInteger (signed : Bool) (size : ℕ) (b : Bytes) : Val :=
  match signed, size with
  | false, 8 => .uint8 (UInt8.ofNat (lastBytes 1 b))
  | false, 16 => .uint16 (UInt16.ofNat (lastBytes 2 b))
  | false, 32 => .uint32 (UInt32.ofNat (lastBytes 4 b))
  | false, 64 => .uint64 (UInt64.ofNat (lastBytes 8 b))
  | true, 8 => .int8 (UInt8.ofNat (lastBytes 1 b)).toInt8
  | true, 16 => .int16 (UInt16.ofNat (lastBytes 2 b)).toInt16
  | true, 32 => .int32 (UInt32.ofNat (lastBytes 4 b)).toInt32
  | true, 64 => .int64 (UInt64.ofNat (lastBytes 8 b)).toInt64
  | _, _ => readBigInt signed b

def readAddr (b : Bytes) : Outcome Val :=
  if b.length ≠ 32 then .err "len is not correct" else .ok (.ofByteArray (b.drop 12))

def allZeros (b : Bytes) : Bool := b.all (· = 0)

def fmtBinary (b : Bytes) : String :=
  "[" ++ " ".intercalate (b.map fun x => String.ofList (Nat.toDigits 2 x.toNat)) ++ "]"

def readFunctionType (word : Bytes) : Outcome Val := do
  let last ← sliceExpr word 24 32
  if !allZeros last then
    .err ("function type expects the last 8 bytes to be empty but found: " ++ fmtBinary last)
  else
    let first ← sliceExpr word 0 24
    .ok (.ofByteArray first)

/-- `word` is `input[:32]`, whose capacity is that of `input`, so `word[0:t.size]` reaches into the
rest of the input when the size is above 32. -/
def readFixedBytes (size : ℕ) (input : Bytes) : Outcome Val := do
  let b ← sliceExpr input 0 size
  .ok (.ofByteArray b)

/-! ## The recursion -/

/-- The slice to decode one component from: `data` itself, or `orig` from the offset in `data`. -/
def entryOf (isDynamic : Bool) (orig data : Bytes) : Outcome Bytes :=
  if isDynamic then do
    let offset ← readOffset data orig.length
    sliceExpr orig offset orig.length
  else .ok data

/-- The heads that follow one component: what it left over, or what follows its offset. -/
def restOf (isDynamic : Bool) (data tail : Bytes) : Outcome Bytes :=
  if isDynamic then sliceExpr data 32 data.length else .ok tail

def decodeElems (dec : Bytes → Outcome (Val × Bytes)) (isDynamic : Bool) (orig : Bytes) :
    ℕ → Bytes → List Val → Outcome (List Val × Bytes)
  | 0, data, res => .ok (res, data)
  | n + 1, data, res => do
    let entry ← entryOf isDynamic orig data
    let (val, tail) ← dec entry
    let data ← restOf isDynamic data tail
    decodeElems dec isDynamic orig n data (res ++ [val])

def decodeArraySlice [Runtime] (dec : Bytes → Outcome (Val × Bytes)) (isDynamic : Bool) (mk : GoType → List Val → Val)
    (elem : GoType) (data : Bytes) (size : ℕ) : Outcome (Val × Bytes) := do
  if 32 * size > data.length then .err "size is too big"
  else
    allocate (size * goSize elem)
    let (vals, rest) ← decodeElems dec isDynamic data size data []
    .ok (mk elem vals, rest)

mutual
def decode [Runtime] (t : Typ) (input : Bytes) : Outcome (Val × Bytes) :=
  if input.length < 32 then .err "incorrect length"
  else
    match t with
    | .tuple _ elems => decodeTuple elems 0 input input []
    | .slice elem => do
      let length ← readLength input
      decodeArraySlice (fun b => decode elem b) (isDynamicType elem) .slice (goType elem)
        (input.drop 32) length
    | .array size elem =>
      decodeArraySlice (fun b => decode elem b) (isDynamicType elem) .array (goType elem) input size
    | .bool => do
      let val ← decodeBool (input.take 32)
      .ok (val, input.drop 32)
    | .int size => .ok (readInteger true size (input.take 32), input.drop 32)
    | .uint size => .ok (readInteger false size (input.take 32), input.drop 32)
    | .string => do
      let length ← readLength input
      let b ← sliceExpr input 32 (32 + length)
      .ok (.string b, input.drop 32)
    | .bytes => do
      let length ← readLength input
      let b ← sliceExpr input 32 (32 + length)
      .ok (.ofBytes b, input.drop 32)
    | .address => do
      let val ← readAddr (input.take 32)
      .ok (val, input.drop 32)
    | .fixedBytes size => do
      let val ← readFixedBytes size input
      .ok (val, input.drop 32)
    | .function => do
      let val ← readFunctionType (input.take 32)
      .ok (val, input.drop 32)

def decodeTuple [Runtime] (elems : TupleElems) (indx : ℕ) (orig data : Bytes) (res : List (String × Val))
    : Outcome (Val × Bytes) :=
  match elems with
  | .nil => .ok (.map res, data)
  | .cons name elem _ rest => do
    let entry ← entryOf (isDynamicType elem) orig data
    let (val, tail) ← decode elem entry
    let data ← restOf (isDynamicType elem) data tail
    let key := nameToKey name indx
    if (res.lookup key).isSome then .err "tuple with repeated values"
    else decodeTuple rest (indx + 1) orig data (res ++ [(key, val)])
end

def Decode [Runtime] (t : Typ) (input : Bytes) : Outcome Val :=
  if input.length = 0 then .err "empty input"
  else do
    let (val, _) ← decode t input
    .ok val

/-! ## Slice expressions in range -/

variable {buf : Bytes} {lo : ℕ}

theorem sliceExpr_ok {hi : ℕ} (hlo : lo ≤ hi) (hhi : hi ≤ buf.length) :
    sliceExpr buf lo hi = .ok ((buf.take hi).drop lo) := by
  rw [sliceExpr, if_pos ⟨hlo, hhi⟩]

theorem sliceExpr_suffix (h : lo ≤ buf.length) : sliceExpr buf lo buf.length = .ok (buf.drop lo) := by
  rw [sliceExpr_ok h le_rfl, List.take_length]

theorem sliceExpr_word (h : 32 ≤ buf.length) : sliceExpr buf 0 32 = .ok (buf.take 32) := by
  rw [sliceExpr_ok (by omega) h, List.drop_zero]

theorem decodeArraySlice_unlimited {dec : Bytes → Outcome (Val × Bytes)} {isDynamic : Bool}
    {mk : GoType → List Val → Val} {elem : GoType} {data : Bytes} {size : ℕ} :
    decodeArraySlice dec isDynamic mk elem data size =
      if 32 * size > data.length then .err "size is too big"
      else (do
        let (vals, rest) ← decodeElems dec isDynamic data size data []
        .ok (mk elem vals, rest)) := rfl

end Web3.Abi
