import Mathlib
import Web3.Abi.Acceptance
import Web3.Abi.DecodeBounds

/-! # Encoding what was decoded

`Decode` keys the map of a tuple by the component names as they are (`nameToKey`) and `Encode` looks the
components up by the names in lower case (`nameToLowerKey`). A decoded value can be encoded again where the
tuples it contains have their names in lower case. -/

namespace Web3.Abi
open HeadTail

/-! ## The range of decoded integers

An integer type whose reflect type is `*big.Int` is decoded like the one of 256 bits, whatever its size. -/

def wideSize : ℕ → ℕ
  | 8 => 8
  | 16 => 16
  | 32 => 32
  | 64 => 64
  | _ => 256

mutual
def widen : Typ → Typ
  | .uint size => .uint (wideSize size)
  | .int size => .int (wideSize size)
  | .slice elem => .slice (widen elem)
  | .array size elem => .array size (widen elem)
  | .tuple name elems => .tuple name (widenEach elems)
  | t => t

def widenEach : TupleElems → TupleElems
  | .nil => .nil
  | .cons name elem indexed rest => .cons name (widen elem) indexed (widenEach rest)
end

variable {size n i : ℕ} {b data rest input : Bytes} {elem t : Typ} {mk : GoType → List Val → Val} {ty : GoType} {v : Val}
  {r : Val × Bytes} {name : String}

theorem wideSize_native (h : NativeSize size) : wideSize size = size := by
  rcases h with rfl | rfl | rfl | rfl <;> rfl

theorem wideSize_big (h : ¬ NativeSize size) : wideSize size = 256 := by
  unfold NativeSize at h
  unfold wideSize
  split <;> first | rfl | omega

theorem not_native_256 : ¬ NativeSize 256 := by
  unfold NativeSize
  omega

theorem wideSize_legal (size : ℕ) : 8 ≤ wideSize size ∧ wideSize size ≤ 256 ∧ 8 ∣ wideSize size := by
  unfold wideSize
  split <;> omega

theorem readInteger_wide (signed : Bool) (size : ℕ) (b : Bytes) :
    readInteger signed (wideSize size) b = readInteger signed size b := by
  by_cases h : NativeSize size
  · rw [wideSize_native h]
  · rw [wideSize_big h, readInteger_big not_native_256, readInteger_big h]

theorem goType_uint_big (h : ¬ NativeSize size) : goType (.uint size) = .bigInt := by
  unfold NativeSize at h
  unfold goType
  split <;> simp_all

theorem goType_int_big (h : ¬ NativeSize size) : goType (.int size) = .bigInt := by
  unfold NativeSize at h
  unfold goType
  split <;> simp_all

theorem goType_uint_wide (size : ℕ) : goType (.uint (wideSize size)) = goType (.uint size) := by
  by_cases h : NativeSize size
  · rw [wideSize_native h]
  · rw [wideSize_big h, goType_uint_big not_native_256, goType_uint_big h]

theorem goType_int_wide (size : ℕ) : goType (.int (wideSize size)) = goType (.int size) := by
  by_cases h : NativeSize size
  · rw [wideSize_native h]
  · rw [wideSize_big h, goType_int_big not_native_256, goType_int_big h]

theorem goType_widen : (t : Typ) → goType (widen t) = goType t
  | .bool | .string | .address | .bytes | .fixedBytes _ | .function | .tuple _ _ => rfl
  | .uint size => goType_uint_wide size
  | .int size => goType_int_wide size
  | .slice elem | .array _ elem => by rw [widen, goType, goType, goType_widen elem]

mutual
theorem isDynamicType_widen : (t : Typ) → isDynamicType (widen t) = isDynamicType t
  | .bool | .uint _ | .int _ | .string | .slice _ | .address | .bytes | .fixedBytes _ | .function => rfl
  | .array _ elem => by rw [widen, isDynamicType, isDynamicType, isDynamicType_widen elem]
  | .tuple _ elems => by rw [widen, isDynamicType, isDynamicType, anyDynamicType_widen elems]

theorem anyDynamicType_widen : (es : TupleElems) → anyDynamicType (widenEach es) = anyDynamicType es
  | .nil => rfl
  | .cons _ elem _ rest => by
    rw [widenEach, anyDynamicType, anyDynamicType, isDynamicType_widen elem, anyDynamicType_widen rest]
end

theorem isArrayOrTuple_widen (t : Typ) : isArrayOrTuple (widen t) = isArrayOrTuple t := by
  cases t <;> rfl

mutual
theorem getTypeSize_widen : (t : Typ) → getTypeSize (widen t) = getTypeSize t
  | .bool | .uint _ | .int _ | .string | .slice _ | .address | .bytes | .fixedBytes _ | .function => rfl
  | .array _ elem => by
    rw [widen, getTypeSize, getTypeSize, isDynamicType_widen, isArrayOrTuple_widen, getTypeSize_widen elem]
  | .tuple _ elems => by
    rw [widen, getTypeSize, getTypeSize, anyDynamicType_widen, getTypeSizes_widen elems]

theorem getTypeSizes_widen : (es : TupleElems) → getTypeSizes (widenEach es) = getTypeSizes es
  | .nil => rfl
  | .cons _ elem _ rest => by
    rw [widenEach, getTypeSizes, getTypeSizes, getTypeSize_widen elem, getTypeSizes_widen rest]
end

theorem length_widen : (es : TupleElems) → (widenEach es).length = es.length
  | .nil => rfl
  | .cons _ _ _ rest => by rw [widenEach, TupleElems.length, TupleElems.length, length_widen rest]

theorem keys_widen : (es : TupleElems) → (i : ℕ) → (widenEach es).keys i = es.keys i
  | .nil, _ => rfl
  | .cons _ _ _ rest, i => by rw [widenEach, TupleElems.keys, TupleElems.keys, keys_widen rest]

mutual
theorem wellFormed_widen : (t : Typ) → WellFormed t → WellFormed (widen t)
  | .bool, h | .string, h | .address, h | .bytes, h | .fixedBytes _, h | .function, h => h
  | .uint size, _ | .int size, _ => wideSize_legal size
  | .slice elem, h => wellFormed_widen elem h
  | .array _ elem, h => ⟨h.1, wellFormed_widen elem h.2⟩
  | .tuple _ elems, h => by
    refine ⟨?_, ?_, allWellFormed_widen elems h.2.2⟩
    · cases elems with
      | nil => exact absurd rfl h.1
      | cons name elem indexed rest => simp [widenEach]
    · rw [keys_widen]
      exact h.2.1

theorem allWellFormed_widen : (es : TupleElems) → AllWellFormed es → AllWellFormed (widenEach es)
  | .nil, _ => trivial
  | .cons _ elem _ rest, h => ⟨wellFormed_widen elem h.1, allWellFormed_widen rest h.2⟩
end

theorem startOffset_widen (t : Typ) (len : ℕ) : startOffset (widen t) len = startOffset t len := by
  rw [startOffset, startOffset, isDynamicType_widen, getTypeSize_widen]

mutual
theorem encode_widen : (t : Typ) → (v : Val) → encode (widen t) v = encode t v
  | .bool, v | .string, v | .address, v | .bytes, v | .fixedBytes _, v | .function, v => rfl
  | .uint size, v | .int size, v => by rw [widen, encode, encode]
  | .slice elem, v | .array _ elem, v => by
    rw [widen]
    cases v <;> simp only [encode, isDynamicType_widen, startOffset_widen, encode_widen elem]
  | .tuple _ elems, v => by
    simp only [widen, encode, length_widen, getTypeSizes_widen, encodeTuple_widen elems]

theorem encodeTuple_widen : (es : TupleElems) → (i : ℕ) → (fields : Fields) → (offset : ℕ) → (ret tail : Bytes) →
    encodeTuple (widenEach es) i fields offset ret tail = encodeTuple es i fields offset ret tail
  | .nil, _, _, _, _, _ => rfl
  | .cons name elem _ rest, i, fields, offset, ret, tail => by
    simp only [widenEach, encodeTuple, encode_widen elem, isDynamicType_widen, encodeTuple_widen rest]
end

mutual
theorem decode_widen : (t : Typ) → (input : Bytes) → decode (widen t) input = decode t input
  | .bool, _ | .string, _ | .address, _ | .bytes, _ | .fixedBytes _, _ | .function, _ => rfl
  | .uint size, input | .int size, input => by simp only [widen, decode, readInteger_wide]
  | .slice elem, input | .array _ elem, input => by
    simp only [widen, decode, decode_widen elem, isDynamicType_widen, goType_widen]
  | .tuple _ elems, input => by
    simp only [widen, decode, decodeTuple_widen elems]

theorem decodeTuple_widen : (es : TupleElems) → (i : ℕ) → (orig data : Bytes) → (res : List (String × Val)) →
    decodeTuple (widenEach es) i orig data res = decodeTuple es i orig data res
  | .nil, _, _, _, _ => rfl
  | .cons name elem _ rest, i, orig, data, res => by
    simp only [widenEach, decodeTuple, decode_widen elem, isDynamicType_widen, decodeTuple_widen rest]
end

/-! ## Every decoded value is the Go value of an ABI value -/

theorem readBigInt_unsigned_range (hb : b.length = 32) :
    ∃ n : ℤ, (0 ≤ n ∧ n < 2 ^ 256) ∧ readBigInt false b = .bigInt n := by
  have hlt := ofBytes_lt b
  rw [hb] at hlt
  exact ⟨ofBytes b, by omega, rfl⟩

theorem readBigInt_signed_range (hb : b.length = 32) :
    ∃ n : ℤ, (-2 ^ 255 ≤ n ∧ n < 2 ^ 255) ∧ readBigInt true b = .bigInt n := by
  have hlt := ofBytes_lt b
  rw [hb] at hlt
  by_cases hneg : (ofBytes b : ℤ) > maxInt256
  · refine ⟨_, ?_, by simp [readBigInt, hneg]; rfl⟩
    simp only [maxInt256, maxUint256] at hneg ⊢
    omega
  · refine ⟨ofBytes b, ?_, by simp [readBigInt, hneg]⟩
    simp only [maxInt256] at hneg
    omega

theorem readInteger_unsigned_range (hb : b.length = 32) (size : ℕ) :
    ∃ n : ℤ, (0 ≤ n ∧ n < 2 ^ wideSize size) ∧ readInteger false size b = goUint (wideSize size) n := by
  by_cases hs : NativeSize size
  · rw [wideSize_native hs]
    rcases hs with rfl | rfl | rfl | rfl
    · have hlt := (UInt8.ofNat (lastBytes 1 b)).toNat_lt
      exact ⟨(UInt8.ofNat (lastBytes 1 b)).toNat, by omega, congrArg Val.uint8 UInt8.ofNat_toNat.symm⟩
    · have hlt := (UInt16.ofNat (lastBytes 2 b)).toNat_lt
      exact ⟨(UInt16.ofNat (lastBytes 2 b)).toNat, by omega, congrArg Val.uint16 UInt16.ofNat_toNat.symm⟩
    · have hlt := (UInt32.ofNat (lastBytes 4 b)).toNat_lt
      exact ⟨(UInt32.ofNat (lastBytes 4 b)).toNat, by omega, congrArg Val.uint32 UInt32.ofNat_toNat.symm⟩
    · have hlt := (UInt64.ofNat (lastBytes 8 b)).toNat_lt
      exact ⟨(UInt64.ofNat (lastBytes 8 b)).toNat, by omega, congrArg Val.uint64 UInt64.ofNat_toNat.symm⟩
  · obtain ⟨n, hn, heq⟩ := readBigInt_unsigned_range hb
    rw [wideSize_big hs, readInteger_big hs]
    exact ⟨n, hn, heq.trans (goUint_big not_native_256 n).symm⟩

theorem readInteger_signed_range (hb : b.length = 32) (size : ℕ) :
    ∃ n : ℤ, (-2 ^ (wideSize size - 1) ≤ n ∧ n < 2 ^ (wideSize size - 1)) ∧
      readInteger true size b = goInt (wideSize size) n := by
  by_cases hs : NativeSize size
  · rw [wideSize_native hs]
    rcases hs with rfl | rfl | rfl | rfl
    · exact ⟨_, ⟨Int8.le_toInt _, Int8.toInt_lt _⟩, congrArg Val.int8 (Int8.ofInt_toInt _).symm⟩
    · exact ⟨_, ⟨Int16.le_toInt _, Int16.toInt_lt _⟩, congrArg Val.int16 (Int16.ofInt_toInt _).symm⟩
    · exact ⟨_, ⟨Int32.le_toInt _, Int32.toInt_lt _⟩, congrArg Val.int32 (Int32.ofInt_toInt _).symm⟩
    · exact ⟨_, ⟨Int64.le_toInt _, Int64.toInt_lt _⟩, congrArg Val.int64 (Int64.ofInt_toInt _).symm⟩
  · obtain ⟨n, hn, heq⟩ := readBigInt_signed_range hb
    rw [wideSize_big hs, readInteger_big hs]
    exact ⟨n, hn, heq.trans (goInt_big not_native_256 n).symm⟩

theorem length_of_sliceExpr {buf : Bytes} {lo hi : ℕ} (h : sliceExpr buf lo hi = .ok b) : b.length = hi - lo := by
  unfold sliceExpr at h
  split at h
  · next hle =>
    cases h
    rw [List.length_drop, List.length_take]
    omega
  · cases h

/-- What the loop of `decodeArraySlice` makes of the elements: a property of the slice each element is read from
that is equivalent to one of the element. -/
theorem decodeElems_forall {elem : Typ} {orig : Bytes} {P : Bytes → Prop} {Q : Val → Prop}
    (hdec : ∀ b v tail, decode elem b = .ok (v, tail) → (P b ↔ Q v)) :
    ∀ (n : ℕ) (data : Bytes) (res vals : List Val) (rest : Bytes),
      decodeElems (fun b => decode elem b) (isDynamicType elem) orig n data res = .ok (vals, rest) →
      ∃ vs, vals = res ++ vs ∧ vs.length = n ∧
        ((∀ i < n, ∀ entry, entryOf (isDynamicType elem) orig (data.drop (i * getTypeSize elem)) = .ok entry →
          P entry) ↔ ∀ v ∈ vs, Q v)
  | 0, data, res, vals, rest, h => by
    simp only [decodeElems, Outcome.ok.injEq, Prod.mk.injEq] at h
    exact ⟨[], by simp [h.1]⟩
  | n + 1, data, res, vals, rest, h => by
    simp only [decodeElems, Outcome.bind_eq_ok] at h
    obtain ⟨entry, hentry, ⟨v, tail⟩, hval, data', hdata', h⟩ := h
    rw [restOf_component hentry hval, Outcome.ok.injEq] at hdata'
    subst hdata'
    obtain ⟨vs, rfl, hlen, hiff⟩ := decodeElems_forall hdec n _ _ vals rest h
    refine ⟨v :: vs, by rw [List.append_assoc, List.singleton_append], by rw [List.length_cons, hlen], ?_⟩
    have hshift : ∀ i, (data.drop (getTypeSize elem)).drop (i * getTypeSize elem) =
        data.drop ((i + 1) * getTypeSize elem) := by
      intro i
      rw [List.drop_drop]
      congr 1
      ring
    simp only [hshift] at hiff
    rw [Nat.forall_lt_succ_left, List.forall_mem_cons, hiff]
    simp only [Nat.zero_mul, List.drop_zero, hentry, Outcome.ok.injEq, forall_eq', hdec entry v tail hval]

theorem decodeArraySlice_forall {P : Bytes → Prop} {Q : Val → Prop}
    (hdec : ∀ b v tail, decode elem b = .ok (v, tail) → (P b ↔ Q v))
    (h : decodeArraySlice (fun b => decode elem b) (isDynamicType elem) mk ty data n = .ok (v, rest)) :
    ∃ vs, v = mk ty vs ∧ vs.length = n ∧
      ((∀ i < n, ∀ entry, entryOf (isDynamicType elem) data (data.drop (i * getTypeSize elem)) = .ok entry →
        P entry) ↔ ∀ w ∈ vs, Q w) := by
  rw [decodeArraySlice_unlimited, Outcome.checked_eq_ok, Outcome.bind_eq_ok] at h
  obtain ⟨-, ⟨vals, rest'⟩, helems, h⟩ := h
  obtain ⟨_, rfl, hlen, hiff⟩ := decodeElems_forall hdec n data [] vals rest' helems
  cases h
  exact ⟨_, rfl, hlen, hiff⟩

theorem exists_map_eq {α β : Type} {f : α → β} {P : α → Prop} {ys : List β} (h : ∀ y ∈ ys, ∃ x, P x ∧ y = f x) :
    ∃ xs : List α, (∀ x ∈ xs, P x) ∧ ys = xs.map f := by
  induction ys with
  | nil => exact ⟨[], by simp⟩
  | cons y ys ih =>
    rw [List.forall_mem_cons] at h
    obtain ⟨x, hx, rfl⟩ := h.1
    obtain ⟨xs, hxs, rfl⟩ := ih h.2
    exact ⟨x :: xs, List.forall_mem_cons.mpr ⟨hx, hxs⟩, rfl⟩

theorem exists_decoded_elems
    (hdec : ∀ b v tail, decode elem b = .ok (v, tail) → ∃ a, HasType (widen elem) a ∧ v = goValue (widen elem) a)
    (h : decodeArraySlice (fun b => decode elem b) (isDynamicType elem) mk ty data n = .ok (v, rest)) :
    ∃ as : List AbiVal, as.length = n ∧ (∀ a ∈ as, HasType (widen elem) a) ∧
      v = mk ty (as.map fun a => goValue (widen elem) a) := by
  obtain ⟨vs, rfl, hlen, hiff⟩ := decodeArraySlice_forall (P := fun _ => True)
    (fun b v tail hb => iff_of_true trivial (hdec b v tail hb)) h
  obtain ⟨as, has, rfl⟩ := exists_map_eq (hiff.mp fun _ _ _ _ => trivial)
  exact ⟨as, by rwa [List.length_map] at hlen, has, rfl⟩

theorem length_word_of_decode (h : decode t input = .ok r) : (input.take 32).length = 32 := by
  rw [decode.eq_def, Outcome.checked_eq_ok, not_lt] at h
  rw [List.length_take, min_eq_left h.1]

mutual
theorem exists_decoded : (t : Typ) → {input : Bytes} → {v : Val} → {rest : Bytes} → decode t input = .ok (v, rest) →
    ∃ a, HasType (widen t) a ∧ v = goValue (widen t) a
  | .bool, input, v, rest, h => by
    simp only [decode, Outcome.checked_eq_ok, Outcome.bind_eq_ok, Outcome.ok.injEq, Prod.mk.injEq] at h
    obtain ⟨-, val, hval, rfl, -⟩ := h
    unfold decodeBool at hval
    split at hval <;> cases hval
    · exact ⟨.bool false, trivial, rfl⟩
    · exact ⟨.bool true, trivial, rfl⟩
  | .uint size, input, v, rest, h => by
    obtain ⟨n, hn, heq⟩ := readInteger_unsigned_range (length_word_of_decode h) size
    rw [decode, Outcome.checked_eq_ok, Outcome.ok.injEq, Prod.mk.injEq] at h
    exact ⟨.num n, hn, h.2.1.symm.trans heq⟩
  | .int size, input, v, rest, h => by
    obtain ⟨n, hn, heq⟩ := readInteger_signed_range (length_word_of_decode h) size
    rw [decode, Outcome.checked_eq_ok, Outcome.ok.injEq, Prod.mk.injEq] at h
    exact ⟨.num n, hn, h.2.1.symm.trans heq⟩
  | .string, input, v, rest, h | .bytes, input, v, rest, h => by
    simp only [decode, Outcome.checked_eq_ok, Outcome.bind_eq_ok, Outcome.ok.injEq, Prod.mk.injEq] at h
    obtain ⟨-, -, -, b, -, rfl, -⟩ := h
    exact ⟨.data b, trivial, rfl⟩
  | .address, input, v, rest, h => by
    have hword := length_word_of_decode h
    rw [decode, Outcome.checked_eq_ok, readAddr, if_neg (not_not.mpr hword), Outcome.ok_bind, Outcome.ok.injEq,
      Prod.mk.injEq] at h
    exact ⟨.data ((input.take 32).drop 12), by simp [widen, HasType, hword, -List.length_take], h.2.1.symm⟩
  | .fixedBytes size, input, v, rest, h => by
    simp only [decode, readFixedBytes, Outcome.checked_eq_ok, Outcome.bind_eq_ok, Outcome.ok.injEq,
      Prod.mk.injEq] at h
    obtain ⟨-, val, ⟨b, hb, rfl⟩, rfl, -⟩ := h
    exact ⟨.data b, length_of_sliceExpr hb, rfl⟩
  | .function, input, v, rest, h => by
    simp only [decode, readFunctionType, Outcome.checked_eq_ok, Outcome.bind_eq_ok, Outcome.ok.injEq,
      Prod.mk.injEq] at h
    obtain ⟨-, val, ⟨last, -, -, first, hfirst, rfl⟩, rfl, -⟩ := h
    exact ⟨.data first, length_of_sliceExpr hfirst, rfl⟩
  | .slice elem, input, v, rest, h => by
    rw [decode, Outcome.checked_eq_ok, Outcome.bind_eq_ok] at h
    obtain ⟨-, n, -, h⟩ := h
    obtain ⟨as, -, has, rfl⟩ := exists_decoded_elems (fun b v tail hb => exists_decoded elem hb) h
    exact ⟨.seq as, has, by rw [widen, goValue, goType_widen]⟩
  | .array size elem, input, v, rest, h => by
    rw [decode, Outcome.checked_eq_ok] at h
    obtain ⟨as, hsize, has, rfl⟩ := exists_decoded_elems (fun b v tail hb => exists_decoded elem hb) h.2
    exact ⟨.seq as, ⟨hsize, has⟩, by rw [widen, goValue, goType_widen]⟩
  | .tuple name elems, input, v, rest, h => by
    rw [decode, Outcome.checked_eq_ok] at h
    obtain ⟨as, has, rfl⟩ := exists_decoded_fields elems h.2
    exact ⟨.seq as, has, rfl⟩

theorem exists_decoded_fields : (es : TupleElems) → {i : ℕ} → {orig data : Bytes} → {res : List (String × Val)} →
    {v : Val} → {rest : Bytes} → decodeTuple es i orig data res = .ok (v, rest) →
    ∃ as, HaveTypes (widenEach es) as ∧ v = .map (res ++ goFields (widenEach es) i as)
  | .nil, i, orig, data, res, v, rest, h => by
    simp only [decodeTuple, Outcome.ok.injEq, Prod.mk.injEq] at h
    exact ⟨[], trivial, by simp [← h.1, widenEach, goFields]⟩
  | .cons name elem indexed es, i, orig, data, res, v, rest, h => by
    simp only [decodeTuple, Outcome.bind_eq_ok] at h
    obtain ⟨entry, -, ⟨val, tail⟩, hval, data', -, h⟩ := h
    split at h
    · cases h
    · obtain ⟨a, ha, rfl⟩ := exists_decoded elem hval
      obtain ⟨as, has, rfl⟩ := exists_decoded_fields es h
      exact ⟨a :: as, ⟨ha, has⟩, by rw [widenEach, goFields, List.append_assoc, List.singleton_append]⟩
end

/-! ## Names in lower case -/

def TupleElems.names : TupleElems → ℕ → List (String × ℕ)
  | .nil, _ => []
  | .cons name _ _ rest, i => (name, i) :: rest.names (i + 1)

mutual
/-- In every tuple of a type, the keys that `Encode` looks up are distinct. -/
def LowerKeysDistinct : Typ → Prop
  | .slice elem => LowerKeysDistinct elem
  | .array _ elem => LowerKeysDistinct elem
  | .tuple _ elems =>
    ((elems.names 0).map fun p => nameToLowerKey p.1 p.2).Nodup ∧ EachLowerKeysDistinct elems
  | _ => True

def EachLowerKeysDistinct : TupleElems → Prop
  | .nil => True
  | .cons _ elem _ rest => LowerKeysDistinct elem ∧ EachLowerKeysDistinct rest
end

mutual
def LowerNames : Typ → Val → Prop
  | .slice elem, .slice _ vs => ∀ w ∈ vs, LowerNames elem w
  | .array _ elem, .array _ vs => ∀ w ∈ vs, LowerNames elem w
  | .tuple _ elems, .map kvs => LowerFields elems 0 kvs
  | _, _ => True

def LowerFields : TupleElems → ℕ → List (String × Val) → Prop
  | .nil, _, _ => True
  | .cons name elem _ rest, i, kvs =>
    name.toLower = name ∧ (∀ w, kvs.lookup (nameToKey name i) = some w → LowerNames elem w) ∧
      LowerFields rest (i + 1) kvs
end

mutual
/-- Every tuple that decoding `input` meets has its names in lower case: the tuples of a type are met unless
they are the elements of an empty slice. -/
def MeetsLower : Typ → Bytes → Prop
  | .slice elem, input =>
    ∀ n, readLength input = .ok n → ∀ i < n, ∀ entry, entryOf (isDynamicType elem) (input.drop 32)
      ((input.drop 32).drop (i * getTypeSize elem)) = .ok entry → MeetsLower elem entry
  | .array size elem, input =>
    ∀ i < size, ∀ entry, entryOf (isDynamicType elem) input (input.drop (i * getTypeSize elem)) = .ok entry →
      MeetsLower elem entry
  | .tuple _ elems, input => MeetsLowerFields elems input input
  | _, _ => True

def MeetsLowerFields : TupleElems → Bytes → Bytes → Prop
  | .nil, _, _ => True
  | .cons name elem _ rest, orig, data =>
    name.toLower = name ∧ (∀ entry, entryOf (isDynamicType elem) orig data = .ok entry → MeetsLower elem entry) ∧
      MeetsLowerFields rest orig (data.drop (getTypeSize elem))
end

theorem nameToLowerKey_of_lower (h : name.toLower = name) (i : ℕ) : nameToLowerKey name i = nameToKey name i := by
  rw [nameToLowerKey, nameToKey, h]

theorem toLower_toLower (s : String) : s.toLower.toLower = s.toLower := by
  rw [String.toLower, String.toLower, String.map_map]
  congr 1
  funext c
  exact Char.toLower_toLower_eq_toLower c

theorem keys_eq_map : (es : TupleElems) → (i : ℕ) → es.keys i = (es.names i).map fun p => nameToKey p.1 p.2
  | .nil, _ => rfl
  | .cons name _ _ rest, i => by
    rw [TupleElems.keys, TupleElems.names, List.map_cons, keys_eq_map rest]

/-- A key that is another component's key in lower case is also that component's key to look up. -/
theorem nameToLowerKey_eq_of_nameToKey {name' : String} {j : ℕ} (hname : name ≠ "")
    (h : nameToKey name' j = nameToLowerKey name i) : nameToLowerKey name' j = nameToLowerKey name i := by
  by_cases hname' : name' = ""
  · rw [← h, hname', nameToLowerKey, nameToKey, if_pos rfl, if_pos rfl]
  · rw [nameToKey, if_neg hname', nameToLowerKey, if_neg hname] at h
    rw [nameToLowerKey, if_neg hname', nameToLowerKey, if_neg hname, h, toLower_toLower]

/-- Where the keys to look up are distinct, one that is the key of some component is that of its own. -/
theorem toLower_of_mem_keys {names : List (String × ℕ)}
    (hnodup : (names.map fun p => nameToLowerKey p.1 p.2).Nodup) (hmem : (name, i) ∈ names)
    (hkey : nameToLowerKey name i ∈ names.map fun p => nameToKey p.1 p.2) : name.toLower = name := by
  by_cases hname : name = ""
  · simp [hname, String.toLower]
  · obtain ⟨⟨name', j⟩, hmem', heq⟩ := List.mem_map.mp hkey
    have hsame := List.inj_on_of_nodup_map hnodup hmem' hmem (nameToLowerKey_eq_of_nameToKey hname heq)
    rw [Prod.mk.injEq] at hsame
    obtain ⟨rfl, rfl⟩ := hsame
    rw [nameToKey, if_neg hname, nameToLowerKey, if_neg hname] at heq
    exact heq.symm

theorem map_fst_goFields : (es : TupleElems) → {as : List AbiVal} → HaveTypes es as → (i : ℕ) →
    (goFields es i as).map Prod.fst = es.keys i
  | .nil, [], _, _ => rfl
  | .cons name _ _ rest, _ :: _, h, i => by
    rw [goFields, TupleElems.keys, List.map_cons, map_fst_goFields rest h.2]

theorem length_goFields : (es : TupleElems) → {as : List AbiVal} → HaveTypes es as → (i : ℕ) →
    (goFields es i as).length = es.length
  | .nil, [], _, _ => rfl
  | .cons _ _ _ rest, _ :: _, h, i => by
    rw [goFields, TupleElems.length, List.length_cons, length_goFields rest h.2]

/-! ## Names in lower case suffice -/

mutual
theorem denote_goValue : (t : Typ) → WellFormed t → {a : AbiVal} → HasType t a → LowerNames t (goValue t a) →
    denote t (goValue t a) = some a
  | .bool, _, .bool _, _, _ => rfl
  | .uint size, _, .num n, ha, _ => denoteNum_eq_some.mpr ⟨n, integer?_goUint ha.1 ha.2, ha, rfl⟩
  | .int size, _, .num n, ha, _ => denoteNum_eq_some.mpr ⟨n, integer?_goInt ha.1 ha.2, ha, rfl⟩
  | .string, _, .data _, _, _ => rfl
  | .bytes, _, .data bs, _, _ => denote_bytes.mpr ⟨bs, Val.bytes_ofBytes bs, rfl⟩
  | .address, _, .data bs, ha, _ | .fixedBytes _, _, .data bs, ha, _ | .function, _, .data bs, ha, _ =>
    denoteBytes_eq_some.mpr ⟨bs, Val.bytes_ofByteArray bs, ha, rfl⟩
  | .slice elem, hwf, .seq as, ha, hlow => by
    refine denote_slice.mpr ⟨goType elem, _, as, rfl, ?_, rfl⟩
    rw [List.forall₂_map_left_iff, List.forall₂_same]
    intro a hmem
    exact denote_goValue elem hwf (ha a hmem) (hlow _ (List.mem_map_of_mem hmem))
  | .array size elem, hwf, .seq as, ha, hlow => by
    refine denote_array.mpr ⟨goType elem, _, as, rfl, by rw [List.length_map, ha.1], ?_, rfl⟩
    rw [List.forall₂_map_left_iff, List.forall₂_same]
    intro a hmem
    exact denote_goValue elem hwf.2 (ha.2 a hmem) (hlow _ (List.mem_map_of_mem hmem))
  | .tuple name elems, hwf, .seq as, ha, hlow => by
    have hnodup : ((goFields elems 0 as).map Prod.fst).Nodup := by
      rw [map_fst_goFields elems ha]
      exact hwf.2.1
    refine denote_tuple.mpr ⟨.map (goFields elems 0 as), as, rfl, ?_, ?_, rfl⟩
    · simp [Fields.fits, length_goFields elems ha]
    · exact denoteFields_goFields elems hwf.2.2 ha hnodup (fun _ h => h) hlow

theorem denoteFields_goFields : (es : TupleElems) → AllWellFormed es → {as : List AbiVal} → HaveTypes es as →
    {i : ℕ} → {kvs : List (String × Val)} → (kvs.map Prod.fst).Nodup → (∀ e ∈ goFields es i as, e ∈ kvs) →
    LowerFields es i kvs → denoteFields es i (.map kvs) = some as
  | .nil, _, [], _, _, _, _, _, _ => rfl
  | .cons name elem _ rest, hwf, a :: as, ha, i, kvs, hnodup, hsub, hlow => by
    rw [goFields, List.forall_mem_cons] at hsub
    have hown := (lookup_eq_some_iff_mem hnodup).mpr hsub.1
    refine denoteFields_cons.mpr ⟨goValue elem a, ?_, a, ?_, as, ?_, rfl⟩
    · rw [Fields.get, nameToLowerKey_of_lower hlow.1, hown]
    · exact denote_goValue elem hwf.1 ha.1 (hlow.2.1 _ hown)
    · exact denoteFields_goFields rest hwf.2 ha.2 hnodup hsub.2 hlow.2.2
end

/-! ## Names in lower case are necessary -/

mutual
/-- Where the keys to look up are distinct, a value is accepted only if its names are in lower case. -/
theorem lowerNames_of_shaped : (t : Typ) → WellFormed t → LowerKeysDistinct t → {a : AbiVal} → HasType t a →
    Shaped t (goValue t a) → LowerNames t (goValue t a)
  | .bool, _, _, .bool _, _, _ | .string, _, _, .data _, _, _ | .bytes, _, _, .data _, _, _
  | .address, _, _, .data _, _, _ | .fixedBytes _, _, _, .data _, _, _ | .function, _, _, .data _, _, _
  | .uint _, _, _, .num _, _, _ | .int _, _, _, .num _, _, _ => by simp [LowerNames]
  | .slice elem, hwf, hdist, .seq as, ha, hsh => by
    obtain ⟨et, vs, heq, hvs⟩ := hsh
    simp only [goValue, Val.slice.injEq] at heq
    obtain ⟨rfl, rfl⟩ := heq
    intro w hw
    obtain ⟨a, hmem, rfl⟩ := List.mem_map.mp hw
    exact lowerNames_of_shaped elem hwf hdist (ha a hmem) (hvs _ hw)
  | .array size elem, hwf, hdist, .seq as, ha, hsh => by
    obtain ⟨et, vs, heq, -, hvs⟩ := hsh
    simp only [goValue, Val.array.injEq] at heq
    obtain ⟨rfl, rfl⟩ := heq
    intro w hw
    obtain ⟨a, hmem, rfl⟩ := List.mem_map.mp hw
    exact lowerNames_of_shaped elem hwf.2 hdist (ha.2 a hmem) (hvs _ hw)
  | .tuple _ elems, hwf, hdist, .seq as, ha, hsh => by
    obtain ⟨fields, hfields, -, hsh⟩ := hsh
    simp only [goValue, tupleFields, Val.deref, Outcome.ok.injEq] at hfields
    subst hfields
    have hkeys := map_fst_goFields elems ha 0
    have hnodup : ((goFields elems 0 as).map Prod.fst).Nodup := by
      rw [hkeys]
      exact hwf.2.1
    refine lowerFields_of_shaped elems hwf.2.2 hdist.2 ha hnodup (fun _ h => h) ?_ hsh
    intro p hp hkey
    rw [hkeys, keys_eq_map] at hkey
    exact toLower_of_mem_keys hdist.1 hp hkey

theorem lowerFields_of_shaped : (es : TupleElems) → AllWellFormed es → EachLowerKeysDistinct es →
    {as : List AbiVal} → HaveTypes es as → {i : ℕ} → {kvs : List (String × Val)} → (kvs.map Prod.fst).Nodup →
    (∀ e ∈ goFields es i as, e ∈ kvs) →
    (∀ p ∈ es.names i, nameToLowerKey p.1 p.2 ∈ kvs.map Prod.fst → p.1.toLower = p.1) →
    ShapedFields es i (.map kvs) → LowerFields es i kvs
  | .nil, _, _, _, _, _, _, _, _, _, _ => trivial
  | .cons name elem _ rest, hwf, hdist, a :: as, ha, i, kvs, hnodup, hsub, hlow, hsh => by
    rw [goFields, List.forall_mem_cons] at hsub
    rw [TupleElems.names, List.forall_mem_cons] at hlow
    obtain ⟨⟨w, hw, hshape⟩, hrest⟩ := hsh
    rw [Fields.get] at hw
    have hmem : nameToLowerKey name i ∈ kvs.map Prod.fst :=
      List.mem_map_of_mem ((lookup_eq_some_iff_mem hnodup).mp hw)
    have hname := hlow.1 hmem
    have hown := (lookup_eq_some_iff_mem hnodup).mpr hsub.1
    rw [nameToLowerKey_of_lower hname, hown, Option.some.injEq] at hw
    subst hw
    refine ⟨hname, ?_, lowerFields_of_shaped rest hwf.2 hdist.2 ha.2 hnodup hsub.2 hlow.2 hrest⟩
    intro w hw
    rw [hown, Option.some.injEq] at hw
    subst hw
    exact lowerNames_of_shaped elem hwf.1 hdist.1 ha.1 hshape
end

/-! ## The tuples that are met -/

mutual
theorem meetsLower_iff : (t : Typ) → WellFormed t → {input : Bytes} → {v : Val} → {rest : Bytes} →
    decode t input = .ok (v, rest) → (MeetsLower t input ↔ LowerNames t v)
  | .bool, _, input, v, rest, h | .string, _, input, v, rest, h | .bytes, _, input, v, rest, h
  | .address, _, input, v, rest, h | .fixedBytes _, _, input, v, rest, h | .function, _, input, v, rest, h
  | .uint _, _, input, v, rest, h | .int _, _, input, v, rest, h => by simp [MeetsLower, LowerNames]
  | .slice elem, hwf, input, v, rest, h => by
    rw [decode, Outcome.checked_eq_ok, Outcome.bind_eq_ok] at h
    obtain ⟨-, n, hn, h⟩ := h
    obtain ⟨vs, rfl, -, hiff⟩ := decodeArraySlice_forall (fun b v tail hb => meetsLower_iff elem hwf hb) h
    simp only [MeetsLower, LowerNames, hn, Outcome.ok.injEq, forall_eq']
    exact hiff
  | .array size elem, hwf, input, v, rest, h => by
    rw [decode, Outcome.checked_eq_ok] at h
    obtain ⟨vs, rfl, -, hiff⟩ := decodeArraySlice_forall (fun b v tail hb => meetsLower_iff elem hwf.2 hb) h.2
    exact hiff
  | .tuple _ elems, hwf, input, v, rest, h => by
    rw [decode, Outcome.checked_eq_ok] at h
    obtain ⟨kvs, rfl, -, hiff⟩ := meetsLowerFields_iff elems hwf.2.2 h.2 (by simpa using hwf.2.1)
    exact hiff

theorem meetsLowerFields_iff : (es : TupleElems) → AllWellFormed es → {i : ℕ} → {orig data : Bytes} →
    {res : List (String × Val)} → {v : Val} → {rest : Bytes} → decodeTuple es i orig data res = .ok (v, rest) →
    (res.map Prod.fst ++ es.keys i).Nodup →
    ∃ kvs, v = .map kvs ∧ (∃ new, kvs = res ++ new ∧ new.map Prod.fst = es.keys i) ∧
      (MeetsLowerFields es orig data ↔ LowerFields es i kvs)
  | .nil, _, i, orig, data, res, v, rest, h, _ => by
    simp only [decodeTuple, Outcome.ok.injEq, Prod.mk.injEq] at h
    exact ⟨res, h.1.symm, ⟨[], by simp [TupleElems.keys]⟩, by simp [MeetsLowerFields, LowerFields]⟩
  | .cons name elem indexed es, hwf, i, orig, data, res, v, rest, h, hkeys => by
    simp only [decodeTuple, Outcome.bind_eq_ok] at h
    obtain ⟨entry, hentry, ⟨val, tail⟩, hval, data', hdata', h⟩ := h
    rw [restOf_component hentry hval, Outcome.ok.injEq] at hdata'
    subst hdata'
    split at h
    · cases h
    · have hkeys' : ((res ++ [(nameToKey name i, val)]).map Prod.fst ++ es.keys (i + 1)).Nodup := by
        simpa [TupleElems.keys] using hkeys
      obtain ⟨kvs, rfl, ⟨new, rfl, hnew⟩, hiff⟩ := meetsLowerFields_iff es hwf.2 h hkeys'
      have hown : (res ++ [(nameToKey name i, val)] ++ new).lookup (nameToKey name i) = some val := by
        rw [lookup_eq_some_iff_mem]
        · simp
        · rw [List.map_append, hnew]
          exact hkeys'
      refine ⟨_, rfl, ⟨(nameToKey name i, val) :: new, by simp, by simp [TupleElems.keys, hnew]⟩, ?_⟩
      simp only [MeetsLowerFields, LowerFields, hiff, hown, hentry, Outcome.ok.injEq, Option.some.injEq,
        forall_eq', meetsLower_iff elem hwf.1 hval]
end

/-! ## The law -/

/-- A value of a type is encoded, and its encoding, which as a Go byte slice is shorter than `2 ^ 63`, is decoded
to the value again. -/
def Reencodes (t : Typ) (x : Val) : Prop :=
  ∃ bs, Encode x t = .ok bs ∧ (bs.length < 2 ^ 63 → Decode t bs = .ok x)

theorem Decode_eq_ok {x : Val} (h : Decode t input = .ok x) : ∃ rest, decode t input = .ok (x, rest) := by
  rw [Decode, Outcome.checked_eq_ok, Outcome.bind_eq_ok] at h
  obtain ⟨-, ⟨v, rest⟩, hdec, h⟩ := h
  cases h
  exact ⟨rest, hdec⟩

theorem Decode_enc (hwf : WellFormed t) {a : AbiVal} (ha : HasType t a)
    (hlen : (Spec.enc t a).length < 2 ^ 63) : Decode t (Spec.enc t a) = .ok (goValue t a) := by
  obtain ⟨tail, htail, -⟩ := decode_enc t hwf ha [] (by rwa [List.append_nil])
  have h32 := length_enc_ge hwf ha
  have hdec : decode t (Spec.enc t a) = .ok (goValue t a, tail) := by simpa using htail
  rw [Decode, if_neg (by omega), hdec, Outcome.ok_bind]

theorem Encode_widen (t : Typ) (x : Val) : Encode x (widen t) = Encode x t := encode_widen t x

theorem Decode_widen (t : Typ) (input : Bytes) : Decode (widen t) input = Decode t input := by
  rw [Decode, Decode, decode_widen]

mutual
theorem lowerNames_widen : (t : Typ) → (v : Val) → (LowerNames (widen t) v ↔ LowerNames t v)
  | .bool, v | .string, v | .address, v | .bytes, v | .fixedBytes _, v | .function, v
  | .uint _, v | .int _, v => by simp [widen, LowerNames]
  | .slice elem, v | .array _ elem, v => by cases v <;> simp [widen, LowerNames, lowerNames_widen elem]
  | .tuple _ elems, v => by cases v <;> simp [widen, LowerNames, lowerFields_widen elems]

theorem lowerFields_widen : (es : TupleElems) → (i : ℕ) → (kvs : List (String × Val)) →
    (LowerFields (widenEach es) i kvs ↔ LowerFields es i kvs)
  | .nil, _, _ => Iff.rfl
  | .cons name elem _ rest, i, kvs => by
    simp only [widenEach, LowerFields, lowerNames_widen elem, lowerFields_widen rest]
end

theorem names_widen : (es : TupleElems) → (i : ℕ) → (widenEach es).names i = es.names i
  | .nil, _ => rfl
  | .cons _ _ _ rest, i => by rw [widenEach, TupleElems.names, TupleElems.names, names_widen rest]

mutual
theorem lowerKeysDistinct_widen : (t : Typ) → LowerKeysDistinct t → LowerKeysDistinct (widen t)
  | .bool, h | .string, h | .address, h | .bytes, h | .fixedBytes _, h | .function, h | .uint _, h | .int _, h => by
    simp [widen, LowerKeysDistinct]
  | .slice elem, h | .array _ elem, h => lowerKeysDistinct_widen elem h
  | .tuple _ elems, h => by
    rw [widen, LowerKeysDistinct, names_widen]
    exact ⟨h.1, eachLowerKeysDistinct_widen elems h.2⟩

theorem eachLowerKeysDistinct_widen : (es : TupleElems) → EachLowerKeysDistinct es →
    EachLowerKeysDistinct (widenEach es)
  | .nil, _ => trivial
  | .cons _ elem _ rest, h => ⟨lowerKeysDistinct_widen elem h.1, eachLowerKeysDistinct_widen rest h.2⟩
end

/-- A decoded value is encoded again, and that decoded to the same value, if the tuples met have their names in
lower case. Where the keys in lower case are distinct too, only then. -/
theorem reencodes_iff_lower (t : Typ) (hwf : WellFormed t) (input : Bytes) (x : Val) (h : Decode t input = .ok x) :
    (MeetsLower t input → Reencodes t x) ∧ (LowerKeysDistinct t → (Reencodes t x ↔ MeetsLower t input)) := by
  obtain ⟨rest, hdec⟩ := Decode_eq_ok h
  obtain ⟨a, ha, rfl⟩ := exists_decoded t hdec
  have hwf' := wellFormed_widen t hwf
  have hmeets := (meetsLower_iff t hwf hdec).trans (lowerNames_widen t _).symm
  have hsuff : MeetsLower t input → Reencodes t (goValue (widen t) a) := by
    intro hlow
    have hden := denote_goValue (widen t) hwf' ha (hmeets.mp hlow)
    refine ⟨Spec.enc (widen t) a, ?_, ?_⟩
    · rw [← Encode_widen]
      exact Encode_eq_spec (widen t) hwf' _ a hden
    · intro hlen
      rw [← Decode_widen]
      exact Decode_enc hwf' ha hlen
  refine ⟨hsuff, fun hdist => ⟨?_, hsuff⟩⟩
  rintro ⟨bs, henc, -⟩
  rw [← Encode_widen] at henc
  have hshaped := (encode_accepts (widen t) _).mp ⟨bs, henc⟩
  exact hmeets.mpr (lowerNames_of_shaped (widen t) hwf' (lowerKeysDistinct_widen t hdist) ha hshaped)

def oneField (name : String) : Typ := .tuple "" (.cons name (.uint 8) false .nil)

theorem oneField_wellFormed (name : String) : WellFormed (oneField name) := by
  simp [oneField, WellFormed, AllWellFormed, TupleElems.keys]

theorem Decode_oneField (name : String) :
    Decode (oneField name) (List.replicate 32 0) = .ok (.map [(nameToKey name 0, .uint8 0)]) := rfl

theorem reencodes_iff_lower_a : Reencodes (oneField "a") (.map [("a", .uint8 0)]) := by
  have hlow : MeetsLower (oneField "a") (List.replicate 32 0) := by
    refine ⟨?_, fun entry _ => ?_, trivial⟩
    · rw [← String.toList_inj, String.toLower, String.toList_map]
      rfl
    · simp [MeetsLower]
  exact (reencodes_iff_lower (oneField "a") (oneField_wellFormed "a") _ _ (Decode_oneField "a")).1 hlow

/-- `tuple(uint8 A)`: the decoded map has the key `A`, and the encoder looks for `a`. -/
theorem reencode_misses_capital : WellFormed (oneField "A") ∧ LowerKeysDistinct (oneField "A") ∧
      Decode (oneField "A") (List.replicate 32 0) = .ok (.map [("A", .uint8 0)]) ∧
      Encode (.map [("A", .uint8 0)]) (oneField "A") = .err "cannot get key a" := by
  have hkey : nameToLowerKey "A" 0 = "a" := by
    rw [nameToLowerKey, if_neg (by decide), ← String.toList_inj, String.toLower, String.toList_map]
    rfl
  refine ⟨oneField_wellFormed "A", ?_, Decode_oneField "A", ?_⟩
  · simp [oneField, LowerKeysDistinct, EachLowerKeysDistinct, TupleElems.names]
  · simp [Encode, oneField, encode, tupleFields, Val.deref, Fields.len, TupleElems.length, encodeTuple, Fields.get,
      hkey, List.lookup]

end Web3.Abi
