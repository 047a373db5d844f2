import Web3.Foundations.Lists
import Web3.Abi.Decode

/-! # Where the decoder panics

`Decode` on arbitrary bytes. Three slice expressions are not covered by the checks before them:

* `readLength` bounds the length of a `string` or `bytes` by the whole slice, the length word
  included, and `input[32 : 32+length]` reaches 32 bytes further;
* `decodeTuple` reads the offset of a dynamic component from the heads that are left, without a
  check that a word is left (`decodeArraySlice` has such a check);
* `readFixedBytes` takes `size` bytes, and `NewType` accepts sizes above 32.

Nor is the memory that `decodeArraySlice` allocates: a few words are enough for a length of 2, and the
element type may be an array with any number of elements.

`Readable` says which bytes decode at a type, and `Covered` that none of the four is met at any component
that decoding reaches. The decoder returns exactly on the inputs that are covered. -/

namespace Web3.Abi

/-! ## Readable inputs -/

/-- The number in the first word. -/
def firstWord (data : Bytes) : ℕ := ofBytes (data.take 32)

/-- The bytes of a component whose head is at the start of `data`: they start there, or at the offset that
the head holds. -/
def entryAt (isDynamic : Bool) (orig data : Bytes) : Option Bytes :=
  if isDynamic then
    if 32 ≤ data.length ∧ firstWord data < 2 ^ 63 ∧ firstWord data ≤ orig.length then
      some (orig.drop (firstWord data))
    else none
  else some data

/-- Every one of `n` components of a type is at its place, with heads that start at `data`. -/
def Each (P : Bytes → Prop) (elem : Typ) (orig : Bytes) : ℕ → Bytes → Prop
  | 0, _ => True
  | n + 1, data => (∃ entry ∈ entryAt (isDynamicType elem) orig data, P entry) ∧
      Each P elem orig n (data.drop (getTypeSize elem))

mutual
/-- The bytes at the start of `input` are those of a value of a type. -/
def Readable [Runtime] : Typ → Bytes → Prop
  | .bool, input => input[31]? = some 0 ∨ input[31]? = some 1
  | .uint _, input | .int _, input | .address, input => 32 ≤ input.length
  | .function, input => 32 ≤ input.length ∧ allZeros ((input.take 32).drop 24) = true
  | .fixedBytes size, input => 32 ≤ input.length ∧ size ≤ input.length
  | .string, input | .bytes, input => firstWord input < 2 ^ 63 ∧ 32 + firstWord input ≤ input.length
  | .slice elem, input => firstWord input < 2 ^ 63 ∧ 32 + 32 * firstWord input ≤ input.length ∧
      Runtime.allocates (firstWord input * goSize (goType elem)) ∧
        Each (fun b => Readable elem b) elem (input.drop 32) (firstWord input) (input.drop 32)
  | .array size elem, input => 32 ≤ input.length ∧ 32 * size ≤ input.length ∧
      Runtime.allocates (size * goSize (goType elem)) ∧ Each (fun b => Readable elem b) elem input size input
  | .tuple _ elems, input => 32 ≤ input.length ∧ ReadableFields elems 0 input input []

/-- The same for the components of a tuple from index `i` on, with their heads at `data`; `keys` are the
keys of the components before them. -/
def ReadableFields [Runtime] : TupleElems → ℕ → Bytes → Bytes → List String → Prop
  | .nil, _, _, _, _ => True
  | .cons name elem _ rest, i, orig, data, keys =>
    (∃ entry ∈ entryAt (isDynamicType elem) orig data, Readable elem entry) ∧ nameToKey name i ∉ keys ∧
      ReadableFields rest (i + 1) orig (data.drop (getTypeSize elem)) (keys ++ [nameToKey name i])
end

/-! ## Covered inputs -/

/-- Every one of `n` components that is reached: one is reached when those before it are readable. -/
def EachReached (P Q : Bytes → Prop) (elem : Typ) (orig : Bytes) : ℕ → Bytes → Prop
  | 0, _ => True
  | n + 1, data => (∀ entry ∈ entryAt (isDynamicType elem) orig data, Q entry) ∧
      ((∃ entry ∈ entryAt (isDynamicType elem) orig data, P entry) →
        EachReached P Q elem orig n (data.drop (getTypeSize elem)))

mutual
/-- Every slice expression that decoding `input` at a type evaluates is in range, and every allocation
succeeds. -/
def Covered [Runtime] : Typ → Bytes → Prop
  | .bool, _ | .uint _, _ | .int _, _ | .address, _ | .function, _ => True
  | .string, input | .bytes, input => 32 ≤ input.length → firstWord input < 2 ^ 63 → firstWord input ≤ input.length →
      32 + firstWord input ≤ input.length
  | .fixedBytes size, input => 32 ≤ input.length → size ≤ input.length
  | .slice elem, input => firstWord input < 2 ^ 63 → 32 + 32 * firstWord input ≤ input.length →
      Runtime.allocates (firstWord input * goSize (goType elem)) ∧
        EachReached (Readable elem) (fun b => Covered elem b) elem (input.drop 32) (firstWord input)
          (input.drop 32)
  | .array size elem, input => 32 ≤ input.length → 32 * size ≤ input.length →
      Runtime.allocates (size * goSize (goType elem)) ∧
        EachReached (Readable elem) (fun b => Covered elem b) elem input size input
  | .tuple _ elems, input => 32 ≤ input.length → CoveredFields elems 0 input input []

/-- The same for the components of a tuple. A component is reached when those before it are readable and
have distinct keys. -/
def CoveredFields [Runtime] : TupleElems → ℕ → Bytes → Bytes → List String → Prop
  | .nil, _, _, _, _ => True
  | .cons name elem _ rest, i, orig, data, keys =>
    (isDynamicType elem = true → 32 ≤ data.length) ∧
      (∀ entry ∈ entryAt (isDynamicType elem) orig data, Covered elem entry) ∧
      ((∃ entry ∈ entryAt (isDynamicType elem) orig data, Readable elem entry) → nameToKey name i ∉ keys →
        CoveredFields rest (i + 1) orig (data.drop (getTypeSize elem)) (keys ++ [nameToKey name i]))
end

/-! ## Slice expressions -/

variable {data orig entry tail rest input : Bytes} {len n size : ℕ} {dyn : Bool}
  {mk : GoType → List Val → Val} {v : Val} {elem : Typ}

/-- The checks that `readOffset` and `readLength` make on a number. -/
theorem guarded_eq_ok {w : ℕ} {large insufficient : String} :
    (if bitLen w > 63 then .err large else if w > len then .err insufficient else .ok w) = Outcome.ok n ↔
      w = n ∧ w < 2 ^ 63 ∧ w ≤ len := by
  have hbits := bitLen_le_iff w 63
  split
  · simp only [reduceCtorEq, false_iff]
    omega
  · split
    · simp only [reduceCtorEq, false_iff]
      omega
    · simp only [Outcome.ok.injEq]
      omega

theorem guarded_returns {w : ℕ} {large insufficient : String} :
    (if bitLen w > 63 then .err large else if w > len then .err insufficient else Outcome.ok w).Returns := by
  split
  · trivial
  · split <;> trivial

theorem sliceExpr_short (h : ¬32 ≤ data.length) :
    sliceExpr data 0 32 = .panic "runtime error: slice bounds out of range" := by
  rw [sliceExpr, if_neg (by omega)]

theorem readOffset_returns : (readOffset data len).Returns ↔ 32 ≤ data.length := by
  by_cases h : 32 ≤ data.length
  · rw [readOffset, sliceExpr_word h, Outcome.map_ok, Outcome.ok_bind]
    exact iff_of_true guarded_returns h
  · rw [readOffset, sliceExpr_short h]
    exact iff_of_false id h

theorem readLength_returns (h : 32 ≤ data.length) : (readLength data).Returns := by
  rw [readLength, sliceExpr_word h, Outcome.map_ok, Outcome.ok_bind]
  exact guarded_returns

theorem readOffset_eq_ok (h : 32 ≤ data.length) :
    readOffset data len = .ok n ↔ firstWord data = n ∧ firstWord data < 2 ^ 63 ∧ firstWord data ≤ len := by
  rw [readOffset, sliceExpr_word h, Outcome.map_ok, Outcome.ok_bind]
  exact guarded_eq_ok

theorem readLength_eq_ok (h : 32 ≤ data.length) :
    readLength data = .ok n ↔ firstWord data = n ∧ firstWord data < 2 ^ 63 ∧ firstWord data ≤ data.length := by
  rw [readLength, sliceExpr_word h, Outcome.map_ok, Outcome.ok_bind]
  exact guarded_eq_ok

theorem entryOf_returns : (entryOf dyn orig data).Returns ↔ (dyn = true → 32 ≤ data.length) := by
  cases dyn with
  | false => simp [entryOf]
  | true =>
    rw [entryOf, if_pos rfl, Outcome.returns_bind, readOffset_returns]
    constructor
    · exact fun h _ => h.1
    · refine fun h => ⟨h rfl, fun off hoff => ?_⟩
      obtain ⟨rfl, -, hle⟩ := (readOffset_eq_ok (h rfl)).mp hoff
      rw [sliceExpr_suffix hle]
      trivial

theorem entryOf_eq_ok : entryOf dyn orig data = .ok entry ↔ entryAt dyn orig data = some entry := by
  cases dyn with
  | false => simp [entryOf, entryAt]
  | true =>
    rw [entryOf, if_pos rfl, entryAt, if_pos rfl]
    by_cases h : 32 ≤ data.length ∧ firstWord data < 2 ^ 63 ∧ firstWord data ≤ orig.length
    · rw [if_pos h, (readOffset_eq_ok h.1).mpr ⟨rfl, h.2⟩, Outcome.ok_bind, sliceExpr_suffix h.2.2]
      simp
    · rw [if_neg h, Outcome.bind_eq_ok]
      refine iff_of_false ?_ nofun
      rintro ⟨off, hoff, -⟩
      have hlen := readOffset_returns.mp (hoff ▸ Outcome.returns_ok off)
      exact h ⟨hlen, ((readOffset_eq_ok hlen).mp hoff).2⟩

theorem entryOf_static (h : entryOf false orig data = .ok entry) : entry = data := by
  simpa [entryOf] using h.symm

/-! ## One word -/

theorem sliceExpr_decided {lo hi : ℕ} :
    (sliceExpr data lo hi).Decided (lo ≤ hi ∧ hi ≤ data.length) (lo ≤ hi ∧ hi ≤ data.length) := by
  unfold sliceExpr
  split
  next h => exact (Outcome.Decided.of_ok _).congr (iff_of_true trivial h) (iff_of_true trivial h)
  next h => exact ⟨by simp [h], by simp [h]⟩

theorem readLength_bind_decided {α : Type} {k : ℕ → Outcome α} {p q : Prop} (h : 32 ≤ data.length)
    (hk : (k (firstWord data)).Decided p q) : (readLength data >>= k).Decided
      ((firstWord data < 2 ^ 63 ∧ firstWord data ≤ data.length) ∧ p)
      (firstWord data < 2 ^ 63 ∧ firstWord data ≤ data.length → q) := by
  have hlength : (readLength data).Decided (firstWord data < 2 ^ 63 ∧ firstWord data ≤ data.length) True := by
    refine ⟨?_, iff_of_true (readLength_returns h) trivial⟩
    simp only [readLength_eq_ok h, exists_eq_left']
  refine (hlength.bind fun n hn => ?_).congr Iff.rfl (by rw [true_and])
  obtain ⟨rfl, -⟩ := (readLength_eq_ok h).mp hn
  exact hk

theorem decodeBool_decided (h : data.length = 32) :
    (decodeBool data).Decided (data[31]? = some 0 ∨ data[31]? = some 1) True := by
  have hsome : data[31]? ≠ none := by simp [h]
  unfold decodeBool
  split
  · contradiction
  · next h => simpa [h] using Outcome.Decided.of_ok _
  · next h => simpa [h] using Outcome.Decided.of_ok _
  · exact (Outcome.Decided.of_err _).congr (by simp_all) Iff.rfl

theorem readFunctionType_decided (h : data.length = 32) :
    (readFunctionType data).Decided (allZeros (data.drop 24) = true) True := by
  rw [readFunctionType, sliceExpr_ok (by omega) h.ge, Outcome.ok_bind, sliceExpr_ok (by omega) (by omega),
    Outcome.ok_bind, ← h, List.take_length]
  exact .checked (by simp) (by simp) fun hzero => (Outcome.Decided.of_ok _).congr (by simpa using hzero) Iff.rfl

/-- A value that is read from the first word. -/
theorem word_decided {x : Outcome Val} {p q : Prop} (h : x.Decided p q) :
    (do let val ← x; .ok (val, input.drop 32)).Decided p q :=
  (h.bind fun _ _ => .of_ok _).congr (and_true p).to_iff (by simp)

theorem bytes_decided (mk : Bytes → Val) (h : 32 ≤ input.length) : (do
      let length ← readLength input
      let b ← sliceExpr input 32 (32 + length)
      Outcome.ok (mk b, input.drop 32)).Decided
      (firstWord input < 2 ^ 63 ∧ 32 + firstWord input ≤ input.length)
      (32 ≤ input.length → firstWord input < 2 ^ 63 → firstWord input ≤ input.length →
        32 + firstWord input ≤ input.length) := by
  have hslice : (sliceExpr input 32 (32 + firstWord input)).Decided (32 + firstWord input ≤ input.length)
      (32 + firstWord input ≤ input.length) := sliceExpr_decided.congr (by omega) (by omega)
  exact (readLength_bind_decided h (hslice.bind fun _ _ => .of_ok _)).congr (by simp; omega) (by tauto)

/-! ## What a component consumes -/

/-- `rest` is what follows the first `size` bytes of `data`. -/
def Consumes (size : ℕ) (data rest : Bytes) : Prop := size ≤ data.length ∧ rest = data.drop size

theorem Consumes.trans {m : ℕ} {a b c : Bytes} (h₁ : Consumes m a b) (h₂ : Consumes n b c) :
    Consumes (m + n) a c := by
  obtain ⟨hm, rfl⟩ := h₁
  obtain ⟨hn, rfl⟩ := h₂
  rw [List.length_drop] at hn
  exact ⟨by omega, List.drop_drop⟩

/-- The heads behind a component, which are behind its own bytes or behind its offset. -/
theorem restOf_consumes (hentry : entryOf dyn orig data = .ok entry)
    (hsize : dyn = true → size = 32) (hstat : dyn = false → Consumes size entry tail) :
    Consumes size data (data.drop size) ∧ restOf dyn data tail = .ok (data.drop size) := by
  cases dyn with
  | false =>
    obtain ⟨hle, rfl⟩ := hstat rfl
    rw [entryOf_static hentry] at hle ⊢
    exact ⟨⟨hle, rfl⟩, rfl⟩
  | true =>
    have hlen := entryOf_returns.mp (hentry ▸ Outcome.returns_ok entry) rfl
    rw [restOf, if_pos rfl, sliceExpr_suffix hlen, hsize rfl]
    exact ⟨⟨hlen, rfl⟩, rfl⟩

theorem decodeElems_consumes {dec : Bytes → Outcome (Val × Bytes)} {dyn : Bool} {orig : Bytes} {size : ℕ}
    (hsize : dyn = true → size = 32) (hdec : dyn = false → ∀ b v tail, dec b = .ok (v, tail) → Consumes size b tail) :
    ∀ (n : ℕ) (data : Bytes) (res vals : List Val) (rest : Bytes),
      decodeElems dec dyn orig n data res = .ok (vals, rest) → Consumes (n * size) data rest
  | 0, data, res, vals, rest, h => by
    cases h
    exact ⟨by rw [Nat.zero_mul]; exact Nat.zero_le _, by rw [Nat.zero_mul, List.drop_zero]⟩
  | n + 1, data, res, vals, rest, h => by
    simp only [decodeElems, Outcome.bind_eq_ok] at h
    obtain ⟨entry, hentry, ⟨v, tail⟩, hval, data', hdata', h⟩ := h
    obtain ⟨hhead, hrest⟩ := restOf_consumes hentry hsize fun hs => hdec hs entry v tail hval
    rw [hrest] at hdata'
    cases hdata'
    rw [Nat.succ_mul, Nat.add_comm]
    exact hhead.trans (decodeElems_consumes hsize hdec n _ _ vals rest h)

theorem word_consumes {x : Outcome Val} {e : String} (h : (if input.length < 32 then .err e else (do
      let val ← x
      .ok (val, input.drop 32))) = Outcome.ok (v, rest)) : Consumes 32 input rest := by
  rw [Outcome.checked_eq_ok, Outcome.bind_eq_ok] at h
  obtain ⟨hlen, val, -, h⟩ := h
  cases h
  exact ⟨not_lt.mp hlen, rfl⟩

section Allocation
variable [Runtime]

theorem allocate_decided : (allocate n).Decided (Runtime.allocates n) (Runtime.allocates n) := by
  unfold allocate
  split
  next h => exact ⟨by simp [h], by simp [h]⟩
  next h => exact ⟨by simp [h], by simp [h]⟩

theorem decodeArraySlice_consumes {dec : Bytes → Outcome (Val × Bytes)} (hsize : dyn = true → size = 32)
    (hdec : dyn = false → ∀ b v tail, dec b = .ok (v, tail) → Consumes size b tail)
    {ty : GoType} (h : decodeArraySlice dec dyn mk ty data n = .ok (v, rest)) : Consumes (n * size) data rest := by
  simp only [decodeArraySlice, Outcome.checked_eq_ok, Outcome.bind_eq_ok] at h
  obtain ⟨-, -, -, ⟨vals, rest⟩, helems, h⟩ := h
  cases h
  exact decodeElems_consumes hsize hdec n data [] vals rest helems

mutual
theorem decode_consumes : (t : Typ) → isDynamicType t = false → (input : Bytes) → (v : Val) →
    (rest : Bytes) → decode t input = .ok (v, rest) → Consumes (getTypeSize t) input rest
  | .string, hs, _, _, _, _ | .bytes, hs, _, _, _, _ | .slice _, hs, _, _, _, _ => by
    simp [isDynamicType] at hs
  | .bool, _, input, v, rest, h | .address, _, input, v, rest, h
  | .fixedBytes _, _, input, v, rest, h | .function, _, input, v, rest, h => by
    rw [decode] at h
    exact word_consumes h
  | .uint size, _, input, v, rest, h | .int size, _, input, v, rest, h => by
    rw [decode] at h
    exact word_consumes (x := .ok (readInteger _ size (input.take 32))) h
  | .array size elem, hs, input, v, rest, h => by
    have hs' : isDynamicType elem = false := by simpa [isDynamicType] using hs
    rw [decode, Outcome.checked_eq_ok] at h
    rw [getTypeSize_array_static hs']
    exact decodeArraySlice_consumes getTypeSize_of_dynamic (fun _ b => decode_consumes elem hs' b) h.2
  | .tuple name elems, hs, input, v, rest, h => by
    have hs' : anyDynamicType elems = false := by simpa [isDynamicType] using hs
    rw [decode, Outcome.checked_eq_ok] at h
    rw [getTypeSize_tuple_static hs']
    exact decodeTuple_consumes elems 0 input input [] v rest h.2

theorem decodeTuple_consumes : (es : TupleElems) → (i : ℕ) → (orig data : Bytes) → (res : List (String × Val)) →
    (v : Val) → (rest : Bytes) → decodeTuple es i orig data res = .ok (v, rest) → Consumes (getTypeSizes es) data rest
  | .nil, i, orig, data, res, v, rest, h => by
    cases h
    exact ⟨Nat.zero_le _, rfl⟩
  | .cons name elem indexed es, i, orig, data, res, v, rest, h => by
    simp only [decodeTuple, Outcome.bind_eq_ok] at h
    obtain ⟨entry, hentry, ⟨val, tail⟩, hval, data', hdata', h⟩ := h
    obtain ⟨hhead, hrest⟩ := restOf_consumes hentry getTypeSize_of_dynamic fun hs => decode_consumes elem hs entry val tail hval
    rw [hrest] at hdata'
    cases hdata'
    rw [Outcome.checked_eq_ok] at h
    exact hhead.trans (decodeTuple_consumes es (i + 1) orig _ _ v rest h.2)
end

/-! ## The decoder succeeds exactly on readable inputs, and returns exactly on covered ones -/

theorem restOf_component (hentry : entryOf (isDynamicType elem) orig data = .ok entry)
    (hval : decode elem entry = .ok (v, tail)) :
    restOf (isDynamicType elem) data tail = .ok (data.drop (getTypeSize elem)) :=
  (restOf_consumes hentry getTypeSize_of_dynamic fun hs => decode_consumes elem hs entry v tail hval).2

section Component
variable {P Q : Bytes → Prop} (hdecode : ∀ b, (decode elem b).Decided (P b) (Q b))
include hdecode

/-- One component of an array, a slice or a tuple, and what is done with its value and the heads behind it. -/
theorem component_decided {k : Val → Bytes → Outcome (α × Bytes)} {p q : Prop}
    (hk : ∀ val, (k val (data.drop (getTypeSize elem))).Decided p q) : (do
      let entry ← entryOf (isDynamicType elem) orig data
      let (val, tail) ← decode elem entry
      let data ← restOf (isDynamicType elem) data tail
      k val data).Decided
      ((∃ entry ∈ entryAt (isDynamicType elem) orig data, P entry) ∧ p)
      ((isDynamicType elem = true → 32 ≤ data.length) ∧
        (∀ entry ∈ entryAt (isDynamicType elem) orig data, Q entry) ∧
        ((∃ entry ∈ entryAt (isDynamicType elem) orig data, P entry) → q)) := by
  have hentry : (entryOf (isDynamicType elem) orig data).Decided
      (∃ entry, entryAt (isDynamicType elem) orig data = some entry) (isDynamicType elem = true → 32 ≤ data.length) :=
    ⟨by simp only [entryOf_eq_ok], entryOf_returns⟩
  cases hat : entryAt (isDynamicType elem) orig data with
  | none =>
    refine (hentry.bind (r := True) (s := True) fun entry he => ?_).congr (by simp [hat]) (by simp)
    rw [entryOf_eq_ok, hat] at he
    cases he
  | some entry =>
    have he := entryOf_eq_ok.mpr hat
    refine (hentry.bind (r := P entry ∧ p) (s := Q entry ∧ (P entry → q)) fun a ha => ?_).congr (by simp [hat])
      (by simp [hat])
    cases he.symm.trans ha
    refine (hdecode entry).bind ?_
    rintro ⟨val, tail⟩ hval
    dsimp only
    rw [restOf_component he hval]
    exact hk val

/-- The loop of `decodeArraySlice`. -/
theorem decodeElems_decided (orig : Bytes) : ∀ (n : ℕ) (data : Bytes) (res : List Val),
    (isDynamicType elem = true → 32 * n ≤ data.length) →
      (decodeElems (fun b => decode elem b) (isDynamicType elem) orig n data res).Decided
        (Each P elem orig n data) (EachReached P Q elem orig n data)
  | 0, data, res, _ => .of_ok _
  | n + 1, data, res, hlen => by
    have hlen' : isDynamicType elem = true → 32 * n ≤ (data.drop (getTypeSize elem)).length := by
      intro hd
      have := hlen hd
      rw [getTypeSize_of_dynamic hd, List.length_drop]
      omega
    have ih := fun val => decodeElems_decided orig n (data.drop (getTypeSize elem)) (res ++ [val]) hlen'
    refine (component_decided (k := fun val data => decodeElems _ _ orig n data (res ++ [val])) hdecode ih).congr
      Iff.rfl (and_iff_right fun hd => ?_)
    have := hlen hd
    omega

theorem decodeArraySlice_decided {ty : GoType} :
    (decodeArraySlice (fun b => decode elem b) (isDynamicType elem) mk ty data size).Decided
      (32 * size ≤ data.length ∧ Runtime.allocates (size * goSize ty) ∧ Each P elem data size data)
      (32 * size ≤ data.length → Runtime.allocates (size * goSize ty) ∧ EachReached P Q elem data size data) := by
  rw [decodeArraySlice]
  refine .checked (fun h => not_lt.mpr h.1) (fun hlt hle => absurd hlt (not_lt.mpr hle)) fun hle => ?_
  rw [gt_iff_lt, not_lt] at hle
  have helems := decodeElems_decided hdecode data size data [] fun _ => hle
  exact (allocate_decided.bind fun _ _ => helems.bind fun _ _ => .of_ok _).congr (by tauto) (by tauto)

end Component

mutual
theorem decode_decided : (t : Typ) → (input : Bytes) → (decode t input).Decided (Readable t input) (Covered t input)
  | .bool, input => by
    rw [decode, Readable, Covered]
    refine .checked ?_ (fun _ => trivial) fun h => word_decided ?_
    · contrapose!
      intro h
      simp [List.getElem?_eq_none (show input.length ≤ 31 by omega)]
    · have hbool : (decodeBool (input.take 32)).Decided _ _ := decodeBool_decided (by rw [List.length_take]; omega)
      rwa [List.getElem?_take_of_lt (by decide)] at hbool
  | .uint size, input | .int size, input => by
    rw [decode, Readable, Covered]
    exact .checked (by omega) (fun _ => trivial) fun h => (Outcome.Decided.of_ok _).congr (by simpa using h) Iff.rfl
  | .address, input => by
    rw [decode, Readable, Covered, readAddr]
    refine .checked (by omega) (fun _ => trivial) fun h => ?_
    rw [if_neg (by rw [List.length_take]; omega)]
    exact (Outcome.Decided.of_ok _).congr (by simpa using h) Iff.rfl
  | .function, input => by
    rw [decode, Readable, Covered]
    refine .checked (by omega) (fun _ => trivial) fun h => word_decided ?_
    rw [and_iff_right (by omega)]
    exact readFunctionType_decided (by rw [List.length_take]; omega)
  | .fixedBytes size, input => by
    rw [decode, Readable, Covered]
    refine .checked (by omega) (by omega) fun h => word_decided ?_
    exact (sliceExpr_decided.bind fun _ _ => .of_ok _).congr (by simp; omega) (by simp; omega)
  | .string, input => by
    rw [decode, Readable, Covered]
    exact .checked (by omega) (by omega) fun h => bytes_decided .string (by omega)
  | .bytes, input => by
    rw [decode, Readable, Covered]
    exact .checked (by omega) (by omega) fun h => bytes_decided .ofBytes (by omega)
  | .slice elem, input => by
    rw [decode, Readable, Covered]
    refine .checked (by omega) (fun _ _ _ => by omega) fun h => ?_
    have hlen : 32 ≤ input.length := by omega
    have hslice : (decodeArraySlice (fun b => decode elem b) (isDynamicType elem) .slice (goType elem) (input.drop 32)
      (firstWord input)).Decided _ _ := decodeArraySlice_decided (decode_decided elem)
    have hroom : 32 * firstWord input ≤ (input.drop 32).length ↔ 32 + 32 * firstWord input ≤ input.length := by
      rw [List.length_drop]
      omega
    have hle : 32 + 32 * firstWord input ≤ input.length → firstWord input ≤ input.length := by omega
    rw [hroom] at hslice
    exact (readLength_bind_decided hlen hslice).congr (by tauto) (by tauto)
  | .array size elem, input => by
    rw [decode, Readable, Covered]
    refine .checked (by omega) (fun _ _ => by omega) fun h => ?_
    exact (decodeArraySlice_decided (decode_decided elem)).congr (by simp; omega) (by simp; omega)
  | .tuple name elems, input => by
    rw [decode, Readable, Covered]
    refine .checked (by omega) (fun _ _ => by omega) fun h => ?_
    exact (decodeTuple_decided elems 0 input input []).congr (by simp; omega) (by simp; omega)

theorem decodeTuple_decided : (es : TupleElems) → (i : ℕ) → (orig data : Bytes) → (res : List (String × Val)) →
    (decodeTuple es i orig data res).Decided (ReadableFields es i orig data (res.map Prod.fst))
      (CoveredFields es i orig data (res.map Prod.fst))
  | .nil, i, orig, data, res => .of_ok _
  | .cons name elem indexed rest, i, orig, data, res => by
    have ih := fun val => decodeTuple_decided rest (i + 1) orig (data.drop (getTypeSize elem))
      (res ++ [(nameToKey name i, val)])
    simp only [List.map_append, List.map_singleton] at ih
    have hkey : (res.lookup (nameToKey name i)).isSome ↔ nameToKey name i ∈ res.map Prod.fst := by
      rw [← not_iff_not, Option.not_isSome_iff_eq_none, lookup_eq_none_iff_not_mem]
    rw [decodeTuple, ReadableFields, CoveredFields]
    refine component_decided (k := fun val data => if (res.lookup (nameToKey name i)).isSome then _
      else decodeTuple rest (i + 1) orig data (res ++ [(nameToKey name i, val)])) (decode_decided elem) fun val => ?_
    refine .checked (fun h => mt hkey.mp h.1) (fun hc hn => absurd (hkey.mp hc) hn) fun hnot => ?_
    have hnew := mt hkey.mpr hnot
    exact (ih val).congr (and_iff_right hnew).symm (imp_iff_right hnew).symm
end

theorem decode_eq_ok (t : Typ) (input : Bytes) : (∃ r, decode t input = .ok r) ↔ Readable t input :=
  (decode_decided t input).ok

end Allocation

/-- **Where the decoder is total.** On every type and every input, and whatever the runtime can allocate,
`Decode` returns a value or an error exactly when the input is covered. -/
theorem Decode_returns_iff [Runtime] (t : Typ) (input : Bytes) : (Decode t input).Returns ↔ Covered t input := by
  rw [← (decode_decided t input).returns]
  by_cases h : input.length = 0
  · rw [Decode, if_pos h, decode.eq_def, if_pos (by omega)]
    simp
  · rw [Decode, if_neg h, Outcome.returns_bind]
    simp

/-- Two elements of almost `2 ^ 64` bytes each. -/
example : ¬ (@Decode ⟨fun size => size ≤ 2 ^ 48⟩ (.slice (.array 4294967295 (.array 4294967295 (.uint 8))))
    (beBytes 32 2 ++ List.replicate 64 0)).Returns := by
  decide +kernel

/-- One word that holds the length 1, decoded as `bytes`: there is no byte behind the word. -/
theorem Decode_bytes_panics : ¬ (Decode .bytes (List.replicate 31 0 ++ [1])).Returns := by
  decide +kernel

end Web3.Abi
