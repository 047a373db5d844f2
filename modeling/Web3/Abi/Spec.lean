import Web3.Foundations.HeadTail
import Web3.Foundations.Lists
import Web3.Abi.Encode

/-! # The Solidity ABI specification

Values and their encoding as the ABI specification defines them, without reference to Go or to the
encoder of this package. `Spec.enc` is the specification's `enc`, `Spec.Dynamic` its notion of a
dynamic type, and `HasType` says which values a type has. `denote` relates the two worlds: the
abstract value that a Go value stands for at a type, if any. -/

namespace Web3.Abi
open HeadTail

/-- An ABI value: a boolean, a number, a byte string (for `address`, `bytes`, `string`, `bytesN`
and `function`), or a sequence (for arrays and tuples). -/
inductive AbiVal where
  | bool (b : Bool)
  | num (n : ℤ)
  | data (bs : Bytes)
  | seq (vs : List AbiVal)

mutual
def HasType : Typ → AbiVal → Prop
  | .bool, .bool _ => True
  | .uint size, .num n => 0 ≤ n ∧ n < 2 ^ size
  | .int size, .num n => -2 ^ (size - 1) ≤ n ∧ n < 2 ^ (size - 1)
  | .string, .data _ => True
  | .bytes, .data _ => True
  | .address, .data bs => bs.length = 20
  | .fixedBytes size, .data bs => bs.length = size
  | .function, .data bs => bs.length = 24
  | .slice elem, .seq vs => ∀ v ∈ vs, HasType elem v
  | .array size elem, .seq vs => vs.length = size ∧ ∀ v ∈ vs, HasType elem v
  | .tuple _ elems, .seq vs => HaveTypes elems vs
  | _, _ => False

def HaveTypes : TupleElems → List AbiVal → Prop
  | .nil, [] => True
  | .cons _ elem _ rest, v :: vs => HasType elem v ∧ HaveTypes rest vs
  | _, _ => False
end

namespace Spec

mutual
/-- Dynamic types: `bytes`, `string`, `T[]` for any `T`, `T[k]` for a dynamic `T`, and tuples with a
dynamic component. -/
def dynamic : Typ → Bool
  | .bytes => true
  | .string => true
  | .slice _ => true
  | .array _ elem => dynamic elem
  | .tuple _ elems => anyDynamic elems
  | _ => false

def anyDynamic : TupleElems → Bool
  | .nil => false
  | .cons _ elem _ rest => dynamic elem || anyDynamic rest
end

def intWord (n : ℤ) : Bytes := word (n % 2 ^ 256).toNat

def padRight (bs : Bytes) : Bytes := bs ++ List.replicate ((32 - bs.length % 32) % 32) 0

mutual
def enc : Typ → AbiVal → Bytes
  | .bool, .bool b => intWord (if b then 1 else 0)
  | .uint _, .num n => intWord n
  | .int _, .num n => intWord n
  | .address, .data bs => List.replicate 12 0 ++ bs
  | .fixedBytes _, .data bs => padRight bs
  | .function, .data bs => padRight bs
  | .bytes, .data bs => word bs.length ++ padRight bs
  | .string, .data bs => word bs.length ++ padRight bs
  | .slice elem, .seq vs =>
    word vs.length ++ layout (vs.map fun v => ⟨dynamic elem, enc elem v⟩)
  | .array _ elem, .seq vs => layout (vs.map fun v => ⟨dynamic elem, enc elem v⟩)
  | .tuple _ elems, .seq vs => layout (parts elems vs)
  | _, _ => []

def parts : TupleElems → List AbiVal → List Part
  | .cons _ elem _ rest, v :: vs => ⟨dynamic elem, enc elem v⟩ :: parts rest vs
  | _, _ => []
end

end Spec

/-! ## The value a Go value stands for -/

/-- Whether looked-up components make a tuple with `n` components: a list has exactly `n`. -/
def Fields.fits : Fields → ℕ → Bool
  | .list vs, n => vs.length = n
  | .map kvs, n => n ≤ kvs.length

def denoteNum (lo hi : ℤ) (v : Val) : Option AbiVal := do
  let n ← v.integer?
  if lo ≤ n ∧ n < hi then some (.num n) else none

def denoteBytes (size : ℕ) (v : Val) : Option AbiVal := do
  let bs ← v.bytes?
  if bs.length = size then some (.data bs) else none

mutual
/-- The ABI value of a Go value at a type; `none` if the Go value does not inhabit the type. -/
def denote : Typ → Val → Option AbiVal
  | .bool, v =>
    match v with
    | .bool b => some (.bool b)
    | _ => none
  | .uint size, v => denoteNum 0 (2 ^ size) v
  | .int size, v => denoteNum (-2 ^ (size - 1)) (2 ^ (size - 1)) v
  | .string, v =>
    match v with
    | .string s => some (.data s)
    | _ => none
  | .bytes, v => v.bytes?.map .data
  | .address, v => denoteBytes 20 v
  | .fixedBytes size, v => denoteBytes size v
  | .function, v => denoteBytes 24 v
  | .slice elem, v =>
    match v with
    | .slice _ vs => (vs.mapM fun w => denote elem w).map .seq
    | _ => none
  | .array size elem, v =>
    match v with
    | .array _ vs => if vs.length = size then (vs.mapM fun w => denote elem w).map .seq else none
    | _ => none
  | .tuple _ elems, v =>
    match tupleFields v with
    | .ok fields =>
      if fields.fits elems.length then (denoteFields elems 0 fields).map .seq else none
    | _ => none

def denoteFields : TupleElems → ℕ → Fields → Option (List AbiVal)
  | .nil, _, _ => some []
  | .cons name elem _ rest, i, fields => do
    let v ← fields.get name i
    let a ← denote elem v
    let as ← denoteFields rest (i + 1) fields
    some (a :: as)
end

/-! ## Inversion -/

variable {v : Val} {a : AbiVal} {size : ℕ} {elem : Typ} {name : String}

theorem denoteNum_eq_some {lo hi : ℤ} :
    denoteNum lo hi v = some a ↔ ∃ n, v.integer? = some n ∧ (lo ≤ n ∧ n < hi) ∧ .num n = a := by
  simp only [denoteNum, Option.bind_eq_bind, Option.bind_eq_some_iff, Option.ite_none_right_eq_some, Option.some.injEq]

theorem denoteBytes_eq_some :
    denoteBytes size v = some a ↔ ∃ bs, v.bytes = .ok bs ∧ bs.length = size ∧ .data bs = a := by
  simp only [denoteBytes, Option.bind_eq_bind, Option.bind_eq_some_iff,
    Option.ite_none_right_eq_some, Option.some.injEq, Val.bytes?_eq_some]

theorem denote_bool : denote .bool v = some a ↔ ∃ b, v = .bool b ∧ .bool b = a := by
  cases v <;> simp [denote]

theorem denote_string : denote .string v = some a ↔ ∃ s, v = .string s ∧ .data s = a := by
  cases v <;> simp [denote]

theorem denote_bytes : denote .bytes v = some a ↔ ∃ bs, v.bytes = .ok bs ∧ .data bs = a := by
  simp only [denote, Option.map_eq_some_iff, Val.bytes?_eq_some]

theorem denote_slice :
    denote (.slice elem) v = some a ↔ ∃ et vs as, v = .slice et vs ∧
      List.Forall₂ (fun w b => denote elem w = some b) vs as ∧ .seq as = a := by
  cases v <;> simp [denote, mapM_eq_some_iff]

theorem denote_array :
    denote (.array size elem) v = some a ↔ ∃ et vs as, v = .array et vs ∧ vs.length = size ∧
      List.Forall₂ (fun w b => denote elem w = some b) vs as ∧ .seq as = a := by
  cases v <;> simp [denote, mapM_eq_some_iff]

theorem denote_tuple {elems : TupleElems} :
    denote (.tuple name elems) v = some a ↔ ∃ fields as, tupleFields v = .ok fields ∧
      fields.fits elems.length = true ∧ denoteFields elems 0 fields = some as ∧ .seq as = a := by
  rw [denote]
  cases tupleFields v <;> simp

theorem denoteFields_cons {indexed : Bool} {rest : TupleElems} {i : ℕ} {fields : Fields} {as : List AbiVal} :
    denoteFields (.cons name elem indexed rest) i fields = some as ↔ ∃ v, fields.get name i = some v ∧
      ∃ b, denote elem v = some b ∧ ∃ bs, denoteFields rest (i + 1) fields = some bs ∧ b :: bs = as := by
  simp only [denoteFields, Option.bind_eq_bind, Option.bind_eq_some_iff, Option.some.injEq]

/-! ## Agreement of the two notions of dynamic -/

mutual
theorem dynamic_eq : (t : Typ) → Spec.dynamic t = isDynamicType t
  | .bool | .uint _ | .int _ | .string | .slice _ | .address | .bytes | .fixedBytes _
  | .function => rfl
  | .array _ elem => by
    rw [Spec.dynamic, isDynamicType, dynamic_eq elem]
  | .tuple _ elems => by
    rw [Spec.dynamic, isDynamicType, anyDynamic_eq elems]

theorem anyDynamic_eq : (es : TupleElems) → Spec.anyDynamic es = anyDynamicType es
  | .nil => rfl
  | .cons _ elem _ rest => by
    rw [Spec.anyDynamic, anyDynamicType, dynamic_eq elem, anyDynamic_eq rest]
end

end Web3.Abi
