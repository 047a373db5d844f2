import Web3.Primitives
import Web3.Foundations.Outcome

/-! # Account records

`utils/codec` as far as account records need it, and the records themselves (`EthAccount` in
`statedb.go`). A `ZeroCopySource` is the list of its unread bytes, a `ZeroCopySink` the list of the
bytes written so far; a balance is a `uint256.Int`, of which an account may have a nil pointer. -/

namespace Web3.Storage

def leBytes (k n : ℕ) : Bytes := (beBytes k n).reverse

def ofLeBytes (bs : Bytes) : ℕ := ofBytes bs.reverse

/-! ## Reading -/

abbrev Source := Bytes

namespace Source

def nextBytes (s : Source) (n : ℕ) : Bytes × Bool × Source := (s.take n, n > s.length, s.drop n)

def nextByte (s : Source) : UInt8 × Bool × Source :=
  match s with
  | [] => (0, true, [])
  | b :: s => (b, false, s)

def nextUint (k : ℕ) (s : Source) : ℕ × Bool × Source :=
  match s.nextBytes k with
  | (_, true, s) => (0, true, s)
  | (buf, false, s) => (ofLeBytes buf, false, s)

def getVarUintSize (value : ℕ) : ℕ :=
  if value < 0xfd then 1 else if value ≤ 0xffff then 3 else if value ≤ 0xFFFFFFFF then 5 else 9

/-- The result of `NextVarUint` and `NextVarBytes`. -/
structure VarResult (α : Type) where
  data : α
  size : ℕ
  irregular : Bool
  eof : Bool

def nextVarUintOf (k : ℕ) (s : Source) : VarResult ℕ × Source :=
  match nextUint k s with
  | (_, true, s) => (⟨0, 0, false, true⟩, s)
  | (data, false, s) => (⟨data, k + 1, k + 1 != getVarUintSize data, false⟩, s)

def nextVarUint (s : Source) : VarResult ℕ × Source :=
  match s.nextByte with
  | (_, true, s) => (⟨0, 0, false, true⟩, s)
  | (0xFD, false, s) => nextVarUintOf 2 s
  | (0xFE, false, s) => nextVarUintOf 4 s
  | (0xFF, false, s) => nextVarUintOf 8 s
  | (fb, false, s) => (⟨fb.toNat, 1, 1 != getVarUintSize fb.toNat, false⟩, s)

def nextVarBytes (s : Source) : VarResult Bytes × Source :=
  match s.nextVarUint with
  | (r, s) =>
    let size := r.size + r.data
    if r.data > 0 then
      match s.nextBytes r.data with
      | (data, eof, s) => (⟨data, size, r.irregular, eof⟩, s)
    else (⟨[], size, r.irregular, r.eof⟩, s)

def readVarBytes (s : Source) : Outcome Bytes × Source :=
  match s.nextVarBytes with
  | (r, s) =>
    if r.irregular then (.err "irregular data", s)
    else if r.eof then (.err "unexpected EOF", s)
    else (.ok r.data, s)

def nextHash (s : Source) : Hash × Bool × Source :=
  match s.nextBytes 32 with
  | (_, true, s) => (Hash.zero, true, s)
  | (buf, false, s) => (bytesToHash buf, false, s)

end Source

/-! ## Writing -/

def varUintBytes (data : ℕ) : Bytes :=
  if data < 0xFD then [UInt8.ofNat data]
  else if data ≤ 0xFFFF then 0xFD :: leBytes 2 data
  else if data ≤ 0xFFFFFFFF then 0xFE :: leBytes 4 data
  else 0xFF :: leBytes 8 data

def varBytes (data : Bytes) : Bytes := varUintBytes data.length ++ data

/-! ## Accounts -/

abbrev U256 := BitVec 256

/-- `uint256.FromBig`: the number modulo `2 ^ 256`. -/
def U256.fromBig (n : ℤ) : U256 := BitVec.ofInt 256 n

structure EthAccount where
  Nonce : UInt64
  Balance : Option U256
  Code : Bytes
  CodeHash : Hash

def EthAccount.zero : EthAccount := { Nonce := 0, Balance := none, Code := [], CodeHash := Hash.zero }

namespace EthAccount

def isEmpty (a : EthAccount) : Bool := a.Nonce = 0 && a.CodeHash = Hash.zero

/-- The message of a nil pointer dereference. -/
def nilPointer : String := "runtime error: invalid memory address or nil pointer dereference"

def balance (a : EthAccount) : Outcome U256 :=
  match a.Balance with
  | some b => .ok b
  | none => .panic nilPointer

def serialization (a : EthAccount) : Outcome Bytes := do
  let balance ← a.balance
  .ok (leBytes 8 a.Nonce.toNat ++ beBytes 32 balance.toNat ++ varBytes a.Code ++ a.CodeHash.1)

def setBytes32 (bs : Bytes) : Outcome U256 :=
  if 32 ≤ bs.length then .ok (BitVec.ofNat 256 (ofBytes (bs.take 32)))
  else .panic "runtime error: index out of range"

/-- A record without a balance word panics; one with a malformed code field has no code. -/
def deserialization (source : Source) : Outcome EthAccount := do
  let (nonce, _, source) := source.nextUint 8
  let (bs, _, source) := source.nextBytes 32
  let balance ← setBytes32 bs
  let (code, source) := source.readVarBytes
  let (hash, eof, _) := source.nextHash
  if eof then .err "unexpected EOF"
  else
    .ok
      { Nonce := UInt64.ofNat nonce
        Balance := some balance
        Code := match code with
          | .ok data => data
          | _ => []
        CodeHash := hash }

end EthAccount
end Web3.Storage
