import Web3.Vm.Machine

/-! # Contracts

The code that a frame runs, with its caller, its input and its value (`contract.go`), and the analysis
that tells instructions from the data of `PUSH` instructions (`analysis.go`). -/

namespace Web3.Vm
open Storage (U256)

/-- What a contract knows of its caller: an account, or a contract with its own caller and value. -/
inductive ContractRef where
  | account (addr : Address)
  | contract (self CallerAddress : Address) (value : ℤ)

def ContractRef.address : ContractRef → Web3.Address
  | account addr => addr
  | contract self _ _ => self

def ContractRef.isAccount : ContractRef → Bool
  | account _ => true
  | contract .. => false

/-- A contract without its gas and its caches of the analysis, which change during a run. -/
structure Contract where
  CallerAddress : Address
  self : Address
  Code : Bytes
  CodeHash : Hash
  Input : Bytes
  value : ℤ

namespace Contract

def address (c : Contract) : Web3.Address := c.self

def ref (c : Contract) : ContractRef := .contract c.self c.CallerAddress c.value

def getByte (c : Contract) (n : UInt64) : UInt8 := (c.Code[n.toNat]?).getD 0

def getOp (c : Contract) (n : UInt64) : UInt8 := c.getByte n

end Contract

/-! ## Analysis -/

abbrev OpCode := UInt8

def OpCode.JUMPDEST : OpCode := 0x5b

def OpCode.BEGINSUB : OpCode := 0x5c

def OpCode.PUSH1 : OpCode := 0x60

def OpCode.PUSH32 : OpCode := 0x7f

/-- A bit for each byte of the code, which is set for data. -/
abbrev Bitvec := Bytes

namespace Bitvec

def orAt (bits : Bitvec) (i : ℕ) (mask : UInt8) : Except String Bitvec :=
  match bits[i]? with
  | some b => .ok (bits.set i (b ||| mask))
  | none => .error "index out of range"

def set (bits : Bitvec) (pos : ℕ) : Except String Bitvec :=
  orAt bits (pos / 8) (0x80 >>> UInt8.ofNat (pos % 8))

def set8 (bits : Bitvec) (pos : ℕ) : Except String Bitvec := do
  let bits ← orAt bits (pos / 8) (0xff >>> UInt8.ofNat (pos % 8))
  orAt bits (pos / 8 + 1) (~~~(0xff >>> UInt8.ofNat (pos % 8)))

def codeSegment (bits : Bitvec) (pos : ℕ) : Except String Bool :=
  match bits[pos / 8]? with
  | some b => .ok (b &&& (0x80 >>> UInt8.ofNat (pos % 8)) == 0)
  | none => .error "index out of range"

/-- The two inner loops of `codeBitmap`: eight bits at a time, and then one at a time. -/
def setData (bits : Bitvec) (pc numbits : ℕ) : Except String Bitvec := do
  let bits ← (List.range (numbits / 8)).foldlM (fun bits i => set8 bits (pc + 8 * i)) bits
  (List.range (numbits % 8)).foldlM (fun bits i => set bits (pc + 8 * (numbits / 8) + i)) bits

end Bitvec

/-- The loop of `codeBitmap`, which moves on by at least one byte each time. -/
def codeBitmapFrom (code : Bytes) : ℕ → ℕ → Bitvec → Except String Bitvec
  | 0, _, bits => .ok bits
  | n + 1, pc, bits =>
    match code[pc]? with
    | none => .ok bits
    | some op =>
      if OpCode.PUSH1 ≤ op ∧ op ≤ OpCode.PUSH32 then do
        let numbits := (op - OpCode.PUSH1 + 1).toNat
        let bits ← Bitvec.setData bits (pc + 1) numbits
        codeBitmapFrom code n (pc + 1 + numbits) bits
      else codeBitmapFrom code n (pc + 1) bits

def codeBitmap (code : Bytes) : Except String Bitvec :=
  codeBitmapFrom code code.length 0 (List.replicate (code.length / 8 + 1 + 4) 0)

end Web3.Vm
