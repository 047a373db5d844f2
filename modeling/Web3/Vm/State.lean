import Web3.Storage.World
import Web3.Vm.Contract

/-! # The state of the EVM

The interface `StateDB` (`interface.go`), the parts of an `EVM` that stay as they are during a
transaction and the ones that change, and the frames of the interpreter. The programs of the parts are
made into programs of a frame by `onMachine`, `onEvm` and `onDb`, so that what they leave alone can be
read off their types. The additions and subtractions of gas are recorded (`GasOp`). -/

namespace Web3.Vm
open Storage (U256 StorageLog)

/-! ## The database -/

/-- Methods of a database with states `σ`; they may panic. -/
abbrev DbM (σ : Type) := Prog σ Empty String

structure StateDB (σ : Type) where
  createAccount : Address → DbM σ Unit
  subBalance : Address → ℤ → DbM σ Unit
  addBalance : Address → ℤ → DbM σ Unit
  getBalance : Address → DbM σ ℤ
  getNonce : Address → DbM σ UInt64
  setNonce : Address → UInt64 → DbM σ Unit
  getCodeHash : Address → DbM σ Hash
  getCode : Address → DbM σ Bytes
  setCode : Address → Bytes → DbM σ Unit
  getCodeSize : Address → DbM σ ℕ
  addRefund : UInt64 → DbM σ Unit
  subRefund : UInt64 → DbM σ Unit
  getRefund : DbM σ UInt64
  getCommittedState : Address → Hash → DbM σ Hash
  getState : Address → Hash → DbM σ Hash
  setState : Address → Hash → Hash → DbM σ Unit
  suicide : Address → DbM σ Bool
  HasSuicided : Address → DbM σ Bool
  exist : Address → DbM σ Bool
  empty : Address → DbM σ Bool
  revertToSnapshot : ℤ → DbM σ Unit
  snapshot : DbM σ ℤ
  addLog : StorageLog → DbM σ Unit
  addPreimage : Hash → Bytes → DbM σ Unit

namespace StateDB
variable {σ : Type}

def canTransfer (db : StateDB σ) (addr : Address) (amount : ℤ) : DbM σ Bool := do
  let balance ← db.getBalance addr
  return decide (balance ≥ amount)

def transfer (db : StateDB σ) (sender recipient : Address) (amount : ℤ) : DbM σ Unit := do
  db.subBalance sender amount
  db.addBalance recipient amount

end StateDB

/-! ## The EVM -/

/-- The chain rules that the EVM looks at. -/
structure Rules where
  IsHomestead : Bool
  IsEIP150 : Bool
  IsEIP158 : Bool
  IsByzantium : Bool
  IsConstantinople : Bool
  IsPetersburg : Bool
  IsIstanbul : Bool
  IsYoloV2 : Bool

/-- The slice that a callee returns: bytes of its own, or the slice it was given as input. -/
inductive Returned where
  | fresh (bs : Bytes)
  | input
  deriving DecidableEq

def Returned.bytes (input : Bytes) : Returned → Bytes
  | fresh bs => bs
  | .input => input

structure PrecompiledContract where
  requiredGas : Bytes → UInt64
  run : Bytes → Returned × Option VmError

/-- What stays as it is: the database, the rules, the configuration, the block, the transaction, and
the functions of other packages. -/
structure Evm (σ : Type) where
  StateDB : StateDB σ
  chainRules : Rules
  NoRecursion : Bool
  EnablePreimageRecording : Bool
  getHash : UInt64 → Hash
  Coinbase : Address
  GasLimit : UInt64
  BlockNumber : ℤ
  Time : ℤ
  Difficulty : ℤ
  Origin : Address
  GasPrice : ℤ
  ChainID : ℤ
  precompile : Address → Option PrecompiledContract
  keccak256 : Bytes → Hash
  createAddress : Address → UInt64 → Address
  createAddress2 : Address → Hash → Hash → Address

/-- An operation on an amount of gas: a sum, a difference, or the difference that `callGas` makes. -/
inductive GasOp where
  | add (x y : UInt64)
  | sub (x y : UInt64)
  | available (x y : UInt64)

/-- It does not wrap around. -/
def GasOp.Exact : GasOp → Prop
  | add x y => x.toNat + y.toNat < 2 ^ 64
  | sub x y => y ≤ x
  | available x y => y ≤ x

/-- What changes: the database, the fields of the EVM and its interpreter, the analyses that a contract
shares with its callees, and the record of the operations on gas. -/
structure Interp (σ : Type) where
  db : σ
  depth : ℕ
  callGasTemp : UInt64
  readOnly : Bool
  returnData : Bytes
  jumpdests : List (Hash × Bitvec)
  gasOps : List GasOp

/-- A frame: the machine, the gas of the contract, its own analysis, and the EVM. -/
structure Frame (σ : Type) where
  machine : Machine
  Gas : UInt64
  analysis : Option Bitvec
  interp : Interp σ

/-- Why a program does not end: a panic, or no fuel left for the model to go on. -/
inductive Stop where
  | panic (msg : String)
  | outOfFuel
  deriving DecidableEq

abbrev EvmM (σ : Type) := Prog (Interp σ) Empty Stop

abbrev ExecM (σ : Type) := Prog (Frame σ) VmError Stop

section Programs
variable {σ α : Type}

namespace EvmM

def onDb (m : DbM σ α) : EvmM σ α :=
  m.zoom Interp.db (fun db i => { i with db }) Empty.elim .panic

def addGas (x y : UInt64) : EvmM σ UInt64 := do
  .modify fun i => { i with gasOps := .add x y :: i.gasOps }
  return x + y

def subGas (x y : UInt64) : EvmM σ UInt64 := do
  .modify fun i => { i with gasOps := .sub x y :: i.gasOps }
  return x - y

def availableGas (x y : UInt64) : EvmM σ UInt64 := do
  .modify fun i => { i with gasOps := .available x y :: i.gasOps }
  return x - y

end EvmM

namespace ExecM

def onMachine (m : MachineM α) : ExecM σ α :=
  m.zoom Frame.machine (fun machine f => { f with machine }) id .panic

def onEvm (m : EvmM σ α) : ExecM σ α :=
  m.zoom Frame.interp (fun interp f => { f with interp }) Empty.elim id

def onDb (m : DbM σ α) : ExecM σ α := onEvm (EvmM.onDb m)

def useGas (gas : UInt64) : ExecM σ Bool := do
  let left ← .read Frame.Gas
  if left < gas then return false
  else do
    let rest ← onEvm (EvmM.subGas left gas)
    .modify fun f => { f with Gas := rest }
    return true

def returnGas (gas : UInt64) : ExecM σ Unit := do
  let left ← .read Frame.Gas
  let sum ← onEvm (EvmM.addGas left gas)
  .modify fun f => { f with Gas := sum }

/-! ## Jump destinations -/

def sharedAnalysis (c : Contract) : ExecM σ Bitvec := do
  let shared ← .read fun f : Frame σ => f.interp.jumpdests.lookup c.CodeHash
  match shared with
  | some analysis => return analysis
  | none => do
    let analysis ← onMachine (.ofExcept (codeBitmap c.Code))
    onEvm (.modify fun i => { i with jumpdests := (c.CodeHash, analysis) :: i.jumpdests })
    return analysis

def isCode (c : Contract) (udest : ℕ) : ExecM σ Bool := do
  let cached ← .read Frame.analysis
  match cached with
  | some analysis => onMachine (.ofExcept (analysis.codeSegment udest))
  | none => do
    let analysis ← (if c.CodeHash ≠ Hash.zero then sharedAnalysis c else onMachine (.ofExcept (codeBitmap c.Code)))
    .modify fun f => { f with analysis := some analysis }
    onMachine (.ofExcept (analysis.codeSegment udest))

def validJumpdest (c : Contract) (dest : U256) : ExecM σ Bool :=
  if !U256.isUint64 dest || dest.toNat ≥ c.Code.length then return false
  else if c.getOp (U256.uint64 dest) ≠ OpCode.JUMPDEST then return false
  else isCode c dest.toNat

def validJumpSubdest (c : Contract) (udest : UInt64) : ExecM σ Bool :=
  if toInt udest < 0 ∨ udest.toNat ≥ c.Code.length then return false
  else if c.getOp udest ≠ OpCode.BEGINSUB then return false
  else isCode c udest.toNat

end ExecM

end Programs

end Web3.Vm
