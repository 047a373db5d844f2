import Web3.Foundations.Checkpoints
import Web3.Vm.Calls

/-! # The database as maps

The methods of `statedb.go` on maps from addresses to accounts and slots: what they do when every read
and write of a record is exact. Snapshots are the checkpoints of the maps. -/

namespace Web3.Vm
open Storage (U256 StorageLog)

structure MapAccount where
  Nonce : UInt64
  Balance : U256
  Code : Bytes
  CodeHash : Hash

namespace MapAccount

def zero : MapAccount := { Nonce := 0, Balance := 0, Code := [], CodeHash := Hash.zero }

def isEmpty (a : MapAccount) : Bool := a.Nonce = 0 ∧ a.CodeHash = Hash.zero

end MapAccount

structure Maps where
  account : Address → MapAccount
  storage : Address → Hash → Hash
  committed : Address → Hash → Hash
  Suicided : Address → Bool
  logs : List StorageLog
  refund : UInt64

abbrev MapDB := Checkpointed Maps

namespace MapDB

def read {α : Type} (r : Maps → α) : DbM MapDB α := .read fun d => r d.current

def modify (u : Maps → Maps) : DbM MapDB Unit := .modify fun d => { d with current := u d.current }

def updateAccount (addr : Address) (u : MapAccount → MapAccount) : DbM MapDB Unit :=
  modify fun m => { m with account := Function.update m.account addr (u (m.account addr)) }

def setState (contract : Address) (key value : Hash) : DbM MapDB Unit :=
  modify fun m =>
    let slots := Function.update (m.storage contract) key value
    { m with storage := Function.update m.storage contract slots }

def subRefund (gas : UInt64) : DbM MapDB Unit := do
  let refund ← read Maps.refund
  if gas > refund then
    .halt s!"Refund counter below zero (gas: {gas} > refund: {refund})"
  else modify fun m => { m with refund := m.refund - gas }

def suicide (addr : Address) : DbM MapDB Bool := do
  let acct ← read fun m => m.account addr
  if acct.isEmpty then return false
  else do
    modify fun m => { m with Suicided := Function.update m.Suicided addr true }
    updateAccount addr fun a => { a with Balance := 0 }
    return true

def exist (m : Maps) (addr : Address) : Bool :=
  m.Suicided addr || !(m.account addr).isEmpty || decide ((m.account addr).Balance.toNat > 0)

def empty (m : Maps) (addr : Address) : Bool :=
  (m.account addr).isEmpty && decide ((m.account addr).Balance.toNat = 0)

def snapshot : DbM MapDB ℤ := do
  let id ← .read fun d => d.saved.length
  .modify Checkpointed.save
  return id

def revertToSnapshot (idx : ℤ) : DbM MapDB Unit := fun d =>
  match d.restore idx with
  | some d => .ok () d
  | none => .stop (if idx + 1 > d.saved.length then "can not to revert snapshot" else "index out of range")

end MapDB

open MapDB in
/-- New accounts and preimages are not recorded. -/
def mapDB (keccak256 : Bytes → Hash) : StateDB MapDB where
  createAccount _ := pure ()
  subBalance addr val := updateAccount addr fun a => { a with Balance := a.Balance - U256.fromBig val }
  addBalance addr val := updateAccount addr fun a => { a with Balance := a.Balance + U256.fromBig val }
  getBalance addr := read fun m => (m.account addr).Balance.toNat
  getNonce addr := read fun m => (m.account addr).Nonce
  setNonce addr nonce := updateAccount addr fun a => { a with Nonce := nonce }
  getCodeHash addr := read fun m => (m.account addr).CodeHash
  getCode addr := read fun m => (m.account addr).Code
  setCode addr code := updateAccount addr fun a => { a with CodeHash := keccak256 code, Code := code }
  getCodeSize addr := read fun m => (m.account addr).Code.length
  addRefund gas := modify fun m => { m with refund := m.refund + gas }
  subRefund := subRefund
  getRefund := read Maps.refund
  getCommittedState addr key := read fun m => m.committed addr key
  getState contract key := read fun m => m.storage contract key
  setState := setState
  suicide := suicide
  HasSuicided addr := read fun m => m.Suicided addr
  exist addr := read fun m => exist m addr
  empty addr := read fun m => MapDB.empty m addr
  revertToSnapshot := revertToSnapshot
  snapshot := snapshot
  addLog log := modify fun m => { m with logs := m.logs ++ [log] }
  addPreimage _ _ := pure ()

/-! ## An example -/

def istanbulRules : Rules where
  IsHomestead := true
  IsEIP150 := true
  IsEIP158 := true
  IsByzantium := true
  IsConstantinople := true
  IsPetersburg := true
  IsIstanbul := true
  IsYoloV2 := false

def sampleAddress (n : ℕ) : Address := bytesToAddress [UInt8.ofNat n]

/-- An EVM with the identity precompile at address 4. Hashes and new addresses do not matter. -/
def sampleEvm : Evm MapDB where
  StateDB := mapDB fun _ => bytesToHash [1]
  chainRules := istanbulRules
  NoRecursion := false
  EnablePreimageRecording := false
  getHash _ := Hash.zero
  Coinbase := Address.zero
  GasLimit := 10000000
  BlockNumber := 1
  Time := 1
  Difficulty := 1
  Origin := sampleAddress 1
  GasPrice := 1
  ChainID := 1
  precompile addr := if addr = sampleAddress 4 then some Evm.dataCopy else none
  keccak256 _ := bytesToHash [1]
  createAddress _ _ := sampleAddress 2
  createAddress2 _ _ _ := sampleAddress 2

def sampleMaps (code : Bytes) : Maps where
  account := Function.update (fun _ => MapAccount.zero) (sampleAddress 3)
    { Nonce := 1, Balance := 0, Code := code, CodeHash := bytesToHash [1] }
  storage _ _ := Hash.zero
  committed _ _ := Hash.zero
  Suicided _ := false
  logs := []
  refund := 0

def sampleInterp (code : Bytes) : Interp MapDB where
  db := { current := sampleMaps code, saved := [] }
  depth := 0
  callGasTemp := 0
  readOnly := false
  returnData := []
  jumpdests := []
  gasOps := []

def sampleContract (code : Bytes) : Contract where
  CallerAddress := sampleAddress 1
  self := sampleAddress 3
  Code := code
  CodeHash := bytesToHash [1]
  Input := []
  value := 0

end Web3.Vm
