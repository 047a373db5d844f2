import Web3.Vm.State

/-! # Calls and creations

`Call`, `CallCode`, `DelegateCall`, `StaticCall`, `Create` and `Create2` of `evm.go`, over the function
`run` that runs a contract. The tracer is left out, since it only watches. -/

namespace Web3.Vm

structure RunResult where
  ret : Bytes
  err : Option VmError
  gas : UInt64

/-- `Run` of the interpreter, on a contract with the given input, flag and gas. -/
abbrev RunFn (σ : Type) := Contract → Bytes → Bool → UInt64 → EvmM σ RunResult

structure CallResult where
  ret : Returned
  gas : UInt64
  err : Option VmError

def CallResult.empty (gas : UInt64) (err : Option VmError) : CallResult := { ret := .fresh [], gas, err }

def RunResult.toCall (r : RunResult) : CallResult := { ret := .fresh r.ret, gas := r.gas, err := r.err }

def callCreateDepth : ℕ := 1024

def maxCodeSize : ℕ := 24576

def createDataGas : UInt64 := 200

namespace Evm
open EvmM
variable {σ : Type}

def runPrecompiledContract (p : PrecompiledContract) (input : Bytes) (suppliedGas : UInt64) : EvmM σ CallResult :=
  let gasCost := p.requiredGas input
  if suppliedGas < gasCost then return .empty 0 (some .errOutOfGas)
  else do
    let left ← subGas suppliedGas gasCost
    let (output, err) := p.run input
    return { ret := output, gas := left, err }

def dataCopy : PrecompiledContract where
  requiredGas input := UInt64.ofNat (input.length + 31) / 32 * 3 + 15
  run _ := (.input, none)

/-- A contract called from an account starts with no analyses; one called from a contract shares them.
Code and input are set later. -/
def newContract (caller : ContractRef) (object : Address) (value : ℤ) : EvmM σ Contract := do
  .when caller.isAccount (.modify fun i => { i with jumpdests := [] })
  return { CallerAddress := caller.address, self := object, Code := [], CodeHash := Hash.zero,
           Input := [], value }

def asDelegate (caller : ContractRef) (c : Contract) : EvmM σ Contract :=
  match caller with
  | .account _ => .halt (.panic "interface conversion: ContractRef is AccountRef, not *Contract")
  | .contract _ CallerAddress value => return { c with CallerAddress, value }

/-! ## Calls -/

variable (vm : Evm σ)

def withinLimits (gas : UInt64) (body : EvmM σ CallResult) : EvmM σ CallResult := do
  let depth ← .read Interp.depth
  if vm.NoRecursion ∧ depth > 0 then return .empty gas none
  else if depth > callCreateDepth then return .empty gas (some .errDepth)
  else body

/-- On an error the state is reverted, and the gas is consumed unless execution was reverted. -/
def settleCall (snapshot : ℤ) (r : CallResult) : EvmM σ CallResult :=
  match r.err with
  | none => return r
  | some e => do
    onDb (vm.StateDB.revertToSnapshot snapshot)
    return { r with gas := if e = .errExecutionReverted then r.gas else 0 }

/-- The precompiled contract at the address, or else a contract with the code found there. -/
def runCode (run : RunFn σ) (contract : EvmM σ Contract) (addr : Address) (input : Bytes)
    (readOnly : Bool) (gas : UInt64) : EvmM σ CallResult :=
  match vm.precompile addr with
  | some p => runPrecompiledContract p input gas
  | none => do
    let c ← contract
    let CodeHash ← onDb (vm.StateDB.getCodeHash addr)
    let Code ← onDb (vm.StateDB.getCode addr)
    let r ← run { c with Code, CodeHash, Input := input } input readOnly gas
    return r.toCall

variable (vm : Evm σ) (run : RunFn σ) (caller : ContractRef) (addr : Address) (input : Bytes) (gas : UInt64)

/-- What `Call` runs: unlike the others, it does not run empty code. -/
def runCalled (value : ℤ) : EvmM σ CallResult :=
  match vm.precompile addr with
  | some p => runPrecompiledContract p input gas
  | none => do
    let Code ← onDb (vm.StateDB.getCode addr)
    if Code.length = 0 then return .empty gas none
    else do
      let c ← newContract caller addr value
      let CodeHash ← onDb (vm.StateDB.getCodeHash addr)
      let r ← run { c with Code, CodeHash, Input := input } input false gas
      return r.toCall

def call (value : ℤ) : EvmM σ CallResult :=
  vm.withinLimits gas do
    let enough ← (if value = 0 then pure true else onDb (vm.StateDB.canTransfer caller.address value))
    if !enough then return .empty gas (some .errInsufficientBalance)
    else do
      let snapshot ← onDb vm.StateDB.snapshot
      let exist ← onDb (vm.StateDB.exist addr)
      if !exist && (vm.precompile addr).isNone && vm.chainRules.IsEIP158 && value = 0 then
        return .empty gas none
      else do
        .when (!exist) (onDb (vm.StateDB.createAccount addr))
        onDb (vm.StateDB.transfer caller.address addr value)
        let r ← vm.runCalled run caller addr input gas value
        vm.settleCall snapshot r

def callCode (value : ℤ) : EvmM σ CallResult :=
  vm.withinLimits gas do
    let enough ← onDb (vm.StateDB.canTransfer caller.address value)
    if !enough then return .empty gas (some .errInsufficientBalance)
    else do
      let snapshot ← onDb vm.StateDB.snapshot
      let r ← vm.runCode run (newContract caller caller.address value) addr input false gas
      vm.settleCall snapshot r

def delegateCall : EvmM σ CallResult :=
  vm.withinLimits gas do
    let snapshot ← onDb vm.StateDB.snapshot
    -- `AsDelegate` replaces the value, which is nil here
    let contract := do
      let c ← newContract caller caller.address 0
      asDelegate caller c
    let r ← vm.runCode run contract addr input false gas
    vm.settleCall snapshot r

def staticCall : EvmM σ CallResult :=
  vm.withinLimits gas do
    let snapshot ← onDb vm.StateDB.snapshot
    onDb (vm.StateDB.addBalance addr 0)
    let r ← vm.runCode run (newContract caller addr 0) addr input true gas
    vm.settleCall snapshot r

/-! ## Creation -/

structure CreateResult where
  ret : Bytes
  addr : Address
  gas : UInt64
  err : Option VmError

def CreateResult.refused (gas : UInt64) (err : VmError) : CreateResult :=
  { ret := [], addr := Address.zero, gas, err := some err }

def maxCodeSizeExceeded (ret : Bytes) : Bool :=
  vm.chainRules.IsEIP158 && ret.length > maxCodeSize

def storeCode (address : Address) (r : RunResult) : EvmM σ RunResult :=
  if r.err = none ∧ !vm.maxCodeSizeExceeded r.ret then
    let createDataGas := UInt64.ofNat r.ret.length * createDataGas
    if r.gas < createDataGas then return { r with err := some .errCodeStoreOutOfGas }
    else do
      let gas ← subGas r.gas createDataGas
      onDb (vm.StateDB.setCode address r.ret)
      return { r with gas }
  else return r

/-- Before Homestead, code that could not be paid for was no reason to revert. -/
def settleCreate (snapshot : ℤ) (address : Address) (r : RunResult) : EvmM σ CreateResult := do
  let exceeded := vm.maxCodeSizeExceeded r.ret
  let err := if exceeded ∧ r.err = none then some .errMaxCodeSizeExceeded else r.err
  if exceeded ∨ r.err ≠ none ∧ (vm.chainRules.IsHomestead ∨ r.err ≠ some .errCodeStoreOutOfGas) then do
    onDb (vm.StateDB.revertToSnapshot snapshot)
    if r.err ≠ some .errExecutionReverted then do
      let gas ← subGas r.gas r.gas
      return { ret := r.ret, addr := address, gas, err }
    else return { ret := r.ret, addr := address, gas := r.gas, err }
  else return { ret := r.ret, addr := address, gas := r.gas, err }

variable (vm : Evm σ) (run : RunFn σ) (caller : ContractRef) (code : Bytes)

def createAt (hash : Hash)
    (gas : UInt64) (value : ℤ) (address : Address) : EvmM σ CreateResult := do
  let snapshot ← onDb vm.StateDB.snapshot
  onDb (vm.StateDB.createAccount address)
  .when vm.chainRules.IsEIP158 (onDb (vm.StateDB.setNonce address 1))
  onDb (vm.StateDB.transfer caller.address address value)
  let c ← newContract caller address value
  let depth ← .read Interp.depth
  if vm.NoRecursion ∧ depth > 0 then return { ret := [], addr := address, gas, err := none }
  else do
    let r ← run { c with Code := code, CodeHash := hash } [] false gas
    let r ← vm.storeCode address r
    vm.settleCreate snapshot address r

/-- `hash` is the hash of the code, or zero if it has not been computed. -/
def create (hash : Hash)
    (gas : UInt64) (value : ℤ) (address : Address) : EvmM σ CreateResult := do
  let depth ← .read Interp.depth
  if depth > callCreateDepth then return .refused gas .errDepth
  else do
    let enough ← onDb (vm.StateDB.canTransfer caller.address value)
    if !enough then return .refused gas .errInsufficientBalance
    else do
      let nonce ← onDb (vm.StateDB.getNonce caller.address)
      onDb (vm.StateDB.setNonce caller.address (nonce + 1))
      let contractHash ← onDb (vm.StateDB.getCodeHash address)
      let taken ← onDb (vm.StateDB.getNonce address)
      if taken ≠ 0 ∨ contractHash ≠ Hash.zero ∧ contractHash ≠ vm.keccak256 [] then
        return .refused 0 .errContractAddressCollision
      else vm.createAt run caller code hash gas value address

def Create (gas : UInt64)
    (value : ℤ) : EvmM σ CreateResult := do
  let nonce ← onDb (vm.StateDB.getNonce caller.address)
  vm.create run caller code Hash.zero gas value (vm.createAddress caller.address nonce)

def create2 (gas : UInt64) (endowment : ℤ) (salt : Hash) : EvmM σ CreateResult :=
  let hash := vm.keccak256 code
  vm.create run caller code hash gas endowment (vm.createAddress2 caller.address salt hash)

end Evm

end Web3.Vm
