import Web3.Vm.Instructions

/-! # Gas

The dynamic costs of `gas_table.go` and `gas.go`. The ones that depend on the machine only are programs
on it. -/

namespace Web3.Vm
open Storage (U256)
open MachineM ExecM

/-! ## Prices -/

def gasQuickStep : UInt64 := 2
def gasFastestStep : UInt64 := 3
def gasFastStep : UInt64 := 5
def gasMidStep : UInt64 := 8
def gasSlowStep : UInt64 := 10
def gasExtStep : UInt64 := 20

def memoryGas : UInt64 := 3
def quadCoeffDiv : UInt64 := 512
def copyGas : UInt64 := 3
def sha3Gas : UInt64 := 30
def sha3WordGas : UInt64 := 6
def logGas : UInt64 := 375
def logTopicGas : UInt64 := 375
def logDataGas : UInt64 := 8
def expGas : UInt64 := 10
def expByteFrontier : UInt64 := 10
def expByteEIP158 : UInt64 := 50
def jumpdestGas : UInt64 := 1
def createGas : UInt64 := 32000
def create2Gas : UInt64 := 32000
def callNewAccountGas : UInt64 := 25000
def callValueTransferGas : UInt64 := 9000
def callGasFrontier : UInt64 := 40
def callGasEIP150 : UInt64 := 700
def balanceGasFrontier : UInt64 := 20
def balanceGasEIP150 : UInt64 := 400
def balanceGasEIP1884 : UInt64 := 700
def extcodeSizeGasFrontier : UInt64 := 20
def extcodeSizeGasEIP150 : UInt64 := 700
def extcodeCopyBaseFrontier : UInt64 := 20
def extcodeCopyBaseEIP150 : UInt64 := 700
def extcodeHashGasConstantinople : UInt64 := 400
def extcodeHashGasEIP1884 : UInt64 := 700
def sloadGasFrontier : UInt64 := 50
def sloadGasEIP150 : UInt64 := 200
def sloadGasEIP1884 : UInt64 := 800
def sloadGasEIP2200 : UInt64 := 800
def selfdestructGasEIP150 : UInt64 := 5000
def createBySelfdestructGas : UInt64 := 25000
def selfdestructRefundGas : UInt64 := 24000

def sstoreSetGas : UInt64 := 20000
def sstoreResetGas : UInt64 := 5000
def sstoreClearGas : UInt64 := 5000
def sstoreRefundGas : UInt64 := 15000
def netSstoreNoopGas : UInt64 := 200
def netSstoreInitGas : UInt64 := 20000
def netSstoreCleanGas : UInt64 := 5000
def netSstoreDirtyGas : UInt64 := 200
def netSstoreClearRefund : UInt64 := 15000
def netSstoreResetRefund : UInt64 := 4800
def netSstoreResetClearRefund : UInt64 := 19800
def sstoreSentryGasEIP2200 : UInt64 := 2300
def sstoreSetGasEIP2200 : UInt64 := 20000
def sstoreResetGasEIP2200 : UInt64 := 5000
def sstoreClearsScheduleRefundEIP2200 : UInt64 := 15000

/-! ## Memory -/

def noOverflow (r : UInt64 × Bool) : MachineM UInt64 :=
  if r.2 then .throw .errGasUintOverflow else return r.1

def memoryGasCost (newMemSize : UInt64) : MachineM UInt64 :=
  if newMemSize = 0 then return 0
  else if newMemSize > 0x1FFFFFFFE0 then .throw .errGasUintOverflow
  else do
    let mem ← .read Machine.memory
    let newMemSizeWords := toWordSize newMemSize
    let newMemSize := newMemSizeWords * 32
    if newMemSize.toNat > mem.len then do
      let square := newMemSizeWords * newMemSizeWords
      let linCoef := newMemSizeWords * memoryGas
      let quadCoef := square / quadCoeffDiv
      let newTotalFee := linCoef + quadCoef
      let fee := newTotalFee - mem.lastGasCost
      .modify fun m => { m with memory := { m.memory with lastGasCost := newTotalFee } }
      return fee
    else return 0

def memoryWordGas (stackpos : ℕ) (price : UInt64) (memorySize : UInt64) : MachineM UInt64 := do
  let gas ← memoryGasCost memorySize
  let size ← back stackpos
  let words ← noOverflow (U256.uint64WithOverflow size)
  let wordGas ← noOverflow (safeMul (toWordSize words) price)
  noOverflow (safeAdd gas wordGas)

def memoryCopierGas (stackpos : ℕ) := memoryWordGas stackpos copyGas

def gasCallDataCopy := memoryCopierGas 2

def gasCodeCopy := memoryCopierGas 2

def gasExtCodeCopy := memoryCopierGas 3

def gasReturnDataCopy := memoryCopierGas 2

def gasSha3 := memoryWordGas 1 sha3WordGas

def gasCreate2 := memoryWordGas 2 sha3WordGas

def pureMemoryGascost (memorySize : UInt64) : MachineM UInt64 := memoryGasCost memorySize

def gasReturn := pureMemoryGascost

def gasRevert := pureMemoryGascost

def gasMLoad := pureMemoryGascost

def gasMStore8 := pureMemoryGascost

def gasMStore := pureMemoryGascost

def gasCreate := pureMemoryGascost

def makeGasLog (n : UInt64) (memorySize : UInt64) : MachineM UInt64 := do
  let size ← back 1
  let requestedSize ← noOverflow (U256.uint64WithOverflow size)
  let gas ← memoryGasCost memorySize
  let gas ← noOverflow (safeAdd gas logGas)
  let gas ← noOverflow (safeAdd gas (n * logTopicGas))
  let memorySizeGas ← noOverflow (safeMul requestedSize logDataGas)
  noOverflow (safeAdd gas memorySizeGas)

def gasExp (expByte : UInt64) : MachineM UInt64 := do
  let exponent ← back 1
  let expByteLen := UInt64.ofNat ((U256.bitLen exponent + 7) / 8)
  noOverflow (safeAdd (expByteLen * expByte) expGas)

def gasExpFrontier := gasExp expByteFrontier

def gasExpEIP158 := gasExp expByteEIP158

section Database
variable {σ : Type} (vm : Evm σ) (c : Contract)

/-! ## Storage -/

structure NetPrices where
  noop : UInt64
  init : UInt64
  clean : UInt64
  dirty : UInt64
  clearRefund : UInt64
  resetClearRefund : UInt64
  resetRefund : UInt64

/-- The cost of writing `value` over `current`, depending on the value before the transaction. -/
def netSStoreGas (p : NetPrices) (slot current value : Hash) : ExecM σ UInt64 :=
  if current = value then return p.noop
  else do
    let original ← onDb (vm.StateDB.getCommittedState c.address slot)
    if original = current then
      if original = Hash.zero then return p.init
      else do
        .when (value = Hash.zero) (onDb (vm.StateDB.addRefund p.clearRefund))
        return p.clean
    else do
      .when (original ≠ Hash.zero) (if current = Hash.zero then onDb (vm.StateDB.subRefund p.clearRefund)
        else .when (value = Hash.zero) (onDb (vm.StateDB.addRefund p.clearRefund)))
      .when (original = value) (if original = Hash.zero then
          onDb (vm.StateDB.addRefund p.resetClearRefund)
        else onDb (vm.StateDB.addRefund p.resetRefund))
      return p.dirty

def netPrices : NetPrices where
  noop := netSstoreNoopGas
  init := netSstoreInitGas
  clean := netSstoreCleanGas
  dirty := netSstoreDirtyGas
  clearRefund := netSstoreClearRefund
  resetClearRefund := netSstoreResetClearRefund
  resetRefund := netSstoreResetRefund

def netPricesEIP2200 : NetPrices where
  noop := sloadGasEIP2200
  init := sstoreSetGasEIP2200
  clean := sstoreResetGasEIP2200
  dirty := sloadGasEIP2200
  clearRefund := sstoreClearsScheduleRefundEIP2200
  resetClearRefund := sstoreSetGasEIP2200 - sloadGasEIP2200
  resetRefund := sstoreResetGasEIP2200 - sloadGasEIP2200

def gasSStore : ExecM σ UInt64 := do
  let y ← onMachine (back 1)
  let x ← onMachine (back 0)
  let current ← onDb (vm.StateDB.getState c.address (U256.bytes32 x))
  -- the legacy metering also applies again after Petersburg
  if vm.chainRules.IsPetersburg ∨ !vm.chainRules.IsConstantinople then
    if current = Hash.zero ∧ U256.sign y ≠ 0 then return sstoreSetGas
    else if current ≠ Hash.zero ∧ U256.sign y = 0 then do
      onDb (vm.StateDB.addRefund sstoreRefundGas)
      return sstoreClearGas
    else return sstoreResetGas
  else netSStoreGas vm c netPrices (U256.bytes32 x) current (U256.bytes32 y)

def gasSStoreEIP2200 : ExecM σ UInt64 := do
  let left ← .read Frame.Gas
  if left ≤ sstoreSentryGasEIP2200 then .throw (.other "not enough gas for reentrancy sentry")
  else do
    let y ← onMachine (back 1)
    let x ← onMachine (back 0)
    let current ← onDb (vm.StateDB.getState c.address (U256.bytes32 x))
    netSStoreGas vm c netPricesEIP2200 (U256.bytes32 x) current (U256.bytes32 y)

/-! ## Calls -/

/-- The gas for the callee, or that the gas asked for is no `uint64`. -/
def callGas (isEip150 : Bool) (availableGas base : UInt64) (callCost : U256) : EvmM σ (Except VmError UInt64) := do
  let limit ← (if isEip150 then do
      -- this may wrap around; the call is then too dear
      let availableGas ← EvmM.availableGas availableGas base
      let gas ← EvmM.subGas availableGas (availableGas / 64)
      return if !U256.isUint64 callCost ∨ gas < U256.uint64 callCost then some gas else none
    else return none)
  match limit with
  | some gas => return .ok gas
  | none =>
    if !U256.isUint64 callCost then return .error .errGasUintOverflow
    else return .ok (U256.uint64 callCost)

/-- The end of the gas functions of calls: the gas for the callee is kept, and added to the cost. -/
def addCallGas (base : UInt64) : ExecM σ UInt64 := do
  let left ← .read Frame.Gas
  let callCost ← onMachine (back 0)
  let gas ← onEvm (callGas vm.chainRules.IsEIP150 left base callCost)
  onEvm (.modify fun i => { i with callGasTemp := gas.toOption.getD 0 })
  match gas with
  | .error e => .throw e
  | .ok gas => onMachine (noOverflow (safeAdd base gas))

def callsNewAccount (address : Address) (transfersValue : Bool) : ExecM σ Bool :=
  if vm.chainRules.IsEIP158 then
    if transfersValue then onDb (vm.StateDB.empty address) else return false
  else do
    let exist ← onDb (vm.StateDB.exist address)
    return !exist

def gasCall (memorySize : UInt64) : ExecM σ UInt64 := do
  let value ← onMachine (back 2)
  let address ← onMachine (back 1)
  let newAccount ← callsNewAccount vm (U256.bytes20 address) (value ≠ 0)
  let gas := (if newAccount then callNewAccountGas else 0) + (if value ≠ 0 then callValueTransferGas else 0)
  let memoryGas ← onMachine (memoryGasCost memorySize)
  let gas ← onMachine (noOverflow (safeAdd gas memoryGas))
  addCallGas vm gas

def gasCallCode (memorySize : UInt64) : ExecM σ UInt64 := do
  let memoryGas ← onMachine (memoryGasCost memorySize)
  let value ← onMachine (back 2)
  let gas := if U256.sign value ≠ 0 then callValueTransferGas else 0
  let gas ← onMachine (noOverflow (safeAdd gas memoryGas))
  addCallGas vm gas

def gasDelegateCall (memorySize : UInt64) : ExecM σ UInt64 := do
  let gas ← onMachine (memoryGasCost memorySize)
  addCallGas vm gas

def gasStaticCall (memorySize : UInt64) : ExecM σ UInt64 := do
  let gas ← onMachine (memoryGasCost memorySize)
  addCallGas vm gas

def refundsNewAccount (address : Address) : ExecM σ Bool :=
  if vm.chainRules.IsEIP158 then do
    let isEmpty ← onDb (vm.StateDB.empty address)
    if isEmpty then do
      let balance ← onDb (vm.StateDB.getBalance c.address)
      return decide (balance ≠ 0)
    else return false
  else do
    let exist ← onDb (vm.StateDB.exist address)
    return !exist

def gasSelfdestruct : ExecM σ UInt64 := do
  let gas ← (if vm.chainRules.IsEIP150 then do
      let address ← onMachine (back 0)
      let newAccount ← refundsNewAccount vm c (U256.bytes20 address)
      return selfdestructGasEIP150 + if newAccount then createBySelfdestructGas else 0
    else return 0)
  let suicided ← onDb (vm.StateDB.HasSuicided c.address)
  .when (!suicided) (onDb (vm.StateDB.addRefund selfdestructRefundGas))
  return gas

end Database

/-! ## Dispatch -/

/-- The functions that a jump table names. -/
inductive GasFunc where
  | gasCallDataCopy | gasCodeCopy | gasExtCodeCopy | gasReturnDataCopy | gasSStore | gasSStoreEIP2200
  | makeGasLog (n : UInt64)
  | gasSha3 | gasReturn | gasRevert | gasMLoad | gasMStore8 | gasMStore | gasCreate | gasCreate2
  | gasExpFrontier | gasExpEIP158 | gasCall | gasCallCode | gasDelegateCall | gasStaticCall
  | gasSelfdestruct
  deriving DecidableEq

def GasFunc.run {σ : Type} (vm : Evm σ) (c : Contract) (memorySize : UInt64) : GasFunc → ExecM σ UInt64
  | gasCallDataCopy => onMachine (Vm.gasCallDataCopy memorySize)
  | gasCodeCopy => onMachine (Vm.gasCodeCopy memorySize)
  | gasExtCodeCopy => onMachine (Vm.gasExtCodeCopy memorySize)
  | gasReturnDataCopy => onMachine (Vm.gasReturnDataCopy memorySize)
  | gasSStore => Vm.gasSStore vm c
  | gasSStoreEIP2200 => Vm.gasSStoreEIP2200 vm c
  | makeGasLog n => onMachine (Vm.makeGasLog n memorySize)
  | gasSha3 => onMachine (Vm.gasSha3 memorySize)
  | gasReturn => onMachine (Vm.gasReturn memorySize)
  | gasRevert => onMachine (Vm.gasRevert memorySize)
  | gasMLoad => onMachine (Vm.gasMLoad memorySize)
  | gasMStore8 => onMachine (Vm.gasMStore8 memorySize)
  | gasMStore => onMachine (Vm.gasMStore memorySize)
  | gasCreate => onMachine (Vm.gasCreate memorySize)
  | gasCreate2 => onMachine (Vm.gasCreate2 memorySize)
  | gasExpFrontier => onMachine Vm.gasExpFrontier
  | gasExpEIP158 => onMachine Vm.gasExpEIP158
  | gasCall => Vm.gasCall vm memorySize
  | gasCallCode => Vm.gasCallCode vm memorySize
  | gasDelegateCall => Vm.gasDelegateCall vm memorySize
  | gasStaticCall => Vm.gasStaticCall vm memorySize
  | gasSelfdestruct => Vm.gasSelfdestruct vm c

end Web3.Vm
