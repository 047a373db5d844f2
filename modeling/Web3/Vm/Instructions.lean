import Web3.Vm.Calls

/-! # Instructions

The functions of `instructions.go` and `eips.go` that a jump table can name (`ExecutionFunc`). The ones
that only touch the machine are programs on it; what they read of the contract or the EVM is an
argument. -/

namespace Web3.Vm
open Storage (U256 StorageLog)
open Storage.U256 (fromBig)
open MachineM

/-! ## Arithmetic, comparison, bits -/

def unaryOp (f : U256 → U256) : MachineM Slice := do
  let x ← peek
  setTop (f x)
  return .nil

def binaryOp (f : U256 → U256 → U256) : MachineM Slice := do
  let x ← pop
  let y ← peek
  setTop (f x y)
  return .nil

def ternaryOp (f : U256 → U256 → U256 → U256) : MachineM Slice := do
  let x ← pop
  let y ← pop
  let z ← peek
  setTop (f x y z)
  return .nil

def opAdd := binaryOp (· + ·)

def opSub := binaryOp (· - ·)

def opMul := binaryOp (· * ·)

def opDiv := binaryOp U256.div

def opSdiv := binaryOp U256.sDiv

def opMod := binaryOp U256.mod

def opSmod := binaryOp U256.sMod

def opExp := binaryOp U256.exp

def opSignExtend := binaryOp fun back num => U256.extendSign num back

def opNot := unaryOp (~~~·)

def opLt := binaryOp fun x y => U256.ofBool (x < y)

def opGt := binaryOp fun x y => U256.ofBool (x > y)

def opSlt := binaryOp fun x y => U256.ofBool (U256.slt x y)

def opSgt := binaryOp fun x y => U256.ofBool (U256.sgt x y)

def opEq := binaryOp fun x y => U256.ofBool (x == y)

def opIszero := unaryOp fun x => U256.ofBool (U256.isZero x)

def opAnd := binaryOp (· &&& ·)

def opOr := binaryOp (· ||| ·)

def opXor := binaryOp (· ^^^ ·)

def opByte := binaryOp fun th val => U256.byte val th

def opAddmod := ternaryOp fun x y z => if U256.isZero z then 0 else U256.addMod x y z

def opMulmod := ternaryOp U256.mulMod

def opSHL := binaryOp fun shift value => if shift.toNat < 256 then value <<< shift.toNat else 0

def opSHR := binaryOp fun shift value => if shift.toNat < 256 then value >>> shift.toNat else 0

def opSAR := binaryOp fun shift value =>
  if shift.toNat > 256 then (if U256.sign value ≥ 0 then 0 else U256.setAllOne)
  else U256.sRsh value shift.toNat

/-! ## The contract and its environment -/

def pushOp (x : U256) : MachineM Slice := do
  push x
  return .nil

def ptr (offset size : U256) : MachineM Slice :=
  onMemory fun m => m.getPtr (toInt (U256.uint64 offset)) (toInt (U256.uint64 size))

def copyOf (offset size : U256) : MachineM Bytes :=
  onMemory fun m => m.getCopy (toInt (U256.uint64 offset)) (toInt (U256.uint64 size))

def copyData (data : Bytes) (memOffset dataOffset length : U256) : MachineM Slice := do
  let (offset64, overflow) := U256.uint64WithOverflow dataOffset
  let offset64 := if overflow then 0xffffffffffffffff else offset64
  let bs ← .ofExcept (getData data offset64 (U256.uint64 length))
  updateMemory fun m => m.set (U256.uint64 memOffset) (U256.uint64 length) bs
  return .nil

/-- Copy from `data`, with the offsets and the length on the stack. -/
def dataCopyOp (data : Bytes) : MachineM Slice := do
  let memOffset ← pop
  let dataOffset ← pop
  let length ← pop
  copyData data memOffset dataOffset length

section Environment
variable {σ : Type} (vm : Evm σ) (c : Contract)

def opAddress := pushOp (U256.setBytes c.address.1)

def opOrigin := pushOp (U256.setBytes vm.Origin.1)

def opCaller := pushOp (U256.setBytes c.CallerAddress.1)

def opCallValue := pushOp (fromBig c.value)

def opCallDataLoad : MachineM Slice := do
  let x ← peek
  let (offset, overflow) := U256.uint64WithOverflow x
  if overflow then do
    setTop 0
    return .nil
  else do
    let data ← .ofExcept (getData c.Input offset 32)
    setTop (U256.setBytes data)
    return .nil

def opCallDataSize := pushOp (U256.setUint64 (UInt64.ofNat c.Input.length))

def opCallDataCopy := dataCopyOp c.Input

def opReturnDataSize (returnData : Bytes) := pushOp (U256.setUint64 (UInt64.ofNat returnData.length))

def opReturnDataCopy (returnData : Bytes) : MachineM Slice := do
  let memOffset ← pop
  let dataOffset ← pop
  let length ← pop
  let (offset64, overflow) := U256.uint64WithOverflow dataOffset
  if overflow then .throw .errReturnDataOutOfBounds
  else do
    let (end64, overflow) := U256.uint64WithOverflow (dataOffset + length)
    if overflow ∨ returnData.length < end64.toNat then .throw .errReturnDataOutOfBounds
    else do
      let bs ← .ofExcept (slice returnData offset64.toNat end64.toNat)
      updateMemory fun m => m.set (U256.uint64 memOffset) (U256.uint64 length) bs
      return .nil

def opCodeSize := pushOp (U256.setUint64 (UInt64.ofNat c.Code.length))

def opCodeCopy := dataCopyOp c.Code

def opGasprice := pushOp (fromBig vm.GasPrice)

def opBlockhash : MachineM Slice := do
  let num ← peek
  let (num64, overflow) := U256.uint64WithOverflow num
  if overflow then do
    setTop 0
    return .nil
  else do
    let upper := UInt64.ofNat vm.BlockNumber.natAbs
    let lower := if upper < 257 then 0 else upper - 256
    setTop (if num64 ≥ lower ∧ num64 < upper then U256.setBytes (vm.getHash num64).1 else 0)
    return .nil

def opCoinbase := pushOp (U256.setBytes vm.Coinbase.1)

def opTimestamp := pushOp (fromBig vm.Time)

def opNumber := pushOp (fromBig vm.BlockNumber)

def opDifficulty := pushOp (fromBig vm.Difficulty)

def opGasLimit := pushOp (U256.setUint64 vm.GasLimit)

def opChainID := pushOp (fromBig vm.ChainID)

def opGas (gas : UInt64) := pushOp (U256.setUint64 gas)

/-! ## The machine -/

def opPop : MachineM Slice := do
  let _ ← pop
  return .nil

def opMload : MachineM Slice := do
  let v ← peek
  let data ← onMemory fun m => m.getPtr (toInt (U256.uint64 v)) 32
  let bs ← onMemory fun m => .ok (m.bytes data)
  setTop (U256.setBytes bs)
  return .nil

def opMstore : MachineM Slice := do
  let mStart ← pop
  let val ← pop
  updateMemory fun m => m.set32 (U256.uint64 mStart) val
  return .nil

def opMstore8 : MachineM Slice := do
  let off ← pop
  let val ← pop
  updateMemory fun m => m.setByte (U256.uint64 off) (U256.uint64 val).toUInt8
  return .nil

def opJumpdest : MachineM Slice := return .nil

def opBeginSub : MachineM Slice := .throw .errInvalidSubroutineEntry

def opReturnSub : MachineM Slice := do
  let rstack ← .read Machine.rstack
  match rstack with
  | [] => .throw .errInvalidRetsub
  | pos :: rstack => do
    .modify fun m => { m with rstack }
    setPc fun _ => pos.toUInt64 + 1
    return .nil

def opPc : MachineM Slice := do
  let pc ← .read Machine.pc
  pushOp (U256.setUint64 pc)

def opMsize : MachineM Slice := do
  let len ← .read fun m => m.memory.len
  pushOp (U256.setUint64 (UInt64.ofNat len))

def opReturn : MachineM Slice := do
  let offset ← pop
  let size ← pop
  ptr offset size

def opRevert : MachineM Slice := do
  let offset ← pop
  let size ← pop
  ptr offset size

def opStop : MachineM Slice := return .nil

def opPush1 : MachineM Slice := do
  setPc (· + 1)
  let pc ← .read Machine.pc
  pushOp (if pc.toNat < c.Code.length then U256.setUint64 (c.getByte pc).toUInt64 else 0)

def makePush (size : UInt64) (pushByteSize : ℕ) : MachineM Slice := do
  let pc ← .read Machine.pc
  let codeLen : ℤ := c.Code.length
  let startMin := if toInt (pc + 1) < codeLen then toInt (pc + 1) else codeLen
  let endMin := if startMin + pushByteSize < codeLen then startMin + pushByteSize else codeLen
  let bs ← .ofExcept (slice c.Code startMin endMin)
  push (U256.setBytes (rightPadBytes bs pushByteSize))
  setPc (· + size)
  return .nil

def makeDup (size : ℕ) : MachineM Slice := do
  dup size
  return .nil

def makeSwap (size : ℕ) : MachineM Slice := do
  swap (size + 1)
  return .nil

/-! ## Jumps -/

open ExecM

def opJump : ExecM σ Slice := do
  let pos ← onMachine pop
  let valid ← validJumpdest c pos
  if !valid then .throw .errInvalidJump
  else do
    onMachine (setPc fun _ => U256.uint64 pos)
    return .nil

def opJumpi : ExecM σ Slice := do
  let pos ← onMachine pop
  let cond ← onMachine pop
  if U256.isZero cond then do
    onMachine (setPc (· + 1))
    return .nil
  else do
    let valid ← validJumpdest c pos
    if !valid then .throw .errInvalidJump
    else do
      onMachine (setPc fun _ => U256.uint64 pos)
      return .nil

def opJumpSub : ExecM σ Slice := do
  let rstack ← onMachine (.read Machine.rstack)
  if rstack.length ≥ 1023 then .throw .errReturnStackExceeded
  else do
    let pos ← onMachine pop
    if !U256.isUint64 pos then .throw .errInvalidJump
    else do
      let valid ← validJumpSubdest c (U256.uint64 pos)
      if !valid then .throw .errInvalidJump
      else do
        onMachine (.modify fun m => { m with rstack := m.pc.toUInt32 :: m.rstack })
        onMachine (setPc fun _ => U256.uint64 pos + 1)
        return .nil

/-! ## The database -/

def opSha3 : ExecM σ Slice := do
  let offset ← onMachine pop
  let size ← onMachine peek
  let data ← onMachine (copyOf offset size)
  let hash := vm.keccak256 data
  .when vm.EnablePreimageRecording (onDb (vm.StateDB.addPreimage hash data))
  onMachine (setTop (U256.setBytes hash.1))
  return .nil

def opBalance : ExecM σ Slice := do
  let slot ← onMachine peek
  let balance ← onDb (vm.StateDB.getBalance (U256.bytes20 slot))
  onMachine (setTop (fromBig balance))
  return .nil

def opSelfBalance : ExecM σ Slice := do
  let balance ← onDb (vm.StateDB.getBalance c.address)
  onMachine (pushOp (fromBig balance))

def opExtCodeSize : ExecM σ Slice := do
  let slot ← onMachine peek
  let size ← onDb (vm.StateDB.getCodeSize (U256.bytes20 slot))
  onMachine (setTop (U256.setUint64 (UInt64.ofNat size)))
  return .nil

def opExtCodeCopy : ExecM σ Slice := do
  let a ← onMachine pop
  let memOffset ← onMachine pop
  let codeOffset ← onMachine pop
  let length ← onMachine pop
  let code ← onDb (vm.StateDB.getCode (U256.bytes20 a))
  onMachine (copyData code memOffset codeOffset length)

def opExtCodeHash : ExecM σ Slice := do
  let slot ← onMachine peek
  let isEmpty ← onDb (vm.StateDB.empty (U256.bytes20 slot))
  if isEmpty then do
    onMachine (setTop 0)
    return .nil
  else do
    let hash ← onDb (vm.StateDB.getCodeHash (U256.bytes20 slot))
    onMachine (setTop (U256.setBytes hash.1))
    return .nil

def opSload : ExecM σ Slice := do
  let loc ← onMachine peek
  let val ← onDb (vm.StateDB.getState c.address (U256.bytes32 loc))
  onMachine (setTop (U256.setBytes val.1))
  return .nil

def opSstore : ExecM σ Slice := do
  let loc ← onMachine pop
  let val ← onMachine pop
  onDb (vm.StateDB.setState c.address (U256.bytes32 loc) (U256.bytes32 val))
  return .nil

def opSuicide : ExecM σ Slice := do
  let beneficiary ← onMachine pop
  let balance ← onDb (vm.StateDB.getBalance c.address)
  onDb (vm.StateDB.addBalance (U256.bytes20 beneficiary) balance)
  let _ ← onDb (vm.StateDB.suicide c.address)
  return .nil

def popTopics : ℕ → MachineM (List Hash)
  | 0 => return []
  | n + 1 => do
    let topic ← pop
    let topics ← popTopics n
    return U256.bytes32 topic :: topics

def makeLog (size : ℕ) : ExecM σ Slice := do
  let mStart ← onMachine pop
  let mSize ← onMachine pop
  let topics ← onMachine (popTopics size)
  let d ← onMachine (copyOf mStart mSize)
  onDb (vm.StateDB.addLog { Address := c.address, Topics := topics, Data := d })
  return .nil

/-! ## Calls -/

def callStipend : UInt64 := 2300

/-- What a call finds on the stack, and the slice of memory that is its input. -/
structure CallArgs where
  toAddr : Address
  value : U256
  args : Slice
  retOffset : U256
  retSize : U256

def popCall (withValue : Bool) : MachineM CallArgs := do
  let _ ← pop
  let addr ← pop
  let value ← (if withValue then pop else pure 0)
  let inOffset ← pop
  let inSize ← pop
  let retOffset ← pop
  let retSize ← pop
  let args ← ptr inOffset inSize
  return { toAddr := U256.bytes20 addr, value, args, retOffset, retSize }

def CallArgs.result (a : CallArgs) : Returned → Slice
  | .fresh bs => .own bs
  | .input => a.args

def finishCall (a : CallArgs) (r : CallResult) : MachineM Slice := do
  push (if r.err = none then 1 else 0)
  .when (r.err = none ∨ r.err = some .errExecutionReverted) (updateMemory fun m =>
    m.set (U256.uint64 a.retOffset) (U256.uint64 a.retSize) (m.bytes (a.result r.ret)))
  return a.result r.ret

def callOp (withValue : Bool) (call : Address → Bytes → UInt64 → ℤ → EvmM σ CallResult) : ExecM σ Slice := do
  let a ← onMachine (popCall withValue)
  let gas ← onEvm (.read Interp.callGasTemp)
  let gas ← (if a.value = 0 then pure gas else onEvm (EvmM.addGas gas callStipend))
  let input ← onMachine (.read fun m => m.memory.bytes a.args)
  let r ← onEvm (call a.toAddr input gas (U256.toBig a.value))
  let ret ← onMachine (finishCall a r)
  returnGas r.gas
  return ret

variable (run : RunFn σ)

def opCall : ExecM σ Slice := callOp true (vm.call run c.ref)

def opCallCode : ExecM σ Slice := callOp true (vm.callCode run c.ref)

def opDelegateCall : ExecM σ Slice :=
  callOp false fun addr input gas _ => vm.delegateCall run c.ref addr input gas

def opStaticCall : ExecM σ Slice :=
  callOp false fun addr input gas _ => vm.staticCall run c.ref addr input gas

def finishCreate (failed : Bool) (r : Evm.CreateResult) : ExecM σ Slice := do
  onMachine (push (if failed then 0 else U256.setBytes r.addr.1))
  returnGas r.gas
  return if r.err = some .errExecutionReverted then .own r.ret else .nil

def opCreate : ExecM σ Slice := do
  let value ← onMachine pop
  let offset ← onMachine pop
  let size ← onMachine pop
  let input ← onMachine (copyOf offset size)
  let gas ← .read Frame.Gas
  let gas ← (if vm.chainRules.IsEIP150 then onEvm (EvmM.subGas gas (gas / 64)) else pure gas)
  let _ ← useGas gas
  let r ← onEvm (vm.Create run c.ref input gas (U256.toBig value))
  -- before Homestead, code that could not be paid for counts as a success
  let failed := if vm.chainRules.IsHomestead ∧ r.err = some .errCodeStoreOutOfGas then true
    else r.err ≠ none ∧ r.err ≠ some .errCodeStoreOutOfGas
  finishCreate failed r

def opCreate2 : ExecM σ Slice := do
  let endowment ← onMachine pop
  let offset ← onMachine pop
  let size ← onMachine pop
  let salt ← onMachine pop
  let input ← onMachine (copyOf offset size)
  let gas ← .read Frame.Gas
  let gas ← onEvm (EvmM.subGas gas (gas / 64))
  let _ ← useGas gas
  let r ← onEvm (vm.create2 run c.ref input gas (U256.toBig endowment) (U256.bytes32 salt))
  finishCreate (r.err ≠ none) r

end Environment

/-! ## Dispatch -/

/-- The functions that a jump table names. -/
inductive ExecutionFunc where
  | opAdd | opSub | opMul | opDiv | opSdiv | opMod | opSmod | opExp | opSignExtend | opNot | opLt | opGt
  | opSlt | opSgt | opEq | opIszero | opAnd | opOr | opXor | opByte | opAddmod | opMulmod
  | opSHL | opSHR | opSAR | opSha3 | opAddress | opBalance | opOrigin | opCaller | opCallValue
  | opCallDataLoad | opCallDataSize | opCallDataCopy | opReturnDataSize | opReturnDataCopy
  | opExtCodeSize | opCodeSize | opCodeCopy | opExtCodeCopy | opExtCodeHash | opGasprice | opBlockhash
  | opCoinbase | opTimestamp | opNumber | opDifficulty | opGasLimit | opPop | opMload | opMstore
  | opMstore8 | opSload | opSstore | opJump | opJumpi | opJumpdest | opBeginSub | opJumpSub
  | opReturnSub | opPc | opMsize | opGas | opCreate | opCreate2 | opCall | opCallCode
  | opDelegateCall | opStaticCall | opReturn | opRevert | opStop | opSuicide | opSelfBalance | opChainID
  | opPush1
  | makeLog (size : ℕ)
  | makePush (size : UInt64) (pushByteSize : ℕ)
  | makeDup (size : ℕ)
  | makeSwap (size : ℕ)
  deriving DecidableEq

open ExecM in
def ExecutionFunc.run {σ : Type} (vm : Evm σ) (run : RunFn σ) (c : Contract) : ExecutionFunc → ExecM σ Slice
  | opAdd => onMachine Vm.opAdd
  | opSub => onMachine Vm.opSub
  | opMul => onMachine Vm.opMul
  | opDiv => onMachine Vm.opDiv
  | opSdiv => onMachine Vm.opSdiv
  | opMod => onMachine Vm.opMod
  | opSmod => onMachine Vm.opSmod
  | opExp => onMachine Vm.opExp
  | opSignExtend => onMachine Vm.opSignExtend
  | opNot => onMachine Vm.opNot
  | opLt => onMachine Vm.opLt
  | opGt => onMachine Vm.opGt
  | opSlt => onMachine Vm.opSlt
  | opSgt => onMachine Vm.opSgt
  | opEq => onMachine Vm.opEq
  | opIszero => onMachine Vm.opIszero
  | opAnd => onMachine Vm.opAnd
  | opOr => onMachine Vm.opOr
  | opXor => onMachine Vm.opXor
  | opByte => onMachine Vm.opByte
  | opAddmod => onMachine Vm.opAddmod
  | opMulmod => onMachine Vm.opMulmod
  | opSHL => onMachine Vm.opSHL
  | opSHR => onMachine Vm.opSHR
  | opSAR => onMachine Vm.opSAR
  | opSha3 => Vm.opSha3 vm
  | opAddress => onMachine (Vm.opAddress c)
  | opBalance => Vm.opBalance vm
  | opOrigin => onMachine (Vm.opOrigin vm)
  | opCaller => onMachine (Vm.opCaller c)
  | opCallValue => onMachine (Vm.opCallValue c)
  | opCallDataLoad => onMachine (Vm.opCallDataLoad c)
  | opCallDataSize => onMachine (Vm.opCallDataSize c)
  | opCallDataCopy => onMachine (Vm.opCallDataCopy c)
  | opReturnDataSize => do
    let returnData ← onEvm (.read Interp.returnData)
    onMachine (Vm.opReturnDataSize returnData)
  | opReturnDataCopy => do
    let returnData ← onEvm (.read Interp.returnData)
    onMachine (Vm.opReturnDataCopy returnData)
  | opExtCodeSize => Vm.opExtCodeSize vm
  | opCodeSize => onMachine (Vm.opCodeSize c)
  | opCodeCopy => onMachine (Vm.opCodeCopy c)
  | opExtCodeCopy => Vm.opExtCodeCopy vm
  | opExtCodeHash => Vm.opExtCodeHash vm
  | opGasprice => onMachine (Vm.opGasprice vm)
  | opBlockhash => onMachine (Vm.opBlockhash vm)
  | opCoinbase => onMachine (Vm.opCoinbase vm)
  | opTimestamp => onMachine (Vm.opTimestamp vm)
  | opNumber => onMachine (Vm.opNumber vm)
  | opDifficulty => onMachine (Vm.opDifficulty vm)
  | opGasLimit => onMachine (Vm.opGasLimit vm)
  | opPop => onMachine Vm.opPop
  | opMload => onMachine Vm.opMload
  | opMstore => onMachine Vm.opMstore
  | opMstore8 => onMachine Vm.opMstore8
  | opSload => Vm.opSload vm c
  | opSstore => Vm.opSstore vm c
  | opJump => Vm.opJump c
  | opJumpi => Vm.opJumpi c
  | opJumpdest => onMachine Vm.opJumpdest
  | opBeginSub => onMachine Vm.opBeginSub
  | opJumpSub => Vm.opJumpSub c
  | opReturnSub => onMachine Vm.opReturnSub
  | opPc => onMachine Vm.opPc
  | opMsize => onMachine Vm.opMsize
  | opGas => do
    let gas ← .read Frame.Gas
    onMachine (Vm.opGas gas)
  | opCreate => Vm.opCreate vm c run
  | opCreate2 => Vm.opCreate2 vm c run
  | opCall => Vm.opCall vm c run
  | opCallCode => Vm.opCallCode vm c run
  | opDelegateCall => Vm.opDelegateCall vm c run
  | opStaticCall => Vm.opStaticCall vm c run
  | opReturn => onMachine Vm.opReturn
  | opRevert => onMachine Vm.opRevert
  | opStop => onMachine Vm.opStop
  | opSuicide => Vm.opSuicide vm c
  | opSelfBalance => Vm.opSelfBalance vm c
  | opChainID => onMachine (Vm.opChainID vm)
  | opPush1 => onMachine (Vm.opPush1 c)
  | makeLog size => Vm.makeLog vm c size
  | makePush size pushByteSize => onMachine (Vm.makePush c size pushByteSize)
  | makeDup size => onMachine (Vm.makeDup size)
  | makeSwap size => onMachine (Vm.makeSwap size)

end Web3.Vm
