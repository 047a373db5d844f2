import Web3.Foundations.Programs
import Web3.Vm.Words

/-! # The machine of a frame

The stack, the memory and the program counter that one run of the interpreter has for itself
(`stack.go`, `memory.go`), and the sizes that instructions need (`memory_table.go`, `common.go`). A
slice that `GetPtr` returns is a view of the memory: its bytes are those of the memory at the time it
is read. -/

namespace Web3.Vm
open Storage (U256)

/-- The errors of `errors/errors.go` and `errors.go`, and the one of the gas table. -/
inductive VmError where
  | errInvalidSubroutineEntry
  | errOutOfGas
  | errCodeStoreOutOfGas
  | errDepth
  | errInsufficientBalance
  | errContractAddressCollision
  | errExecutionReverted
  | errMaxCodeSizeExceeded
  | errInvalidJump
  | errWriteProtection
  | errReturnDataOutOfBounds
  | errGasUintOverflow
  | errInvalidRetsub
  | errReturnStackExceeded
  | errStackUnderflow (stackLen required : ℕ)
  | errStackOverflow (stackLen limit : ℕ)
  | errInvalidOpCode (opcode : UInt8)
  | other (msg : String)
  deriving DecidableEq

/-! ## Memory -/

structure Memory where
  store : Bytes
  lastGasCost : UInt64

/-- A byte slice that an instruction makes: bytes of its own, or a part of the memory. -/
inductive Slice where
  | own (bs : Bytes)
  | view (offset size : ℕ)

def Slice.nil : Slice := .own []

def overwrite (store : Bytes) (offset : ℕ) (bs : Bytes) : Bytes :=
  store.take offset ++ bs ++ store.drop (offset + bs.length)

namespace Memory

def newMemory : Memory := { store := [], lastGasCost := 0 }

variable (m : Memory)

/-- The bytes of a slice, with the memory as it is now. -/
def bytes : Slice → Bytes
  | .own bs => bs
  | .view offset size => (m.store.drop offset).take size

def len : ℕ := m.store.length

def set (offset size : UInt64) (value : Bytes) : Except String Memory :=
  if size > 0 then
    -- the sum may wrap around, and then the slice below is out of range
    if (offset + size).toNat > m.len then .error "invalid memory: store empty"
    else if offset + size < offset then .error "slice bounds out of range"
    else .ok { m with store := overwrite m.store offset.toNat (value.take size.toNat) }
  else .ok m

def set32 (offset : UInt64) (val : U256) : Except String Memory :=
  if (offset + 32).toNat > m.len then .error "invalid memory: store empty"
  else if offset + 32 < offset then .error "slice bounds out of range"
  else .ok { m with store := overwrite m.store offset.toNat (U256.bytes32 val).1 }

def setByte (offset : UInt64) (b : UInt8) : Except String Memory :=
  if offset.toNat < m.len then .ok { m with store := m.store.set offset.toNat b }
  else .error "index out of range"

def resize (size : UInt64) : Memory :=
  if m.len < size.toNat then
    { m with store := m.store ++ List.replicate (size.toNat - m.len) 0 }
  else m

def getPtr (offset size : ℤ) : Except String Slice :=
  if size = 0 then .ok .nil
  else if m.len > offset then
    if 0 ≤ offset ∧ 0 ≤ size ∧ offset + size ≤ m.len then .ok (.view offset.toNat size.toNat)
    else .error "slice bounds out of range"
  else .ok .nil

def getCopy (offset size : ℤ) : Except String Bytes :=
  (m.getPtr offset size).map m.bytes

end Memory

/-! ## Sizes -/

def calcMemSize64WithUint (off : U256) (length64 : UInt64) : UInt64 × Bool :=
  if length64 = 0 then (0, false)
  else
    let (offset64, overflow) := U256.uint64WithOverflow off
    if overflow then (0, true)
    else
      let val := offset64 + length64
      (val, val < offset64)

def calcMemSize64 (off l : U256) : UInt64 × Bool :=
  if !U256.isUint64 l then (0, true) else calcMemSize64WithUint off (U256.uint64 l)

def toWordSize (size : UInt64) : UInt64 :=
  if size > 0xffffffffffffffff - 31 then 0xffffffffffffffff / 32 + 1 else (size + 31) / 32

/-- The bytes of `data` from `start` on, padded with zeros up to `size`. -/
def getData (data : Bytes) (start size : UInt64) : Except String Bytes :=
  let length := UInt64.ofNat data.length
  let start := if start > length then length else start
  let stop := start + size
  let stop := if stop > length then length else stop
  (slice data start.toNat stop.toNat).map fun bs => rightPadBytes bs (toInt size)

/-! ## The machine -/

/-- The top of the stack is the head of the list, and so for the return stack. -/
structure Machine where
  pc : UInt64
  memory : Memory
  stack : List U256
  rstack : List UInt32

def Machine.init : Machine := { pc := 0, memory := .newMemory, stack := [], rstack := [] }

/-- Programs on the machine; they stop where Go panics. -/
abbrev MachineM := Prog Machine VmError String

namespace MachineM

def pop : MachineM U256 := fun m =>
  match m.stack with
  | x :: xs => .ok x { m with stack := xs }
  | [] => .stop "index out of range"

def push (x : U256) : MachineM Unit := .modify fun m => { m with stack := x :: m.stack }

def back (n : ℕ) : MachineM U256 := fun m =>
  match m.stack[n]? with
  | some x => .ok x m
  | none => .stop "index out of range"

def peek : MachineM U256 := back 0

def setTop (x : U256) : MachineM Unit := .modify fun m => { m with stack := m.stack.set 0 x }

def dup (n : ℕ) : MachineM Unit := do
  let x ← back (n - 1)
  push x

def swap (n : ℕ) : MachineM Unit := do
  let x ← back (n - 1)
  let y ← back 0
  .modify fun m => { m with stack := (m.stack.set (n - 1) y).set 0 x }

/-- A function of the memory that may panic. -/
def onMemory {α : Type} (f : Memory → Except String α) : MachineM α := fun m =>
  match f m.memory with
  | .ok a => .ok a m
  | .error e => .stop e

/-- A change of the memory that may panic. -/
def updateMemory (f : Memory → Except String Memory) : MachineM Unit := fun m =>
  match f m.memory with
  | .ok memory => .ok () { m with memory }
  | .error e => .stop e

def setPc (f : UInt64 → UInt64) : MachineM Unit := .modify fun m => { m with pc := f m.pc }

end MachineM

open MachineM

/-! ## What an instruction needs of the memory -/

/-- The size of the region whose offset and length are at the given places of the stack. -/
def memoryRegion (off l : ℕ) : MachineM (UInt64 × Bool) := do
  let off ← back off
  let l ← back l
  return calcMemSize64 off l

def memoryWord (length64 : UInt64) : MachineM (UInt64 × Bool) := do
  let off ← back 0
  return calcMemSize64WithUint off length64

def memoryRegions (x y : MachineM (UInt64 × Bool)) : MachineM (UInt64 × Bool) := do
  let (x, overflow) ← x
  if overflow then return (0, true)
  else
    let (y, overflow) ← y
    if overflow then return (0, true)
    else return (if x > y then x else y, false)

def memorySha3 := memoryRegion 0 1

def memoryCallDataCopy := memoryRegion 0 2

def memoryReturnDataCopy := memoryRegion 0 2

def memoryCodeCopy := memoryRegion 0 2

def memoryExtCodeCopy := memoryRegion 1 3

def memoryMLoad := memoryWord 32

def memoryMStore8 := memoryWord 1

def memoryMStore := memoryWord 32

def memoryCreate := memoryRegion 1 2

def memoryCreate2 := memoryRegion 1 2

def memoryCall := memoryRegions (memoryRegion 5 6) (memoryRegion 3 4)

def memoryDelegateCall := memoryRegions (memoryRegion 4 5) (memoryRegion 2 3)

def memoryStaticCall := memoryRegions (memoryRegion 4 5) (memoryRegion 2 3)

def memoryReturn := memoryRegion 0 1

def memoryRevert := memoryRegion 0 1

def memoryLog := memoryRegion 0 1

/-- The functions that a jump table names. -/
inductive MemorySizeFunc where
  | memorySha3 | memoryCallDataCopy | memoryReturnDataCopy | memoryCodeCopy | memoryExtCodeCopy
  | memoryMLoad | memoryMStore8 | memoryMStore | memoryCreate | memoryCreate2
  | memoryCall | memoryDelegateCall | memoryStaticCall | memoryReturn | memoryRevert | memoryLog
  deriving DecidableEq

def MemorySizeFunc.run : MemorySizeFunc → MachineM (UInt64 × Bool)
  | memorySha3 => Vm.memorySha3
  | memoryCallDataCopy => Vm.memoryCallDataCopy
  | memoryReturnDataCopy => Vm.memoryReturnDataCopy
  | memoryCodeCopy => Vm.memoryCodeCopy
  | memoryExtCodeCopy => Vm.memoryExtCodeCopy
  | memoryMLoad => Vm.memoryMLoad
  | memoryMStore8 => Vm.memoryMStore8
  | memoryMStore => Vm.memoryMStore
  | memoryCreate => Vm.memoryCreate
  | memoryCreate2 => Vm.memoryCreate2
  | memoryCall => Vm.memoryCall
  | memoryDelegateCall => Vm.memoryDelegateCall
  | memoryStaticCall => Vm.memoryStaticCall
  | memoryReturn => Vm.memoryReturn
  | memoryRevert => Vm.memoryRevert
  | memoryLog => Vm.memoryLog

end Web3.Vm
