import Web3.Vm.JumpTable

/-! # The interpreter

`Run` of `interpreter.go`. One turn of its loop is `iteration`: the operation is looked up, the stack
and the write protection are checked (`permit`), the gas is charged and the memory resized (`charge`),
and the operation is executed (`perform`). The loop runs on fuel, and so do the runs that calls start.
The abort flag is not set, and the tracer is left out. -/

namespace Web3.Vm
open Storage (U256)
open ExecM

variable {σ : Type}

/-- What a run returns from the middle of its loop. -/
structure Halt where
  ret : Bytes
  err : Option VmError

def permit (vm : Evm σ) (code : OpCode) (operation : Operation) : ExecM σ Unit := do
  let stack ← onMachine (.read Machine.stack)
  if stack.length < operation.minStack then
    .throw (.errStackUnderflow stack.length operation.minStack)
  else if stack.length > operation.maxStack then
    .throw (.errStackOverflow stack.length operation.maxStack)
  else do
    let readOnly ← onEvm (.read Interp.readOnly)
    .when (readOnly ∧ vm.chainRules.IsByzantium) (if operation.writes then .throw .errWriteProtection
      else .when (code = OpCode.CALL) do
        let value ← onMachine (MachineM.back 2)
        .when (U256.sign value ≠ 0) (.throw .errWriteProtection))

def memoryNeeded (operation : Operation) : ExecM σ UInt64 :=
  match operation.memorySize with
  | none => return 0
  | some memorySize => do
    let (memSize, overflow) ← onMachine memorySize.run
    if overflow then .throw .errGasUintOverflow
    else do
      let (memorySize, overflow) := safeMul (toWordSize memSize) 32
      if overflow then .throw .errGasUintOverflow else return memorySize

def payGas (gas : UInt64) : ExecM σ Unit := do
  let ok ← useGas gas
  .when (!ok) (.throw .errOutOfGas)

def payDynamicGas (vm : Evm σ) (c : Contract) (operation : Operation) (memorySize : UInt64) : ExecM σ Unit :=
  match operation.dynamicGas with
  | none => return ()
  | some dynamicGas => do
    let cost ← (dynamicGas.run vm c memorySize).attempt
    match cost with
    | .error _ => .throw .errOutOfGas
    | .ok dynamicCost => payGas dynamicCost

/-- Charge the operation, and resize the memory for it. -/
def charge (vm : Evm σ) (c : Contract) (operation : Operation) : ExecM σ Unit := do
  payGas operation.constantGas
  let memorySize ← memoryNeeded operation
  payDynamicGas vm c operation memorySize
  .when (memorySize > 0)
    (onMachine (.modify fun m => { m with memory := m.memory.resize memorySize }))

def perform (vm : Evm σ) (run : RunFn σ) (c : Contract) (operation : Operation) : ExecM σ (Option Halt) := do
  let res ← (operation.execute.run vm run c).attempt
  -- the result is copied as it now is, also if it is a part of the memory
  let mem ← onMachine (.read Machine.memory)
  let copy := match res with
    | .ok res => mem.bytes res
    | .error _ => []
  .when operation.returns (onEvm (.modify fun i => { i with returnData := copy }))
  match res with
  | .error e => .throw e
  | .ok _ =>
    if operation.reverts then return some { ret := copy, err := some .errExecutionReverted }
    else if operation.halts then return some { ret := copy, err := none }
    else do
      .when (!operation.jumps) (onMachine (MachineM.setPc (· + 1)))
      return none

def iteration (vm : Evm σ) (jt : JumpTable) (run : RunFn σ) (c : Contract) : ExecM σ (Option Halt) := do
  let pc ← onMachine (.read Machine.pc)
  let code := c.getOp pc
  match jt.lookup code with
  | none => .throw (.errInvalidOpCode code)
  | some operation => do
    permit vm code operation
    charge vm c operation
    perform vm run c operation

def loop (turn : ExecM σ (Option Halt)) : ℕ → ExecM σ Halt
  | 0 => .halt .outOfFuel
  | n + 1 => do
    let h ← turn
    match h with
    | some h => return h
    | none => loop turn n

def inFrame (gas : UInt64) (m : ExecM σ Halt) : EvmM σ RunResult := fun i =>
  match m { machine := .init, Gas := gas, analysis := none, interp := i } with
  | .ok h f => .ok { ret := h.ret, err := h.err, gas := f.Gas } f.interp
  | .error e f => .ok { ret := [], err := some e, gas := f.Gas } f.interp
  | .stop s => .stop s

def runWith (turn : Contract → ExecM σ (Option Halt)) (n : ℕ) : RunFn σ :=
  fun c input readOnly gas => do
    .modify fun i => { i with depth := i.depth + 1 }
    -- the flag is taken back only by the run that has set it
    let wasReadOnly ← .read Interp.readOnly
    let sets := readOnly && !wasReadOnly
    .when sets (.modify fun i => { i with readOnly := true })
    .modify fun i => { i with returnData := [] }
    let r ← (if c.Code.length = 0 then pure { ret := [], err := none, gas }
      else inFrame gas (loop (turn { c with Input := input }) n))
    .when sets (.modify fun i => { i with readOnly := false })
    .modify fun i => { i with depth := i.depth - 1 }
    return r

def run (vm : Evm σ) (jt : JumpTable) : ℕ → RunFn σ
  | 0 => fun _ _ _ _ => .halt .outOfFuel
  | fuel + 1 => runWith (iteration vm jt (run vm jt fuel)) (fuel + 1)

end Web3.Vm
