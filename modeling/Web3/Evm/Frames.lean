import Web3.Storage.Snapshots

/-! # EVM frames

The entry points of `evm.go`: `Call`, `CallCode`, `DelegateCall`, `StaticCall`, `Create` and `Create2`,
on a `StateDB`. The interpreter is a parameter of each of them; `Frame` and `Body` are the finite trees
of what it may do: writes, nested frames and, at the end, its result. The tracer is left out, since
it only watches. Next to its result a frame leaves a trace of its writes (`Event`). -/

namespace Web3.Evm
open Storage

/-! ## Results -/

/-- The errors that `evm.go` names, and the others. -/
inductive VmError where
  | outOfGas
  | codeStoreOutOfGas
  | depth
  | insufficientBalance
  | contractAddressCollision
  | executionReverted
  | maxCodeSizeExceeded
  | other (msg : String)
  deriving DecidableEq

/-- What an execution of code returns: data, the gas that is left, and the error. -/
structure RunResult where
  ret : Bytes
  gas : UInt64
  err : Option VmError

/-- What a frame returns: it is refused before it starts, or it has run. -/
inductive FrameResult where
  | refused (gas : UInt64) (err : VmError)
  | ran (r : RunResult)

namespace FrameResult

def gas : FrameResult → UInt64
  | refused gas _ => gas
  | ran r => r.gas

def err : FrameResult → Option VmError
  | refused _ err => some err
  | ran r => r.err

end FrameResult

/-- A panic in a frame: of `RevertToSnapshot`, or of another method of the `StateDB`. -/
inductive Stop where
  | fault (msg : String)
  | revert (msg : String)

/-- What a frame did: a write, the increment of the caller's nonce by `create`, a nested frame. -/
inductive Event where
  | write (op : Op)
  | nonceBump (op : Op)
  | frame (inner : List Event) (err : Option VmError)

/-! ## Frame programs -/

def FrameM (α : Type) : Type := StateDB → Except Stop (α × StateDB × List Event)

instance : Monad FrameM where
  pure a := fun s => .ok (a, s, [])
  bind m f := fun s =>
    match m s with
    | .error e => .error e
    | .ok (a, s, log) =>
      match f a s with
      | .error e => .error e
      | .ok (b, s, log') => .ok (b, s, log ++ log')

namespace FrameM

def query {α : Type} (q : Query α) : FrameM α := fun s =>
  match s.query q with
  | .ok (a, s) => .ok (a, s, [])
  | .err e => .error (.fault e)
  | .panic p => .error (.fault p)

def apply (keccak256 : Bytes → Hash) (op : Op) (e : Event) : FrameM Unit := fun s =>
  match s.apply keccak256 op with
  | .ok s => .ok ((), s, [e])
  | .err e => .error (.fault e)
  | .panic p => .error (.fault p)

def snapshot : FrameM ℤ := fun s => .ok (s.snapshot.1, s.snapshot.2, [])

def revert (id : ℤ) : FrameM Unit := fun s =>
  match s.revertToSnapshot id with
  | .ok s => .ok ((), s, [])
  | .err e => .error (.revert e)
  | .panic p => .error (.revert p)

def nested (m : FrameM FrameResult) : FrameM FrameResult := fun s =>
  match m s with
  | .error e => .error e
  | .ok (r, s, log) => .ok (r, s, [.frame log r.err])

end FrameM

/-! ## The environment -/

structure PrecompiledContract where
  requiredGas : Bytes → UInt64
  run : Bytes → Bytes × Option VmError

def runPrecompiledContract (p : PrecompiledContract) (input : Bytes) (suppliedGas : UInt64) : RunResult :=
  let gasCost := p.requiredGas input
  if suppliedGas < gasCost then { ret := [], gas := 0, err := some .outOfGas }
  else
    let (output, err) := p.run input
    { ret := output, gas := suppliedGas - gasCost, err }

/-- The configuration, the chain rules and the functions of other packages that `evm.go` uses. -/
structure Env where
  NoRecursion : Bool
  IsHomestead : Bool
  IsEIP158 : Bool
  precompile : Address → Option PrecompiledContract
  keccak256Hash : Bytes → Hash
  createAddress : Address → UInt64 → Address
  createAddress2 : Address → Bytes → Hash → Address

def callCreateDepth : ℕ := 1024

def maxCodeSize : ℕ := 24576

def createDataGas : UInt64 := 200

namespace Env

def write (env : Env) (op : Op) : FrameM Unit := FrameM.apply env.keccak256Hash op (.write op)

def writeIf (env : Env) (flag : Bool) (op : Op) : FrameM Unit := if flag then env.write op else pure ()

def bumpNonce (env : Env) (op : Op) : FrameM Unit := FrameM.apply env.keccak256Hash op (.nonceBump op)

def canTransfer (addr : Address) (amount : ℤ) : Query Bool :=
  (Query.getBalance addr).map fun balance : ℕ => decide (amount ≤ (balance : ℤ))

def transfer (env : Env) (rnd rnd' : Rand) (sender recipient : Address) (amount : ℤ) : FrameM Unit := do
  env.write (.subBalance rnd sender amount)
  env.write (.addBalance rnd' recipient amount)

end Env

/-- `interpreter.Run`, on a contract with the given code and gas, for what the loop does. -/
def runInterpreter (code : Bytes) (gas : UInt64) (loop : FrameM RunResult) : FrameM RunResult :=
  if code.length = 0 then pure { ret := [], gas, err := none } else loop

/-- The end of a frame: its snapshot is kept on the stack, or reverted to. -/
inductive Finish where
  | commit (r : RunResult)
  | rollback (r : RunResult)

def Finish.settle (id : ℤ) : Finish → FrameM FrameResult
  | commit r => pure (.ran r)
  | rollback r => do
    FrameM.revert id
    pure (.ran r)

def withSnapshot (finish : RunResult → Finish) (body : FrameM RunResult) : FrameM FrameResult := do
  let id ← FrameM.snapshot
  let r ← body
  (finish r).settle id

/-! ## Calls -/

/-- The arguments that all calls have, and the values of the generator for the insertions that the
frame makes itself. -/
structure CallArgs where
  caller : Address
  addr : Address
  input : Bytes
  gas : UInt64
  rnd : ℕ → Rand

/-- On an error the state is reverted, and the gas is consumed unless execution was reverted. -/
def finishCall (r : RunResult) : Finish :=
  match r.err with
  | none => .commit r
  | some e => .rollback { r with gas := if e = .executionReverted then r.gas else 0 }

def runAddress (env : Env) (a : CallArgs) (loop : FrameM RunResult) : FrameM RunResult :=
  match env.precompile a.addr with
  | some p => pure (runPrecompiledContract p a.input a.gas)
  | none => do
    let _ ← FrameM.query (Query.getCodeHash a.addr)
    let code ← FrameM.query (Query.getCode a.addr)
    runInterpreter code a.gas loop

def callBody (env : Env) (a : CallArgs) (value : ℤ) (loop : FrameM RunResult) : FrameM RunResult := do
  let exist ← FrameM.query (Query.exist a.addr)
  if !exist && (env.precompile a.addr).isNone && env.IsEIP158 && value = 0 then
    pure { ret := [], gas := a.gas, err := none }
  else do
    env.writeIf (!exist) (.createAccount a.addr)
    env.transfer (a.rnd 0) (a.rnd 1) a.caller a.addr value
    match env.precompile a.addr with
    | some p => pure (runPrecompiledContract p a.input a.gas)
    | none => do
      let code ← FrameM.query (Query.getCode a.addr)
      if code.length = 0 then pure { ret := [], gas := a.gas, err := none }
      else do
        let _ ← FrameM.query (Query.getCodeHash a.addr)
        runInterpreter code a.gas loop

variable (env : Env) (depth : ℕ) (a : CallArgs)

def call (value : ℤ) (loop : FrameM RunResult) : FrameM FrameResult :=
  if env.NoRecursion && depth > 0 then pure (.ran { ret := [], gas := a.gas, err := none })
  else if depth > callCreateDepth then pure (.refused a.gas .depth)
  else do
    let enough ← FrameM.query (if value = 0 then Query.const true else Env.canTransfer a.caller value)
    if !enough then pure (.refused a.gas .insufficientBalance)
    else withSnapshot finishCall (callBody env a value loop)

def callCode (value : ℤ) (loop : FrameM RunResult) : FrameM FrameResult :=
  if env.NoRecursion && depth > 0 then pure (.ran { ret := [], gas := a.gas, err := none })
  else if depth > callCreateDepth then pure (.refused a.gas .depth)
  else do
    let enough ← FrameM.query (Env.canTransfer a.caller value)
    if !enough then pure (.refused a.gas .insufficientBalance)
    else withSnapshot finishCall (runAddress env a loop)

def delegateCall (loop : FrameM RunResult) : FrameM FrameResult :=
  if env.NoRecursion && depth > 0 then pure (.ran { ret := [], gas := a.gas, err := none })
  else if depth > callCreateDepth then pure (.refused a.gas .depth)
  else withSnapshot finishCall (runAddress env a loop)

def staticCall (loop : FrameM RunResult) : FrameM FrameResult :=
  if env.NoRecursion && depth > 0 then pure (.ran { ret := [], gas := a.gas, err := none })
  else if depth > callCreateDepth then pure (.refused a.gas .depth)
  else withSnapshot finishCall do
    env.write (.addBalance (a.rnd 0) a.addr 0)
    runAddress env a loop

/-! ## Creation -/

structure CreateArgs where
  caller : Address
  code : Bytes
  gas : UInt64
  value : ℤ
  rnd : ℕ → Rand

def maxCodeSizeExceeded (env : Env) (r : RunResult) : Bool :=
  env.IsEIP158 && r.ret.length > maxCodeSize

def storeCode (env : Env) (rnd : Rand) (address : Address) (r : RunResult) : FrameM RunResult :=
  let createDataGas := UInt64.ofNat r.ret.length * createDataGas
  if r.err = none && !maxCodeSizeExceeded env r then
    if createDataGas ≤ r.gas then do
      env.write (.setCode rnd address r.ret)
      pure { r with gas := r.gas - createDataGas }
    else pure { r with err := some .codeStoreOutOfGas }
  else pure r

def createBody (env : Env) (depth : ℕ) (a : CreateArgs) (address : Address)
    (loop : FrameM RunResult) : FrameM RunResult := do
  env.write (.createAccount address)
  env.writeIf env.IsEIP158 (.setNonce (a.rnd 1) address 1)
  env.transfer (a.rnd 2) (a.rnd 3) a.caller address a.value
  if env.NoRecursion && depth > 0 then pure { ret := [], gas := a.gas, err := none }
  else do
    let r ← runInterpreter a.code a.gas loop
    storeCode env (a.rnd 4) address r

/-- Before Homestead, code that could not be paid for was no reason to revert. -/
def finishCreate (env : Env) (r : RunResult) : Finish :=
  let exceeded := maxCodeSizeExceeded env r
  let revert := exceeded ||
    (r.err ≠ none && (env.IsHomestead || r.err ≠ some .codeStoreOutOfGas))
  let gas := if revert && r.err ≠ some .executionReverted then 0 else r.gas
  let err := if exceeded && r.err = none then some .maxCodeSizeExceeded else r.err
  if revert then .rollback { r with gas, err } else .commit { r with gas, err }

variable (env : Env) (depth : ℕ) (a : CreateArgs)

/-- The result of `create` comes with the address of the contract. The caller's nonce is incremented
before the snapshot is taken. -/
def create (address : Address) (loop : FrameM RunResult) : FrameM (FrameResult × Address) :=
  if depth > callCreateDepth then pure (.refused a.gas .depth, Address.zero)
  else do
    let enough ← FrameM.query (Env.canTransfer a.caller a.value)
    if !enough then pure (.refused a.gas .insufficientBalance, Address.zero)
    else do
      let nonce ← FrameM.query (Query.getNonce a.caller)
      env.bumpNonce (.setNonce (a.rnd 0) a.caller (nonce + 1))
      let contractHash ← FrameM.query (Query.getCodeHash address)
      let taken ← FrameM.query (Query.getNonce address)
      if taken ≠ 0 || (contractHash ≠ Hash.zero && contractHash ≠ env.keccak256Hash []) then
        pure (.refused 0 .contractAddressCollision, Address.zero)
      else do
        let r ← withSnapshot (finishCreate env) (createBody env depth a address loop)
        pure (r, address)

def Create (loop : FrameM RunResult) : FrameM (FrameResult × Address) := do
  let nonce ← FrameM.query (Query.getNonce a.caller)
  create env depth a (env.createAddress a.caller nonce) loop

def create2 (salt : Bytes) (loop : FrameM RunResult) : FrameM (FrameResult × Address) :=
  create env depth a (env.createAddress2 a.caller salt (env.keccak256Hash a.code)) loop

/-! ## Trees of frames -/

mutual

inductive Frame where
  | call (a : CallArgs) (value : ℤ) (body : Body)
  | callCode (a : CallArgs) (value : ℤ) (body : Body)
  | delegateCall (a : CallArgs) (body : Body)
  | staticCall (a : CallArgs) (body : Body)
  | create (a : CreateArgs) (body : Body)
  | create2 (a : CreateArgs) (salt : Bytes) (body : Body)

/-- Calls on the `StateDB` and nested frames, and the result of the interpreter. -/
inductive Body where
  | done (out : RunResult)
  | op (op : Op) (rest : Body)
  | frame (f : Frame) (rest : Body)

end

mutual

def Frame.exec (env : Env) (depth : ℕ) : Frame → FrameM FrameResult
  | .call a value body => call env depth a value (body.exec env (depth + 1))
  | .callCode a value body => callCode env depth a value (body.exec env (depth + 1))
  | .delegateCall a body => delegateCall env depth a (body.exec env (depth + 1))
  | .staticCall a body => staticCall env depth a (body.exec env (depth + 1))
  | .create a body => do
    let r ← Create env depth a (body.exec env (depth + 1))
    pure r.1
  | .create2 a salt body => do
    let r ← create2 env depth a salt (body.exec env (depth + 1))
    pure r.1

def Body.exec (env : Env) (depth : ℕ) : Body → FrameM RunResult
  | .done out => pure out
  | .op op rest => do
    env.write op
    rest.exec env depth
  | .frame f rest => do
    let _ ← FrameM.nested (f.exec env depth)
    rest.exec env depth

end

end Web3.Evm
