import Web3.Foundations.Outcome
import Web3.Primitives

/-! # State transitions

`state_transition.go`: buying gas, the intrinsic gas of a message, its execution, and what is paid back
and paid out afterwards. The state is a map of balances with nonces and a refund counter, which
`AddBalance` and `SubBalance` update exactly; the EVM is a parameter. A gas price and a balance are
nonnegative `big.Int`s, gas is a `uint64`. -/

namespace Web3.Executor

/-! ## The state -/

structure State where
  balance : Address → ℕ
  nonce : Address → UInt64
  refund : UInt64

namespace State

variable (s : State) (addr : Address)

def getBalance : ℕ := s.balance addr

def subBalance (val : ℕ) : State :=
  { s with balance := Function.update s.balance addr (s.balance addr - val) }

def addBalance (val : ℕ) : State :=
  { s with balance := Function.update s.balance addr (s.balance addr + val) }

def getNonce : UInt64 := s.nonce addr

def setNonce (nonce : UInt64) : State :=
  { s with nonce := Function.update s.nonce addr nonce }

def getRefund (s : State) : UInt64 := s.refund

end State

/-! ## Messages and the EVM -/

structure Message where
  From : Address
  To : Option Address
  GasPrice : ℕ
  Gas : UInt64
  Value : ℤ
  Nonce : UInt64
  CheckNonce : Bool
  Data : Bytes

structure VmResult where
  ret : Bytes
  gas : UInt64
  err : Option String
  state : State

/-- The EVM of a transition: the chain rules, and its two entry points. -/
structure Vm where
  IsHomestead : Bool
  IsIstanbul : Bool
  create : (caller : Address) → (code : Bytes) → (gas : UInt64) → (value : ℤ) → State → VmResult
  call : (caller addr : Address) → (input : Bytes) → (gas : UInt64) → (value : ℤ) → State → VmResult

def canTransfer (s : State) (addr : Address) (amount : ℤ) : Bool := amount ≤ (s.getBalance addr : ℤ)

/-! ## Intrinsic gas -/

def txGas : UInt64 := 21000

def txGasContractCreation : UInt64 := 53000

def txDataZeroGas : UInt64 := 4

def txDataNonZeroGasFrontier : UInt64 := 68

def txDataNonZeroGasEIP2028 : UInt64 := 16

def maxUint64 : UInt64 := 0xFFFFFFFFFFFFFFFF

def intrinsicGas (data : Bytes) (contractCreation isHomestead isEIP2028 : Bool) : Outcome UInt64 :=
  let gas := if contractCreation && isHomestead then txGasContractCreation else txGas
  if data.length > 0 then
    let nz := UInt64.ofNat (data.countP (· ≠ 0))
    let nonZeroGas := if isEIP2028 then txDataNonZeroGasEIP2028 else txDataNonZeroGasFrontier
    if (maxUint64 - gas) / nonZeroGas < nz then .panic "gas uint64 overflow"
    else
      let gas := gas + nz * nonZeroGas
      let z := UInt64.ofNat data.length - nz
      if (maxUint64 - gas) / txDataZeroGas < z then .panic "gas uint64 overflow"
      else .ok (gas + z * txDataZeroGas)
  else .ok gas

/-! ## The transition -/

structure StateTransition where
  msg : Message
  gas : UInt64
  gasPrice : ℕ
  initialGas : UInt64
  value : ℤ
  data : Bytes
  state : State
  GasReceiver : Address

def newStateTransition (state : State) (msg : Message) (feeReceiver : Address) : StateTransition :=
  { msg
    gas := 0
    gasPrice := msg.GasPrice
    initialGas := 0
    value := msg.Value
    data := msg.Data
    state
    GasReceiver := feeReceiver }

namespace StateTransition

variable (st : StateTransition)

def recipient : Address := st.msg.To.getD Address.zero

def purchase : ℕ × UInt64 :=
  let gas := st.msg.Gas
  let mgval := gas.toNat * st.gasPrice
  let balance := st.state.getBalance st.msg.From
  if balance < mgval then
    -- `mgval = have` shares the number that `have.Div(have, st.gasPrice)` then divides in place
    (balance / st.gasPrice, UInt64.ofNat (balance / st.gasPrice))
  else (mgval, gas)

def buyGas : StateTransition :=
  let (mgval, gas) := st.purchase
  { st with
    gas := st.gas + gas
    initialGas := gas
    state := st.state.subBalance st.msg.From mgval }

def nonceError (err : String) : String :=
  err ++ ": address " ++ st.msg.From.string ++ ", tx: " ++ toString st.msg.Nonce ++ " state: " ++
    toString (st.state.getNonce st.msg.From)

def preCheck : Outcome StateTransition :=
  let stNonce := st.state.getNonce st.msg.From
  if st.msg.CheckNonce && stNonce < st.msg.Nonce then .err (st.nonceError "nonce too high")
  else if st.msg.CheckNonce && stNonce > st.msg.Nonce then .err (st.nonceError "nonce too low")
  else .ok st.buyGas

def gasUsed : UInt64 := st.initialGas - st.gas

def refundGas : StateTransition :=
  let refund := st.gasUsed / 2
  let refund := if refund > st.state.getRefund then st.state.getRefund else refund
  let gas := st.gas + refund
  { st with gas, state := st.state.addBalance st.msg.From (gas.toNat * st.gasPrice) }

def payIntrinsic (gas : UInt64) : StateTransition × Option String :=
  if st.gas < gas then
    ({ st with gas := 0 }, some ("intrinsic gas too low: have " ++ toString st.gas ++ ", want " ++ toString gas))
  else if st.msg.Value > 0 && !canTransfer st.state st.msg.From st.msg.Value then
    ({ st with gas := st.gas - gas }, some ("insufficient funds for transfer: address " ++ st.msg.From.string))
  else ({ st with gas := st.gas - gas }, none)

def incNonce : State :=
  st.state.setNonce st.msg.From (st.state.getNonce st.msg.From + 1)

def execute (vm : Vm) (st : StateTransition) : StateTransition × Bytes × Option String :=
  let r := match st.msg.To with
    | none => vm.create st.msg.From st.data st.gas st.value st.state
    | some _ => vm.call st.msg.From st.recipient st.data st.gas st.value st.incNonce
  ({ st with gas := r.gas, state := r.state }, r.ret, r.err)

structure ExecutionResult where
  UsedGas : UInt64
  Err : Option String
  ReturnData : Bytes

/-- From the intrinsic gas to the end of the execution. A message that is not executed still uses up its
nonce. -/
def runMessage (vm : Vm) (st : StateTransition) (gas : UInt64) : StateTransition × Bytes × Option String :=
  match st.payIntrinsic gas with
  | (st, none) => st.execute vm
  | (st, some vmerr) => ({ st with state := st.incNonce }, [], some vmerr)

def settle (st : StateTransition) (ret : Bytes) (vmerr : Option String) : ExecutionResult × State :=
  let st := st.refundGas
  let gAmount := st.gasUsed.toNat * st.gasPrice
  let state := st.state.addBalance st.GasReceiver gAmount
  ({ UsedGas := st.gasUsed, Err := vmerr, ReturnData := ret }, state)

def transitionDb (vm : Vm) (st : StateTransition) : Outcome (ExecutionResult × State) := do
  let st ← st.preCheck
  let gas ← intrinsicGas st.data st.msg.To.isNone vm.IsHomestead vm.IsIstanbul
  let (st, ret, vmerr) := st.runMessage vm gas
  .ok (st.settle ret vmerr)

end StateTransition
end Web3.Executor
