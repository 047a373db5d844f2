import Web3.Executor.StateTransition

/-! # Gas counters

The uint64 counters `gas` and `initialGas` along a transition. Whatever is taken from `gas` is at most what
is left, and the refund is at most half of what was used, so that no operation on them wraps. -/

namespace Web3.Executor

/-- Executions return at most the gas that they get. -/
structure Vm.Frugal (vm : Vm) : Prop where
  create : ∀ caller code gas value s, (vm.create caller code gas value s).gas ≤ gas
  call : ∀ caller addr input gas value s, (vm.call caller addr input gas value s).gas ≤ gas

namespace StateTransition
variable {vm : Vm} {st : StateTransition}

def charge (st : StateTransition) (gas : UInt64) : UInt64 := if st.gas < gas then st.gas else gas

def refund (st : StateTransition) : UInt64 :=
  if st.gasUsed / 2 > st.state.getRefund then st.state.getRefund else st.gasUsed / 2

theorem toNat_charge (st : StateTransition) (gas : UInt64) : (st.charge gas).toNat = min st.gas.toNat gas.toNat := by
  unfold charge
  split
  next h =>
    rw [UInt64.lt_iff_toNat_lt] at h
    omega
  next h =>
    rw [UInt64.lt_iff_toNat_lt] at h
    omega

theorem payIntrinsic_gas (st : StateTransition) (gas : UInt64) :
    (st.payIntrinsic gas).1.gas = st.gas - st.charge gas ∧ (st.payIntrinsic gas).1.initialGas = st.initialGas := by
  unfold payIntrinsic charge
  split
  · exact ⟨(UInt64.sub_self ..).symm, rfl⟩
  · split <;> exact ⟨rfl, rfl⟩

theorem execute_gas (hvm : vm.Frugal) (st : StateTransition) :
    (st.execute vm).1.gas ≤ st.gas ∧ (st.execute vm).1.initialGas = st.initialGas := by
  unfold execute
  cases st.msg.To with
  | none => exact ⟨hvm.create .., rfl⟩
  | some addr => exact ⟨hvm.call .., rfl⟩

theorem runMessage_gas (hvm : vm.Frugal) (st : StateTransition) (gas : UInt64) :
    (st.runMessage vm gas).1.gas ≤ st.gas - st.charge gas ∧ (st.runMessage vm gas).1.initialGas = st.initialGas := by
  obtain ⟨hgas, hinitial⟩ := st.payIntrinsic_gas gas
  unfold runMessage
  split
  next st' hpay =>
    rw [hpay] at hgas hinitial
    obtain ⟨hexec, hkept⟩ := execute_gas hvm st'
    exact ⟨hgas ▸ hexec, hkept.trans hinitial⟩
  next st' vmerr hpay =>
    rw [hpay] at hgas hinitial
    exact ⟨UInt64.le_of_eq hgas, hinitial⟩

theorem refund_le (st : StateTransition) : st.refund.toNat ≤ st.gasUsed.toNat / 2 := by
  have hhalf : (st.gasUsed / 2).toNat = st.gasUsed.toNat / 2 := UInt64.toNat_div _ _
  unfold refund
  split
  next h =>
    have hlt := UInt64.lt_iff_toNat_lt.mp h
    omega
  · omega

theorem purchase_gas_le (st : StateTransition) : st.purchase.2 ≤ st.msg.Gas := by
  unfold purchase
  dsimp only
  split
  next h =>
    have hlt : st.state.getBalance st.msg.From / st.gasPrice < st.msg.Gas.toNat :=
      Nat.div_lt_of_lt_mul (by rwa [Nat.mul_comm])
    rw [UInt64.le_iff_toNat_le, UInt64.toNat_ofNat_of_lt' (lt_trans hlt st.msg.Gas.toNat_lt)]
    exact hlt.le
  · exact UInt64.le_refl _

theorem preCheck_eq_ok {st' : StateTransition} (h : st.preCheck = .ok st') : st' = st.buyGas := by
  unfold preCheck at h
  dsimp only at h
  split_ifs at h
  exact (Outcome.ok.inj h).symm

theorem transitionDb_eq_ok {res : ExecutionResult} {s' : State} (h : st.transitionDb vm = .ok (res, s')) :
    ∃ gas, intrinsicGas st.data st.msg.To.isNone vm.IsHomestead vm.IsIstanbul = .ok gas ∧
      ((st.buyGas.runMessage vm gas).1.settle (st.buyGas.runMessage vm gas).2.1 (st.buyGas.runMessage vm gas).2.2) =
        (res, s') := by
  obtain ⟨st', hcheck, h⟩ := Outcome.bind_eq_ok.mp h
  cases preCheck_eq_ok hcheck
  obtain ⟨gas, hgas, h⟩ := Outcome.bind_eq_ok.mp h
  exact ⟨gas, hgas, Outcome.ok.inj h⟩

end StateTransition

/-- **Gas counters do not wrap**: neither when the intrinsic gas is taken, nor when the refund is added, nor
when the used gas is computed before and after it. At least half of the intrinsic gas is paid for. -/
theorem gas_counters_bounded (vm : Vm) (hvm : vm.Frugal) (s : State) (msg : Message) (receiver : Address)
    (res : StateTransition.ExecutionResult) (s' : State)
    (h : (newStateTransition s msg receiver).transitionDb vm = .ok (res, s')) :
    ∃ (gas : UInt64) (st st' : StateTransition),
      intrinsicGas msg.Data msg.To.isNone vm.IsHomestead vm.IsIstanbul = .ok gas ∧
      st = (newStateTransition s msg receiver).buyGas ∧ st' = (st.runMessage vm gas).1 ∧
      st.charge gas ≤ st.gas ∧ st'.gas ≤ st'.initialGas ∧ st'.gas.toNat + st'.refund.toNat < 2 ^ 64 ∧
      st'.refundGas.gas ≤ st'.refundGas.initialGas ∧ st'.refund.toNat ≤ st'.gasUsed.toNat / 2 ∧
      res.UsedGas ≤ st.initialGas ∧ st.initialGas ≤ msg.Gas ∧
      (min st.initialGas.toNat gas.toNat + 1) / 2 ≤ res.UsedGas.toNat := by
  obtain ⟨gas, hgas, hsettle⟩ := StateTransition.transitionDb_eq_ok h
  refine ⟨gas, _, _, hgas, rfl, rfl, ?_⟩
  have hlimit : (newStateTransition s msg receiver).buyGas.initialGas ≤ msg.Gas :=
    StateTransition.purchase_gas_le _
  have hbought : (newStateTransition s msg receiver).buyGas.gas = (newStateTransition s msg receiver).buyGas.initialGas :=
    UInt64.zero_add _
  have hres : res.UsedGas = ((newStateTransition s msg receiver).buyGas.runMessage vm gas).1.refundGas.gasUsed := by
    have hfst : res = (((newStateTransition s msg receiver).buyGas.runMessage vm gas).1.settle _ _).1 :=
      (congrArg Prod.fst hsettle).symm
    rw [hfst]
    rfl
  generalize (newStateTransition s msg receiver).buyGas = st at hlimit hbought hres
  obtain ⟨hrun, hinitial⟩ := StateTransition.runMessage_gas hvm st gas
  generalize (st.runMessage vm gas).1 = st' at hrun hinitial hres
  -- the counters as numbers
  have hcharge := st.toNat_charge gas
  have hchargeLe : st.charge gas ≤ st.gas := by
    rw [UInt64.le_iff_toNat_le]
    omega
  rw [UInt64.le_iff_toNat_le, UInt64.toNat_sub_of_le _ _ hchargeLe, hcharge, hbought, ← hinitial] at hrun
  have hle : st'.gas ≤ st'.initialGas := by
    rw [UInt64.le_iff_toNat_le]
    omega
  have hused : st'.gasUsed.toNat = st'.initialGas.toNat - st'.gas.toNat := UInt64.toNat_sub_of_le _ _ hle
  have hrefund := st'.refund_le
  have hinitialLt := st'.initialGas.toNat_lt
  have hsum : st'.gas.toNat + st'.refund.toNat < 2 ^ 64 := by omega
  have hafter : st'.refundGas.gas.toNat = st'.gas.toNat + st'.refund.toNat := by
    have hadd : st'.refundGas.gas = st'.gas + st'.refund := rfl
    rw [hadd, UInt64.toNat_add, Nat.mod_eq_of_lt hsum]
  have hkept : st'.refundGas.initialGas = st'.initialGas := rfl
  have hafterLe : st'.refundGas.gas ≤ st'.refundGas.initialGas := by
    rw [UInt64.le_iff_toNat_le, hafter, hkept]
    omega
  have hreport : res.UsedGas.toNat = st'.initialGas.toNat - (st'.gas.toNat + st'.refund.toNat) := by
    rw [hres, StateTransition.gasUsed, UInt64.toNat_sub_of_le _ _ hafterLe, hafter, hkept]
  refine ⟨hchargeLe, hle, hsum, hafterLe, hrefund, ?_, hlimit, ?_⟩
  · rw [UInt64.le_iff_toNat_le, hreport, hinitial]
    omega
  · rw [hreport, ← hinitial]
    omega

def greedyVm : Vm where
  IsHomestead := true
  IsIstanbul := true
  create _ _ _ _ state := { ret := [], gas := 0, err := some "out of gas", state }
  call _ _ _ gas _ state := { ret := [], gas := gas / 2, err := none, state := { state with refund := 1 } }

theorem greedyVm_frugal : greedyVm.Frugal where
  create _ _ _ _ _ := UInt64.zero_le
  call _ _ _ gas _ _ := by
    rw [UInt64.le_iff_toNat_le]
    exact (UInt64.toNat_div gas 2).le.trans (Nat.div_le_self _ _)

def richState : State := { balance := fun _ => 1000000, nonce := fun _ => 0, refund := 0 }

def callMessage : Message where
  From := bytesToAddress [1]
  To := some (bytesToAddress [2])
  GasPrice := 2
  Gas := 30000
  Value := 0
  Nonce := 0
  CheckNonce := true
  Data := []

theorem gas_counters_bounded_call : ∃ res s',
    (newStateTransition richState callMessage (bytesToAddress [3])).transitionDb greedyVm = .ok (res, s') ∧
    res.UsedGas = 25499 ∧ ∃ (gas : UInt64) (st : StateTransition),
      st = (newStateTransition richState callMessage (bytesToAddress [3])).buyGas ∧ res.UsedGas ≤ st.initialGas ∧
      (min st.initialGas.toNat gas.toNat + 1) / 2 ≤ res.UsedGas.toNat := by
  obtain ⟨res, s', hres, hused⟩ : ∃ res s',
      (newStateTransition richState callMessage (bytesToAddress [3])).transitionDb greedyVm = .ok (res, s') ∧
      res.UsedGas = 25499 := ⟨_, _, rfl, by decide⟩
  obtain ⟨gas, st, st', -, hst, -, -, -, -, -, -, hle, -, hhalf⟩ :=
    gas_counters_bounded greedyVm greedyVm_frugal richState callMessage (bytesToAddress [3]) res s' hres
  exact ⟨res, s', hres, hused, gas, st, hst, hle, hhalf⟩

end Web3.Executor
