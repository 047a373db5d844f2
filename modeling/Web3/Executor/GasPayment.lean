import Mathlib.Algebra.BigOperators.Group.Finset.Piecewise
import Mathlib.Data.FinEnum
import Mathlib.Data.Fintype.Vector
import Web3.Executor.StateTransition

/-! # What gas costs

The sum of all balances along a transition. Buying gas takes a debit from the sender; what is paid back
and what the receiver gets are, together, the bought gas at its price. So the sum is unchanged exactly
when the debit is that much, which fails for a sender who cannot afford the gas limit, unless no gas is
bought at all or a unit of gas costs one wei. -/

namespace Web3.Executor

instance : Fintype Address := inferInstanceAs (Fintype (List.Vector UInt8 20))

def State.total (s : State) : ℕ := ∑ a : Address, s.balance a

/-- An EVM whose executions preserve the sum of all balances and return at most the gas they get. -/
structure Vm.Conserves (vm : Vm) : Prop where
  create_total : ∀ caller code gas value s, (vm.create caller code gas value s).state.total = s.total
  create_gas : ∀ caller code gas value s, (vm.create caller code gas value s).gas ≤ gas
  call_total : ∀ caller addr input gas value s, (vm.call caller addr input gas value s).state.total = s.total
  call_gas : ∀ caller addr input gas value s, (vm.call caller addr input gas value s).gas ≤ gas

/-! ## Sums -/

theorem sum_update (b : Address → ℕ) (a : Address) (v : ℕ) : ∑ x, Function.update b a v x + b a = ∑ x, b x + v := by
  rw [Finset.sum_update_of_mem (Finset.mem_univ a), Finset.sdiff_singleton_eq_erase,
    ← Finset.add_sum_erase _ b (Finset.mem_univ a)]
  omega

namespace State

theorem total_addBalance (s : State) (a : Address) (v : ℕ) : (s.addBalance a v).total = s.total + v := by
  have := sum_update s.balance a (s.balance a + v)
  show ∑ x, Function.update s.balance a (s.balance a + v) x = _
  rw [total]
  omega

theorem total_subBalance (s : State) {a : Address} {v : ℕ} (hv : v ≤ s.getBalance a) :
    (s.subBalance a v).total + v = s.total := by
  have := sum_update s.balance a (s.balance a - v)
  have hv : v ≤ s.balance a := hv
  show ∑ x, Function.update s.balance a (s.balance a - v) x + v = _
  rw [total]
  omega

theorem total_setNonce (s : State) (a : Address) (n : UInt64) : (s.setNonce a n).total = s.total := rfl

end State

namespace StateTransition
variable {vm : Vm} {st : StateTransition}

/-! ## Buying gas -/

theorem purchase_le (st : StateTransition) : st.purchase.1 ≤ st.state.getBalance st.msg.From := by
  rw [purchase]
  split
  · exact Nat.div_le_self _ _
  · omega

theorem total_buyGas (st : StateTransition) : st.buyGas.state.total + st.purchase.1 = st.state.total :=
  st.state.total_subBalance st.purchase_le

/-- The debit is the price of the bought gas exactly when the sender can afford the gas limit, or one
unit of gas costs one wei, or not even one unit is bought. -/
theorem purchase_exact_iff (st : StateTransition) (hprice : 0 < st.gasPrice) :
    st.purchase.1 = st.purchase.2.toNat * st.gasPrice ↔
      st.msg.Gas.toNat * st.gasPrice ≤ st.state.getBalance st.msg.From ∨ st.gasPrice = 1 ∨
        st.state.getBalance st.msg.From < st.gasPrice := by
  set balance := st.state.getBalance st.msg.From with hbalance
  by_cases hafford : st.msg.Gas.toNat * st.gasPrice ≤ balance
  · rw [purchase, if_neg (by omega)]
    exact iff_of_true rfl (.inl hafford)
  have hlt : balance / st.gasPrice < st.msg.Gas.toNat :=
    (Nat.div_lt_iff_lt_mul hprice).mpr (by omega)
  have hfits : (UInt64.ofNat (balance / st.gasPrice)).toNat = balance / st.gasPrice :=
    UInt64.toNat_ofNat_of_lt' (hlt.trans st.msg.Gas.toNat_lt)
  rw [purchase, if_pos (by omega)]
  dsimp only
  rw [hfits, or_iff_right hafford, eq_comm, ← hbalance, mul_right_eq_self₀, Nat.div_eq_zero_iff]
  omega

/-! ## Spending it -/

/-- What happens between buying gas and paying it back: gas is used, and the sum of all balances stays
as it is. -/
structure Spends (st st' : StateTransition) : Prop where
  msg : st'.msg = st.msg
  gasPrice : st'.gasPrice = st.gasPrice
  initialGas : st'.initialGas = st.initialGas
  gas : st'.gas ≤ st.gas
  total : st'.state.total = st.state.total

theorem Spends.trans {st' st'' : StateTransition} (h : Spends st st') (h' : Spends st' st'') : Spends st st'' :=
  ⟨h'.msg.trans h.msg, h'.gasPrice.trans h.gasPrice, h'.initialGas.trans h.initialGas,
    UInt64.le_trans h'.gas h.gas, h'.total.trans h.total⟩

theorem spends_payIntrinsic (st : StateTransition) (gas : UInt64) : Spends st (st.payIntrinsic gas).1 := by
  rw [payIntrinsic]
  split
  · exact ⟨rfl, rfl, rfl, UInt64.zero_le, rfl⟩
  · next h =>
    have hle : st.gas - gas ≤ st.gas := UInt64.sub_le (UInt64.not_lt.mp h)
    split <;> exact ⟨rfl, rfl, rfl, hle, rfl⟩

theorem spends_execute (hvm : vm.Conserves) (st : StateTransition) : Spends st (st.execute vm).1 := by
  rw [execute]
  cases st.msg.To with
  | none => exact ⟨rfl, rfl, rfl, hvm.create_gas .., hvm.create_total ..⟩
  | some addr =>
    refine ⟨rfl, rfl, rfl, hvm.call_gas .., ?_⟩
    exact (hvm.call_total ..).trans (State.total_setNonce ..)

theorem spends_runMessage (hvm : vm.Conserves) (st : StateTransition) (gas : UInt64) :
    Spends st (st.runMessage vm gas).1 := by
  have hpay := st.spends_payIntrinsic gas
  rw [runMessage]
  split
  · next st' hst' =>
    rw [hst'] at hpay
    exact hpay.trans (st'.spends_execute hvm)
  · next st' vmerr hst' =>
    rw [hst'] at hpay
    exact hpay.trans ⟨rfl, rfl, rfl, UInt64.le_refl _, State.total_setNonce ..⟩

/-! ## Paying it back -/

theorem refundGas_gas (h : st.gas ≤ st.initialGas) : st.refundGas.gas ≤ st.initialGas := by
  have hused : st.gasUsed.toNat = st.initialGas.toNat - st.gas.toNat :=
    UInt64.toNat_sub_of_le _ _ h
  have hle := UInt64.le_iff_toNat_le.mp h
  have hhalf : (st.gasUsed / 2).toNat = st.gasUsed.toNat / 2 := UInt64.toNat_div _ _
  have hrefund : (if st.gasUsed / 2 > st.state.getRefund then st.state.getRefund
      else st.gasUsed / 2).toNat ≤ (st.initialGas.toNat - st.gas.toNat) / 2 := by
    split
    · next hgt =>
      have := UInt64.lt_iff_toNat_lt.mp hgt
      omega
    · omega
  have hbound := st.initialGas.toNat_lt
  show st.gas + _ ≤ st.initialGas
  rw [UInt64.le_iff_toNat_le, UInt64.toNat_add, Nat.mod_eq_of_lt (by omega)]
  omega

theorem total_settle (h : st.gas ≤ st.initialGas) (ret : Bytes) (vmerr : Option String) :
    (st.settle ret vmerr).2.total = st.state.total + st.initialGas.toNat * st.gasPrice := by
  have hgas := refundGas_gas h
  have hused : st.refundGas.gasUsed.toNat = st.initialGas.toNat - st.refundGas.gas.toNat :=
    UInt64.toNat_sub_of_le _ _ hgas
  have hback : st.refundGas.state.total = st.state.total + st.refundGas.gas.toNat * st.gasPrice :=
    State.total_addBalance ..
  have hall : st.refundGas.gas.toNat + (st.initialGas.toNat - st.refundGas.gas.toNat) =
      st.initialGas.toNat := Nat.add_sub_cancel' (UInt64.le_iff_toNat_le.mp hgas)
  show (st.refundGas.state.addBalance _ (st.refundGas.gasUsed.toNat * st.gasPrice)).total = _
  rw [State.total_addBalance, hback, hused, Nat.add_assoc, ← Nat.add_mul, hall]

/-! ## The whole transition -/

theorem preCheck_eq {s : State} {msg : Message} (receiver : Address)
    (hnonce : msg.CheckNonce = true → s.getNonce msg.From = msg.Nonce) :
    (newStateTransition s msg receiver).preCheck = .ok (newStateTransition s msg receiver).buyGas := by
  rw [preCheck, newStateTransition]
  cases hc : msg.CheckNonce with
  | false => rfl
  | true =>
    have hirrefl : ¬ msg.Nonce < msg.Nonce := UInt64.lt_irrefl _
    simp [hnonce hc, hirrefl]

theorem total_transitionDb (hvm : vm.Conserves) (s : State) (msg : Message) (receiver : Address)
    (hnonce : msg.CheckNonce = true → s.getNonce msg.From = msg.Nonce) {gas : UInt64}
    (hgas : intrinsicGas msg.Data msg.To.isNone vm.IsHomestead vm.IsIstanbul = .ok gas) :
    ∃ res s', (newStateTransition s msg receiver).transitionDb vm = .ok (res, s') ∧
      s'.total + (newStateTransition s msg receiver).purchase.1 =
        s.total + (newStateTransition s msg receiver).purchase.2.toNat * msg.GasPrice := by
  have hcheck := preCheck_eq receiver hnonce
  generalize hst : newStateTransition s msg receiver = st at hcheck ⊢
  have hgas' : intrinsicGas st.buyGas.data st.buyGas.msg.To.isNone vm.IsHomestead vm.IsIstanbul = .ok gas := hst ▸ hgas
  have hbought : st.buyGas.gas = st.buyGas.initialGas := by
    subst hst
    exact UInt64.zero_add _
  have hspend := st.buyGas.spends_runMessage hvm gas
  rw [transitionDb, hcheck, Outcome.ok_bind, hgas', Outcome.ok_bind]
  generalize st.buyGas.runMessage vm gas = r at hspend
  obtain ⟨st', ret, vmerr⟩ := r
  refine ⟨(st'.settle ret vmerr).1, (st'.settle ret vmerr).2, rfl, ?_⟩
  have hle : st'.gas ≤ st'.initialGas := by
    rw [hspend.initialGas, ← hbought]
    exact hspend.gas
  have hbuy := st.total_buyGas
  have hstate : st.state = s := hst ▸ rfl
  have hprice : st.buyGas.gasPrice = msg.GasPrice := hst ▸ rfl
  have hinitial : st.buyGas.initialGas = st.purchase.2 := rfl
  rw [total_settle hle, hspend.total, hspend.initialGas, hspend.gasPrice, hprice, hinitial, ← hstate, ← hbuy]
  omega

end StateTransition

/-- **When gas payment creates and destroys no ether.** A transition that passes the nonce check leaves
the sum of all balances unchanged exactly when the sender can afford the gas limit, or a unit of gas
costs one wei, or the sender cannot afford one unit. -/
theorem transitionDb_conserves_iff (vm : Vm) (hvm : vm.Conserves) (s : State) (msg : Message)
    (receiver : Address) (hprice : 0 < msg.GasPrice)
    (hnonce : msg.CheckNonce = true → s.getNonce msg.From = msg.Nonce) (gas : UInt64)
    (hgas : intrinsicGas msg.Data msg.To.isNone vm.IsHomestead vm.IsIstanbul = .ok gas) :
    ∃ res s', (newStateTransition s msg receiver).transitionDb vm = .ok (res, s') ∧ (s'.total = s.total ↔
        msg.Gas.toNat * msg.GasPrice ≤ s.getBalance msg.From ∨ msg.GasPrice = 1 ∨
          s.getBalance msg.From < msg.GasPrice) := by
  obtain ⟨res, s', hres, htotal⟩ := StateTransition.total_transitionDb hvm s msg receiver hnonce hgas
  have hexact := StateTransition.purchase_exact_iff (newStateTransition s msg receiver) hprice
  refine ⟨res, s', hres, Iff.trans ?_ hexact⟩
  show _ ↔ _ = _ * msg.GasPrice
  omega

def idleVm : Vm :=
  { IsHomestead := true
    IsIstanbul := true
    create := fun _ _ gas _ state => { ret := [], gas, err := none, state }
    call := fun _ _ _ gas _ state => { ret := [], gas, err := none, state } }

theorem idleVm_conserves : idleVm.Conserves :=
  ⟨fun _ _ _ _ _ => rfl, fun _ _ gas _ _ => UInt64.le_refl gas, fun _ _ _ _ _ _ => rfl,
    fun _ _ _ gas _ _ => UInt64.le_refl gas⟩

def evenState (balance : ℕ) : State :=
  { balance := fun _ => balance, nonce := fun _ => 0, refund := 0 }

def pingMessage : Message :=
  { From := bytesToAddress [1]
    To := some (bytesToAddress [2])
    GasPrice := 2
    Gas := 21000
    Value := 0
    Nonce := 0
    CheckNonce := true
    Data := [] }

theorem transitionDb_conserves_iff_ping :
    ∃ res s', (newStateTransition (evenState 50000) pingMessage (bytesToAddress [3])).transitionDb
        idleVm = .ok (res, s') ∧ s'.total = (evenState 50000).total := by
  obtain ⟨res, s', hres, hiff⟩ := transitionDb_conserves_iff idleVm idleVm_conserves (evenState 50000)
    pingMessage (bytesToAddress [3]) (by decide) (fun _ => rfl) 21000 rfl
  exact ⟨res, s', hres, hiff.mpr (.inl (by decide))⟩

/-- A sender with ten wei pays five wei for five units of gas, and is paid back, with the receiver, ten
wei for them. -/
theorem transitionDb_underfunded_creates :
    ∃ res s', (newStateTransition (evenState 10) pingMessage (bytesToAddress [3])).transitionDb idleVm =
      .ok (res, s') ∧ s'.total = (evenState 10).total + 5 := by
  have hgas : intrinsicGas pingMessage.Data pingMessage.To.isNone idleVm.IsHomestead
      idleVm.IsIstanbul = .ok 21000 := rfl
  obtain ⟨res, s', hres, htotal⟩ := StateTransition.total_transitionDb idleVm_conserves (evenState 10) pingMessage
    (bytesToAddress [3]) (fun _ => rfl) hgas
  have hdebit : (newStateTransition (evenState 10) pingMessage (bytesToAddress [3])).purchase.1 = 5 := by decide
  have hcredit : (newStateTransition (evenState 10) pingMessage (bytesToAddress [3])).purchase.2.toNat *
    pingMessage.GasPrice = 10 := by decide
  rw [hdebit, hcredit] at htotal
  exact ⟨res, s', hres, by omega⟩

end Web3.Executor
