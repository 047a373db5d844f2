import Web3.Vm.ReturnData
import Web3.Vm.Termination

/-! # The gas of a callee under EIP-150

Of the gas that is left after the cost of a call, the caller keeps one part in 64. `callGas` computes this
with a difference that may wrap around; the cost is then more than the caller has. -/

namespace Web3.Vm
open Storage (U256)
open Prog ExecM

variable {σ : Type} {vm : Evm σ} {c : Contract}

def allButOne64th (left : UInt64) (callCost : U256) : UInt64 :=
  if !U256.isUint64 callCost ∨ left - left / 64 < U256.uint64 callCost then left - left / 64
  else U256.uint64 callCost

theorem toNat_allButOne64th (left : UInt64) (callCost : U256) :
    (allButOne64th left callCost).toNat = min callCost.toNat (left.toNat - left.toNat / 64) := by
  have hgas : (left - left / 64).toNat = left.toNat - left.toNat / 64 := by
    rw [UInt64.toNat_sub_of_le _ _ (div_64_le left), UInt64.toNat_div]
    rfl
  have hlt := (left - left / 64).toNat_lt
  rw [allButOne64th]
  by_cases hword : callCost.toNat < 2 ^ 64
  · have hcost : (U256.uint64 callCost).toNat = callCost.toNat := by
      rw [U256.uint64, UInt64.toNat_ofNat', Nat.mod_eq_of_lt hword]
    have his : U256.isUint64 callCost = true := decide_eq_true hword
    simp only [his, Bool.not_true, Bool.false_eq_true, false_or, UInt64.lt_iff_toNat_lt, hcost, hgas]
    split
    next h => omega
    next h => omega
  · have his : U256.isUint64 callCost = false := decide_eq_false hword
    rw [if_pos (.inl (by rw [his]; rfl))]
    omega

theorem callGas_eip150 (availableGas base : UInt64) (callCost : U256) (i : Interp σ) :
    wp (callGas true availableGas base callCost)
      (fun gas _ => gas = .ok (allButOne64th (availableGas - base) callCost)) (fun _ _ => True) Stop.IsPanic i := by
  have hlimit : allButOne64th (availableGas - base) callCost =
      if !U256.isUint64 callCost ∨ availableGas - base - (availableGas - base) / 64 < U256.uint64 callCost then
        availableGas - base - (availableGas - base) / 64
      else U256.uint64 callCost := rfl
  simp only [callGas, EvmM.availableGas, EvmM.subGas, if_true, Prog.wp_bind, wp_modify, wp_pure]
  by_cases h : !U256.isUint64 callCost ∨ availableGas - base - (availableGas - base) / 64 < U256.uint64 callCost
  · rw [hlimit, if_pos h, if_pos h]
    rfl
  · rw [hlimit, if_neg h, if_neg h]
    exact wp_ite.mpr ⟨fun hnot => absurd (.inl hnot) h, fun _ => rfl⟩

/-- The frame after the gas function of a call that costs `cost`. -/
structure Forwards (f : Frame σ) (cost : UInt64) (f' : Frame σ) : Prop where
  Gas : f'.Gas = f.Gas
  split : ∃ requested base, f.machine.stack[0]? = some requested ∧
    cost.toNat = base.toNat + f'.interp.callGasTemp.toNat ∧
    f'.interp.callGasTemp = allButOne64th (f.Gas - base) requested

def EndsForwarding (m : ExecM σ UInt64) : Prop := ∀ f t, SteadyStack AnyDb f t →
  wp m (fun cost f' => Forwards f cost f') (fun _ _ => True) Stop.IsPanic t

theorem EndsForwarding.after {α : Type} {m : ExecM σ α} {k : α → ExecM σ UInt64}
    (hm : Keeps (SteadyStack AnyDb) Stop.IsPanic m) (hk : ∀ a, EndsForwarding (k a)) : EndsForwarding (m >>= k) :=
  fun f _ ht => hm.wp_bind (.true m) (fun a u hu _ => hk a f u (trans_of _ ht hu)) fun _ _ _ => trivial

theorem addCallGas_forwards (hrules : vm.chainRules.IsEIP150 = true) (base : UInt64) :
    EndsForwarding (addCallGas vm base) := by
  intro f t h
  simp only [addCallGas, Prog.wp_bind, wp_read, wp_onMachine, wp_back, wp_onEvm]
  refine ⟨fun requested hrequested => ?_, fun _ => Stop.noConfusion⟩
  rw [hrules]
  refine wp_mono (callGas_eip150 _ _ _ _) ?_ (fun _ _ _ => trivial) fun _ h => h
  rintro _ i rfl
  simp only [wp_modify, wp_onMachine]
  refine wp_mono (noOverflow_yields_safeAdd _ _ _) ?_ (fun _ _ _ => trivial) fun _ _ => Stop.noConfusion
  intro cost m hcost
  refine ⟨h.Gas, requested, base, h.stack ▸ hrequested, hcost, ?_⟩
  rw [← h.Gas]
  rfl

theorem GasFunc.run_forwards (hrules : vm.chainRules.IsEIP150 = true) {gas : GasFunc} (hgas : gas.isCall = true)
    (memorySize : UInt64) : EndsForwarding (gas.run vm c memorySize) := by
  have hend := addCallGas_forwards hrules
  have hmemory := onMachine_steadyStack (D := AnyDb (σ := σ)) (memoryGasCost_keepsStack memorySize)
  have hover (r : UInt64 × Bool) := onMachine_steadyStack (D := AnyDb (σ := σ)) (noOverflow_keepsStack r)
  cases gas
  case gasCall =>
    exact .after (back_steadyStack 2) fun _ => .after (back_steadyStack 1) fun _ =>
      .after (callsNewAccount_steady (readsKeep_any _) _ _) fun _ => .after hmemory fun _ =>
        .after (hover _) fun base => hend base
  case gasCallCode =>
    exact .after hmemory fun _ => .after (back_steadyStack 2) fun _ => .after (hover _) fun base => hend base
  case gasDelegateCall | gasStaticCall => exact .after hmemory fun base => hend base
  all_goals cases hgas

/-- **A call that is paid for follows EIP-150.** The callee gets what is asked for, but of the gas that is
left after the rest of the cost the caller keeps at least one part in 64. -/
theorem callGas_follows_eip150 (hrules : vm.chainRules.IsEIP150 = true) {gas : GasFunc} (hgas : gas.isCall = true)
    (memorySize : UInt64) {f f₁ f₂ : Frame σ} {cost : UInt64} (hrun : gas.run vm c memorySize f = .ok cost f₁)
    (hpay : payGas cost f₁ = .ok () f₂) :
    ∃ requested b, f.machine.stack[0]? = some requested ∧ cost.toNat = b + f₂.interp.callGasTemp.toNat ∧
      b ≤ f.Gas.toNat ∧
      f₂.interp.callGasTemp.toNat = min requested.toNat ((f.Gas.toNat - b) - (f.Gas.toNat - b) / 64) ∧
      (f.Gas.toNat - b) / 64 ≤ f₂.Gas.toNat := by
  have hforwards := wp_ok (GasFunc.run_forwards hrules hgas memorySize f f (refl_of _ f)) hrun
  obtain ⟨requested, base, hrequested, hcost, htemp⟩ := hforwards.split
  have hpaid : cost ≤ f₁.Gas ∧ f₂ = f₁.paid cost := by
    refine wp_ok (Q := fun _ f₂ => cost ≤ f₁.Gas ∧ f₂ = f₁.paid cost) (R := fun _ _ => True) (X := fun _ => True)
      (wp_payGas.mpr ⟨fun hle => ⟨hle, rfl⟩, fun _ => trivial⟩) hpay
  obtain ⟨hle, rfl⟩ := hpaid
  have hleft := toNat_paid hle
  have htemp' : (f₁.paid cost).interp.callGasTemp = f₁.interp.callGasTemp := rfl
  rw [hforwards.Gas] at hleft
  -- the difference in `callGas` has not wrapped around
  have hbase : base.toNat ≤ f.Gas.toNat := by omega
  have hsub : (f.Gas - base).toNat = f.Gas.toNat - base.toNat :=
    UInt64.toNat_sub_of_le _ _ (UInt64.le_iff_toNat_le.mpr hbase)
  have hmin := toNat_allButOne64th (f.Gas - base) requested
  rw [← htemp, hsub] at hmin
  refine ⟨requested, base.toNat, hrequested, htemp' ▸ hcost, hbase, htemp' ▸ hmin, ?_⟩
  omega

/-- A call that asks for all the gas, of which there are 500. -/
def askingFrame : Frame MapDB :=
  { echoFrame 0 with
    machine := { (echoFrame 0).machine with stack := [U256.setAllOne, 4, 0, 2, 0, 2] }
    Gas := 500 }

theorem callGas_follows_eip150_asking :
    ∃ cost f₁ f₂, GasFunc.gasStaticCall.run sampleEvm (sampleContract []) 64 askingFrame = .ok cost f₁ ∧
      payGas cost f₁ = .ok () f₂ ∧
      ∃ requested b, askingFrame.machine.stack[0]? = some requested ∧ cost.toNat = b + f₂.interp.callGasTemp.toNat ∧
        b ≤ 500 ∧ f₂.interp.callGasTemp.toNat = min requested.toNat ((500 - b) - (500 - b) / 64) ∧
        (500 - b) / 64 ≤ f₂.Gas.toNat := by
  have hsome : ((GasFunc.gasStaticCall.run sampleEvm (sampleContract []) 64 askingFrame).result.bind fun r =>
      (payGas r.1 r.2).result).isSome = true := by decide +kernel
  obtain ⟨⟨⟨⟩, f₂⟩, hresult⟩ := Option.isSome_iff_exists.mp hsome
  obtain ⟨⟨cost, f₁⟩, hrun, hpay⟩ := Option.bind_eq_some_iff.mp hresult
  have hrun := Ending.eq_ok_of_result hrun
  have hpay := Ending.eq_ok_of_result hpay
  exact ⟨cost, f₁, f₂, hrun, hpay, callGas_follows_eip150 rfl rfl 64 hrun hpay⟩

end Web3.Vm
