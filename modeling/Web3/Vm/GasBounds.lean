import Web3.Vm.Charges

/-! # Calls return at most the gas they are given

For runs that return at most the gas they are given, also the calls and creations of the EVM do, and
every sum and difference they make is exact. An instruction of a well priced operation leaves the frame
with less gas than it had before the operation was charged. -/

namespace Web3.Vm
open Storage (U256)
open Prog ExecM

variable {σ α β : Type} {vm : Evm σ} {c : Contract}

/-! ## The EVM -/

def AnyDb (_ _ : σ) : Prop := True

instance : IsPreorder σ (AnyDb (σ := σ)) where
  refl _ := trivial
  trans _ _ _ _ _ := trivial

/-- The gas of the result is at most `gas`, and what is recorded on the way is as it should be. -/
def GasBounded (left : α → UInt64) (gas : UInt64) (m : EvmM σ α) : Prop :=
  ∀ i, wp m (fun r i' => left r ≤ gas ∧ Logged GasOp.Safe i i') (fun _ _ => True) Stop.IsPanic i

/-- Runs that are given less than `n` gas end, and return at most what they were given. -/
def RunBounded (n : ℕ) (run : RunFn σ) : Prop :=
  ∀ c input readOnly gas, gas.toNat < n → GasBounded RunResult.gas gas (run c input readOnly gas)

abbrev KeepsLog (m : EvmM σ α) : Prop := Keeps (Logged GasOp.Safe) Stop.IsPanic m

theorem onDb_keepsLog (m : DbM σ α) : KeepsLog (EvmM.onDb m) := by
  intro i
  rw [EvmM.onDb, wp_zoom]
  exact wp_of_forall (fun _ _ => .of_eq rfl) (fun _ _ => .of_eq rfl) (fun _ => Stop.noConfusion)

namespace GasBounded
variable {left : α → UInt64} {gas gas' : UInt64}

theorem pure {a : α} (h : left a ≤ gas) : GasBounded left gas (pure a : EvmM σ α) :=
  fun _ => ⟨h, refl_of _ _⟩

variable {m : EvmM σ β} {k : β → EvmM σ α}

theorem bind (hm : KeepsLog m) (hk : ∀ b, GasBounded left gas (k b)) : GasBounded left gas (m >>= k) := by
  intro i
  rw [wp_bind]
  refine wp_mono (hm i) (fun b i' hi => ?_) (fun _ _ _ => trivial) (fun _ h => h)
  exact wp_mono (hk b i') (fun _ _ h => ⟨h.1, trans_of _ hi h.2⟩) (fun _ _ h => h) (fun _ h => h)

theorem andThen {left' : β → UInt64} (hm : GasBounded left' gas m)
    (hk : ∀ b, left' b ≤ gas → GasBounded left gas (k b)) : GasBounded left gas (m >>= k) := by
  intro i
  rw [wp_bind]
  refine wp_mono (hm i) (fun b i' hi => ?_) (fun _ _ _ => trivial) (fun _ h => h)
  exact wp_mono (hk b hi.1 i') (fun _ _ h => ⟨h.1, trans_of _ hi.2 h.2⟩) (fun _ _ h => h) (fun _ h => h)

theorem ite {p : Prop} [Decidable p] {m m' : EvmM σ α} (hm : p → GasBounded left gas m)
    (hm' : ¬p → GasBounded left gas m') : GasBounded left gas (if p then m else m') := by
  split
  next h => exact hm h
  next h => exact hm' h

theorem db {m : DbM σ β} (hk : ∀ b, GasBounded left gas (k b)) : GasBounded left gas (EvmM.onDb m >>= k) :=
  bind (onDb_keepsLog m) hk

theorem early {p : Prop} [Decidable p] {a : α} {m : EvmM σ α} (ha : left a = gas) (hm : GasBounded left gas m) :
    GasBounded left gas (if p then Pure.pure a else m) :=
  ite (fun _ => pure (ha ▸ UInt64.le_refl _)) fun _ => hm

end GasBounded

theorem subGas_bounded {x y : UInt64} (h : y ≤ x) : GasBounded (σ := σ) id x (EvmM.subGas x y) := by
  intro i
  simp only [EvmM.subGas, wp_bind, wp_modify, wp_pure, id_eq]
  refine ⟨?_, .of_cons rfl h⟩
  rw [UInt64.le_iff_toNat_le, UInt64.toNat_sub_of_le _ _ h]
  exact Nat.sub_le _ _

section Evm
variable {gas : UInt64} {n : ℕ} {run : RunFn σ}

theorem runPrecompiledContract_bounded (p : PrecompiledContract) (input : Bytes) :
    GasBounded (σ := σ) CallResult.gas gas (Evm.runPrecompiledContract p input gas) :=
  .ite (fun _ => .pure (UInt64.zero_le)) fun h =>
    .andThen (subGas_bounded (UInt64.not_lt.mp h)) fun _ hleft => .pure hleft

variable (caller : ContractRef)

theorem newContract_keepsLog (object : Address) (value : ℤ) :
    KeepsLog (σ := σ) (Evm.newContract caller object value) :=
  .bind (.when fun _ _ => .of_eq rfl) fun _ => .pure _

theorem asDelegate_keepsLog (c : Contract) : KeepsLog (σ := σ) (Evm.asDelegate caller c) := by
  cases caller with
  | account addr => exact .halt Stop.noConfusion
  | contract self CallerAddress value => exact .pure _

theorem settleCall_bounded (snapshot : ℤ) {r : CallResult} (h : r.gas ≤ gas) :
    GasBounded CallResult.gas gas (vm.settleCall snapshot r) := by
  rw [Evm.settleCall]
  cases r.err with
  | none => exact .pure h
  | some e =>
    refine .db fun _ => .pure ?_
    dsimp only
    split
    · exact h
    · exact UInt64.zero_le

theorem withinLimits_bounded {body : EvmM σ CallResult} (h : GasBounded CallResult.gas gas body) :
    GasBounded CallResult.gas gas (vm.withinLimits gas body) :=
  .bind (.read _) fun _ => .early rfl (.early rfl h)

variable (hrun : RunBounded n run) (hgas : gas.toNat < n)
include hrun hgas

theorem run_toCall_bounded (c : Contract) (input : Bytes) (readOnly : Bool) : GasBounded CallResult.gas gas (do
      let r ← run c input readOnly gas
      return r.toCall) :=
  .andThen (hrun c input readOnly gas hgas) fun _ h => .pure h

theorem runCode_bounded {contract : EvmM σ Contract} (hcontract : KeepsLog contract) (addr : Address)
    (input : Bytes) (readOnly : Bool) :
    GasBounded CallResult.gas gas (vm.runCode run contract addr input readOnly gas) := by
  rw [Evm.runCode]
  cases vm.precompile addr with
  | some p => exact runPrecompiledContract_bounded p input
  | none =>
    exact .bind hcontract fun _ => .db fun _ => .db fun _ => run_toCall_bounded hrun hgas _ _ _

variable (caller : ContractRef) (addr : Address) (input : Bytes)

theorem runCalled_bounded (value : ℤ) :
    GasBounded CallResult.gas gas (vm.runCalled run caller addr input gas value) := by
  rw [Evm.runCalled]
  cases vm.precompile addr with
  | some p => exact runPrecompiledContract_bounded p input
  | none =>
    exact .db fun _ => .early rfl <| .bind (newContract_keepsLog _ _ _) fun _ => .db fun _ =>
      run_toCall_bounded hrun hgas _ _ _

theorem call_bounded (value : ℤ) : GasBounded CallResult.gas gas (vm.call run caller addr input gas value) := by
  refine withinLimits_bounded (.bind (.ite (fun _ => .pure _) fun _ => onDb_keepsLog _) fun enough => ?_)
  refine .early rfl <| .db fun snapshot => .db fun exist => .early rfl <| ?_
  exact .bind (.when fun _ => onDb_keepsLog _) fun _ => .db fun _ =>
    .andThen (runCalled_bounded hrun hgas _ _ _ _) fun _ h => settleCall_bounded _ h

theorem callCode_bounded (value : ℤ) :
    GasBounded CallResult.gas gas (vm.callCode run caller addr input gas value) :=
  withinLimits_bounded (.db fun _ => .early rfl <| .db fun _ =>
    .andThen (runCode_bounded hrun hgas (newContract_keepsLog _ _ _) _ _ _) fun _ h => settleCall_bounded _ h)

theorem delegateCall_bounded : GasBounded CallResult.gas gas (vm.delegateCall run caller addr input gas) :=
  withinLimits_bounded (.db fun _ => .andThen (runCode_bounded hrun hgas (.bind (newContract_keepsLog _ _ _) fun _ =>
      asDelegate_keepsLog _ _) _ _ _) fun _ h => settleCall_bounded _ h)

theorem staticCall_bounded : GasBounded CallResult.gas gas (vm.staticCall run caller addr input gas) :=
  withinLimits_bounded (.db fun _ => .db fun _ =>
    .andThen (runCode_bounded hrun hgas (newContract_keepsLog _ _ _) _ _ _) fun _ h => settleCall_bounded _ h)

variable {r : RunResult}

omit hrun hgas in
theorem storeCode_bounded (address : Address) (h : r.gas ≤ gas) :
    GasBounded RunResult.gas gas (vm.storeCode address r) := by
  refine .ite (fun _ => .ite (fun _ => .pure h) fun hle => ?_) fun _ => .pure h
  refine .andThen (?_ : GasBounded id gas _) fun left hleft => .db fun _ => .pure hleft
  exact fun i => wp_mono (subGas_bounded (UInt64.not_lt.mp hle) i)
    (fun _ _ h' => ⟨UInt64.le_trans h'.1 h, h'.2⟩) (fun _ _ h => h) (fun _ h => h)

omit hrun hgas in
theorem settleCreate_bounded (snapshot : ℤ) (address : Address) (h : r.gas ≤ gas) :
    GasBounded Evm.CreateResult.gas gas (vm.settleCreate snapshot address r) := by
  refine .ite (fun _ => .db fun _ => .ite (fun _ => ?_) fun _ => .pure h) fun _ => .pure h
  refine .andThen (?_ : GasBounded id gas _) fun left hleft => .pure hleft
  exact fun i => wp_mono (subGas_bounded (UInt64.le_refl _) i) (fun _ _ h' => ⟨UInt64.le_trans h'.1 h, h'.2⟩)
    (fun _ _ h => h) (fun _ h => h)

theorem create_bounded (code : Bytes) (hash : Hash) (value : ℤ) (address : Address) :
    GasBounded Evm.CreateResult.gas gas (vm.create run caller code hash gas value address) := by
  refine .bind (.read _) fun _ => .early rfl <| .db fun _ => .early rfl <| .db fun _ => .db fun _ =>
    .db fun _ => .db fun _ => .ite (fun _ => .pure (UInt64.zero_le)) fun _ => ?_
  refine .db fun _ => .db fun _ => .bind (.when fun _ => onDb_keepsLog _) fun _ => .db fun _ =>
    .bind (newContract_keepsLog _ _ _) fun _ => .bind (.read _) fun _ => .early rfl <| ?_
  exact .andThen (hrun _ _ _ gas hgas) fun _ h => .andThen (storeCode_bounded _ h) fun _ h =>
    settleCreate_bounded _ _ h

theorem Create_bounded (code : Bytes) (value : ℤ) :
    GasBounded Evm.CreateResult.gas gas (vm.Create run caller code gas value) :=
  .db fun _ => create_bounded hrun hgas _ _ _ _ _

theorem create2_bounded (code : Bytes) (endowment : ℤ) (salt : Hash) :
    GasBounded Evm.CreateResult.gas gas (vm.create2 run caller code gas endowment salt) :=
  create_bounded hrun hgas _ _ _ _ _

end Evm

/-! ## Instructions -/

theorem wp_pop_bind {m : Machine} {k : U256 → MachineM β} {Q : β → Machine → Prop}
    (hk : ∀ x stack, m.stack = x :: stack → wp (k x) Q (fun _ _ => True) (fun _ => True) { m with stack }) :
    wp (MachineM.pop >>= k) Q (fun _ _ => True) (fun _ => True) m := by
  rw [wp_bind, wp_pop]
  exact ⟨hk, fun _ => trivial⟩

/-- **What `popCall` pops**, in the order of the stack. -/
theorem popCall_spec (withValue : Bool) (m : Machine) :
    wp (popCall withValue) (fun a m' => ∃ gas addr inOffset inSize rest,
      m.stack = gas :: addr :: ((if withValue then [a.value] else []) ++
        inOffset :: inSize :: a.retOffset :: a.retSize :: rest) ∧
      (withValue = false → a.value = 0) ∧ ptr inOffset inSize { m with stack := rest } = .ok a.args m')
      (fun _ _ => True) (fun _ => True) m := by
  refine wp_pop_bind fun gas s₁ h₁ => wp_pop_bind fun addr s₂ h₂ => ?_
  obtain rfl : s₁ = _ := h₂
  -- what comes after the value, if there is one
  have hrest (value : U256) (s : List U256) (hs : s₂ = (if withValue then [value] else []) ++ s)
      (hzero : withValue = false → value = 0) : wp (do
      let inOffset ← MachineM.pop
      let inSize ← MachineM.pop
      let retOffset ← MachineM.pop
      let retSize ← MachineM.pop
      let args ← ptr inOffset inSize
      return { toAddr := U256.bytes20 addr, value, args, retOffset, retSize : CallArgs })
      (fun a m' => ∃ gas addr inOffset inSize rest, m.stack = gas :: addr :: ((if withValue then [a.value] else []) ++
          inOffset :: inSize :: a.retOffset :: a.retSize :: rest) ∧
        (withValue = false → a.value = 0) ∧ ptr inOffset inSize { m with stack := rest } = .ok a.args m')
      (fun _ _ => True) (fun _ => True) { m with stack := s } := by
    refine wp_pop_bind fun inOffset t₁ e₁ => wp_pop_bind fun inSize t₂ e₂ => wp_pop_bind fun retOffset t₃ e₃ =>
      wp_pop_bind fun retSize t₄ e₄ => ?_
    obtain rfl : t₁ = _ := e₂
    obtain rfl : t₂ = _ := e₃
    obtain rfl : t₃ = _ := e₄
    obtain rfl : s = _ := e₁
    rw [wp_bind, wp]
    split
    · next args m' hptr => exact ⟨gas, addr, inOffset, inSize, t₄, by rw [h₁, hs], hzero, hptr⟩
    · trivial
    · trivial
  cases withValue with
  | true => exact wp_pop_bind fun value s₃ h₃ => hrest value s₃ h₃ (by simp)
  | false => exact hrest 0 s₂ rfl fun _ => rfl

theorem popCall_value (withValue : Bool) (m : Machine) :
    wp (popCall withValue) (fun a _ => (withValue = true → m.stack[2]? = some a.value) ∧
      (withValue = false → a.value = 0)) (fun _ _ => True) (fun _ => True) m := by
  refine wp_mono (popCall_spec withValue m) ?_ (fun _ _ h => h) (fun _ h => h)
  rintro a m' ⟨gas, addr, inOffset, inSize, rest, hstack, hzero, -⟩
  refine ⟨fun hvalue => ?_, hzero⟩
  rw [hstack, hvalue]
  rfl

def EndsBelow (bound : ℕ) (m : ExecM σ α) (f : Frame σ) : Prop :=
  wp m (fun _ f' => f'.Gas.toNat < bound ∧ Logged GasOp.Safe f.interp f'.interp)
    (fun _ f' => f'.Gas.toNat < bound ∧ Logged GasOp.Safe f.interp f'.interp) Stop.IsPanic f

variable {k : α → ExecM σ β}

variable {bound : ℕ} {f : Frame σ}

theorem EndsBelow.bind {m : ExecM σ α}
    (h : wp m (fun a f' => Logged GasOp.Safe f.interp f'.interp ∧ EndsBelow bound (k a) f')
      (fun _ f' => f'.Gas.toNat < bound ∧ Logged GasOp.Safe f.interp f'.interp) Stop.IsPanic f) :
    EndsBelow bound (m >>= k) f := by
  rw [EndsBelow, wp_bind]
  refine wp_mono h (fun a f' ha => ?_) (fun _ _ h => h) (fun _ h => h)
  exact wp_mono ha.2 (fun _ _ h => ⟨h.1, trans_of _ ha.1 h.2⟩) (fun _ _ h => ⟨h.1, trans_of _ ha.1 h.2⟩)
    (fun _ h => h)

theorem EndsBelow.onMachine_bind {m : MachineM α} {P : α → Prop} (hf : f.Gas.toNat < bound)
    (hP : wp m (fun a _ => P a) (fun _ _ => True) (fun _ => True) f.machine)
    (hk : ∀ a machine, P a → EndsBelow bound (k a) { f with machine }) : EndsBelow bound (onMachine m >>= k) f :=
  .bind (wp_onMachine.mpr (wp_mono hP (fun a machine ha => ⟨.of_eq rfl, hk a machine ha⟩)
    (fun _ _ _ => ⟨hf, .of_eq rfl⟩) (fun _ _ => Stop.noConfusion)))

theorem EndsBelow.afterMachine {m : MachineM α} (hf : f.Gas.toNat < bound)
    (hk : ∀ a machine, EndsBelow bound (k a) { f with machine }) : EndsBelow bound (onMachine m >>= k) f :=
  .onMachine_bind (P := fun _ => True) hf (Yields.true _ _) fun a machine _ => hk a machine

theorem returnGas_endsBelow {gas : UInt64} (hbound : bound ≤ 2 ^ 64) (a : α)
    (h : f.Gas.toNat + gas.toNat < bound) :
    EndsBelow bound (do
      returnGas gas
      return a) f := by
  have hsum : (f.Gas + gas).toNat = f.Gas.toNat + gas.toNat := by
    rw [UInt64.toNat_add, Nat.mod_eq_of_lt (by omega)]
  simp only [EndsBelow, returnGas, wp_bind, wp_read, wp_onEvm, EvmM.addGas, wp_modify, wp_pure]
  refine ⟨hsum ▸ h, .of_cons rfl ?_⟩
  change f.Gas.toNat + gas.toNat < 2 ^ 64
  omega

theorem EndsBelow.onEvm_bind {gas : UInt64} {left : α → UInt64} {m : EvmM σ α} (hm : GasBounded left gas m)
    (hk : ∀ a interp, left a ≤ gas → EndsBelow bound (k a) { f with interp }) : EndsBelow bound (onEvm m >>= k) f :=
  .bind (wp_onEvm.mpr (wp_mono (hm f.interp) (fun a interp ha => ⟨ha.2, hk a interp ha.1⟩)
    (fun _ _ _ => trivial) (fun _ h => h)))

section Instructions
variable {n : ℕ} {f : Frame σ} {bound : ℕ}

theorem callOp_endsBelow {withValue : Bool} {call : Address → Bytes → UInt64 → ℤ → EvmM σ CallResult}
    (hcall : ∀ addr input gas value, gas.toNat < n → GasBounded CallResult.gas gas (call addr input gas value))
    (hn : bound ≤ n) (hbound : bound ≤ 2 ^ 64) (h : f.Gas.toNat + f.interp.callGasTemp.toNat +
      (if withValue then transferSurcharge f.machine.stack else 0) < bound) :
    EndsBelow bound (callOp withValue call) f := by
  refine .onMachine_bind (by omega) (popCall_value withValue f.machine) fun a machine ha => ?_
  -- the rest of the instruction, once the gas of the callee is known
  have hrest (gas : UInt64) (interp : Interp σ) (hgas : f.Gas.toNat + gas.toNat < bound) : EndsBelow bound (do
        let input ← onMachine (.read fun m => m.memory.bytes a.args)
        let r ← onEvm (call a.toAddr input gas (U256.toBig a.value))
        let ret ← onMachine (finishCall a r)
        returnGas r.gas
        return ret) { f with machine, interp } := by
    refine .afterMachine (by dsimp only; omega) fun input machine => ?_
    refine .onEvm_bind (hcall _ _ gas _ (by omega)) fun r interp hr => ?_
    refine .afterMachine (by dsimp only; omega) fun ret machine => ?_
    refine returnGas_endsBelow hbound ret ?_
    have := UInt64.le_iff_toNat_le.mp hr
    dsimp only
    omega
  refine .bind (wp_onEvm.mpr ⟨.of_eq rfl, .bind (wp_ite.mpr ⟨fun _ => ?_, fun hvalue => ?_⟩)⟩)
  · exact ⟨.of_eq rfl, hrest _ _ (by dsimp only; omega)⟩
  -- a transfer of value is paid for with more than the stipend
  · cases withValue with
    | false => exact absurd (ha.2 rfl) hvalue
    | true =>
      rw [if_pos rfl, transferSurcharge_of_getElem? (ha.1 rfl), if_pos hvalue] at h
      have hless : f.Gas.toNat + (f.interp.callGasTemp.toNat + 2300) < bound := by linarith only [h]
      have hlt : f.interp.callGasTemp.toNat + callStipend.toNat < 2 ^ 64 := by
        change f.interp.callGasTemp.toNat + 2300 < 2 ^ 64
        linarith only [hless, hbound]
      have hsum : (f.interp.callGasTemp + callStipend).toNat = f.interp.callGasTemp.toNat + 2300 := by
        rw [UInt64.toNat_add, Nat.mod_eq_of_lt hlt]
        rfl
      rw [← hsum] at hless
      exact wp_onEvm.mpr ⟨.of_cons rfl hlt, hrest _ _ hless⟩

theorem finishCreate_endsBelow {failed : Bool} {r : Evm.CreateResult} (hbound : bound ≤ 2 ^ 64)
    (h : f.Gas.toNat + r.gas.toNat < bound) : EndsBelow bound (finishCreate failed r) f :=
  .afterMachine (by omega) fun _ _ => returnGas_endsBelow hbound _ h

theorem create_endsBelow {create : UInt64 → EvmM σ Evm.CreateResult} {failed : Evm.CreateResult → Bool}
    (hcreate : ∀ gas : UInt64, gas.toNat < n → GasBounded Evm.CreateResult.gas gas (create gas))
    (hn : bound ≤ n) (hbound : bound ≤ 2 ^ 64) {gas : UInt64} (hgas : gas ≤ f.Gas)
    (h : f.Gas.toNat < bound) :
    EndsBelow bound (do
      let _ ← useGas gas
      let r ← onEvm (create gas)
      finishCreate (failed r) r) f := by
  have hle := UInt64.le_iff_toNat_le.mp hgas
  have hpaid := toNat_paid hgas
  have hrest : EndsBelow bound (do
      let r ← onEvm (create gas)
      finishCreate (failed r) r) (f.paid gas) := by
    refine .onEvm_bind (hcreate gas (by omega)) fun r interp hr => finishCreate_endsBelow hbound ?_
    have := UInt64.le_iff_toNat_le.mp hr
    dsimp only
    omega
  refine .bind (wp_useGas.mpr ⟨fun _ => ⟨(logged_paid hgas).safe, hrest⟩, fun hlt => ?_⟩)
  exact absurd hlt (UInt64.not_lt.mpr hgas)

end Instructions

end Web3.Vm
