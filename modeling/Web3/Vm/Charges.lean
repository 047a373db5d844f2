import Web3.Vm.Steady

/-! # Charges

What an operation costs before it is executed. A call pays for the gas of its callee in advance, and for
a transfer of value more than the stipend that the callee gets for it. The subtraction in `callGas` may
wrap around, but then the charge does not go through. -/

namespace Web3.Vm
open Storage (U256)
open Prog ExecM

variable {σ α : Type} {D : σ → σ → Prop} {vm : Evm σ} {c : Contract}

section Rules
variable {Q : α → Frame σ → Prop} {R : VmError → Frame σ → Prop} {X : Stop → Prop} {f : Frame σ}
  {m : Machine}

@[simp] theorem wp_onMachine {m : MachineM α} : wp (onMachine m) Q R X f ↔ wp m (fun a t => Q a { f with machine := t })
      (fun e t => R e { f with machine := t }) (fun s => X (.panic s)) f.machine := wp_zoom

@[simp] theorem wp_onEvm {m : EvmM σ α} :
    wp (onEvm m) Q R X f ↔ wp m (fun a i => Q a { f with interp := i }) (fun _ _ => True) X f.interp := by
  rw [onEvm, wp_zoom]
  exact ⟨fun h => wp_mono h (fun _ _ h => h) (fun e => e.elim) (fun _ h => h),
    fun h => wp_mono h (fun _ _ h => h) (fun e => e.elim) (fun _ h => h)⟩

@[simp] theorem wp_back {n : ℕ} {Q : U256 → Machine → Prop} {R : VmError → Machine → Prop} {X : String → Prop} :
    wp (MachineM.back n) Q R X m ↔
      (∀ x, m.stack[n]? = some x → Q x m) ∧ (m.stack[n]? = none → X "index out of range") := by
  simp only [wp, MachineM.back]
  cases m.stack[n]? <;> simp

@[simp] theorem wp_pop {Q : U256 → Machine → Prop} {R : VmError → Machine → Prop} {X : String → Prop} :
    wp MachineM.pop Q R X m ↔ (∀ x xs, m.stack = x :: xs → Q x { m with stack := xs }) ∧
      (m.stack = [] → X "index out of range") := by
  simp only [wp, MachineM.pop]
  cases m.stack <;> simp

/-- Executing an operation touches the machine and the returned data beside what the instruction does. -/
theorem wp_perform {run : RunFn σ} {o : Operation} {P P' : Frame σ → Prop}
    (h : wp (o.execute.run vm run c) (fun _ f' => P f') (fun _ f' => P' f') X f)
    (hP : ∀ f' machine returnData, P f' → P { f' with machine, interp := { f'.interp with returnData } })
    (hP' : ∀ f' returnData, P' f' → P' { f' with interp := { f'.interp with returnData } }) :
    wp (perform vm run c o)
      (fun h f' => P f' ∧ (h = none → o.halts = false ∧ o.reverts = false)) (fun _ f' => P' f') X f := by
  rw [perform, Prog.wp_bind, wp_attempt]
  refine wp_mono h (fun res f' h => ?_) (fun e f' h => ?_) (fun _ h => h)
  · have hP (machine : Machine) (returnData : Bytes) := hP f' machine returnData h
    simp only [Prog.wp_bind, wp_onMachine, wp_read, wp_when, wp_onEvm, wp_modify, wp_ite, wp_pure,
      MachineM.setPc, reduceCtorEq, false_implies, and_true, true_implies, Bool.not_eq_true]
    exact ⟨fun _ => ⟨fun _ => hP _ _, fun hr => ⟨fun _ => hP _ _, fun hh =>
        ⟨fun _ => ⟨hP _ _, hh, hr⟩, fun _ => ⟨hP _ _, hh, hr⟩⟩⟩⟩,
      fun _ => ⟨fun _ => h, fun hr => ⟨fun _ => h, fun hh =>
        ⟨fun _ => ⟨hP _ f'.interp.returnData, hh, hr⟩, fun _ => ⟨h, hh, hr⟩⟩⟩⟩⟩
  · simp only [Prog.wp_bind, wp_onMachine, wp_read, wp_when, wp_onEvm, wp_modify]
    exact ⟨fun _ => hP' f' [] h, fun _ => h⟩

theorem wp_inFrame {gas : UInt64} {m : ExecM σ Halt} {Q : RunResult → Interp σ → Prop}
    {R : Empty → Interp σ → Prop} {i : Interp σ} :
    wp (inFrame gas m) Q R X i ↔ wp m (fun h f => Q { ret := h.ret, err := h.err, gas := f.Gas } f.interp)
        (fun e f => Q { ret := [], err := some e, gas := f.Gas } f.interp) X
        { machine := .init, Gas := gas, analysis := none, interp := i } := by
  simp only [wp, inFrame]
  cases m { machine := .init, Gas := gas, analysis := none, interp := i } <;> rfl

end Rules

/-! ## The record of operations on gas -/

/-- It does not wrap around, unless it is the one in `callGas`. -/
def GasOp.Safe : GasOp → Prop
  | available _ _ => True
  | o => o.Exact

theorem GasOp.Exact.safe {o : GasOp} (h : o.Exact) : o.Safe := by
  cases o with
  | add | sub => exact h
  | available x y => trivial

/-- The operations that have been recorded in between are as in `P`. -/
def Logged (P : GasOp → Prop) (i i' : Interp σ) : Prop :=
  ∃ ops, i'.gasOps = ops ++ i.gasOps ∧ ∀ o ∈ ops, P o

namespace Logged
variable {P P' : GasOp → Prop} {i i' : Interp σ}

instance : IsPreorder (Interp σ) (Logged P) where
  refl i := ⟨[], rfl, by simp⟩
  trans i i' i'' h h' := by
    obtain ⟨ops, hops, hP⟩ := h
    obtain ⟨ops', hops', hP'⟩ := h'
    refine ⟨ops' ++ ops, by rw [hops', hops, List.append_assoc], fun o ho => ?_⟩
    rcases List.mem_append.mp ho with ho | ho
    · exact hP' o ho
    · exact hP o ho

theorem mono (h : Logged P i i') (hP : ∀ o, P o → P' o) : Logged P' i i' := by
  obtain ⟨ops, hops, hall⟩ := h
  exact ⟨ops, hops, fun o ho => hP o (hall o ho)⟩

theorem of_eq (h : i'.gasOps = i.gasOps) : Logged P i i' := ⟨[], h, by simp⟩

theorem of_cons {o : GasOp} (h : i'.gasOps = o :: i.gasOps) (ho : P o) : Logged P i i' :=
  ⟨[o], h, by simpa using ho⟩

theorem safe (h : Logged GasOp.Exact i i') : Logged GasOp.Safe i i' := h.mono fun _ => GasOp.Exact.safe

end Logged

/-! ## The gas of a callee -/

def transfersValue (stack : List U256) : Bool := stack[2]?.any (· ≠ 0)

/-- The frame after the gas function of a call, which costs `cost`: the gas for the callee is set, and
the record is right if the cost can be paid. -/
structure CallPriced (D : σ → σ → Prop) (f : Frame σ) (cost : UInt64) (f' : Frame σ) : Prop where
  Gas : f'.Gas = f.Gas
  readOnly : f'.interp.readOnly = f.interp.readOnly
  db : D f.interp.db f'.interp.db
  stack : f'.machine.stack = f.machine.stack
  safe : Logged GasOp.Safe f.interp f'.interp
  exact : cost ≤ f.Gas → Logged GasOp.Exact f.interp f'.interp

/-- The frame after a gas function of a call that failed. -/
structure CallFailed (D : σ → σ → Prop) (f f' : Frame σ) : Prop where
  Gas : f'.Gas = f.Gas
  readOnly : f'.interp.readOnly = f.interp.readOnly
  db : D f.interp.db f'.interp.db
  safe : Logged GasOp.Safe f.interp f'.interp

theorem div_64_le (x : UInt64) : x / 64 ≤ x := by
  rw [UInt64.le_iff_toNat_le, UInt64.toNat_div]
  exact Nat.div_le_self _ _

theorem callGas_spec (isEip150 : Bool) (availableGas base : UInt64) (callCost : U256) (i : Interp σ) :
    wp (callGas isEip150 availableGas base callCost)
      (fun _ i' => i'.db = i.db ∧ i'.readOnly = i.readOnly ∧ Logged GasOp.Safe i i' ∧
        (base ≤ availableGas → Logged GasOp.Exact i i')) (fun _ _ => True) Stop.IsPanic i := by
  rw [callGas, Prog.wp_bind, wp_ite]
  refine ⟨fun _ => ?_, fun _ => ?_⟩
  · simp only [EvmM.availableGas, EvmM.subGas, Prog.wp_bind, wp_modify, wp_pure]
    generalize availableGas - base = left
    have hlog {P : GasOp → Prop} (h : P (.available availableGas base)) (h' : P (.sub left (left / 64))) :
        Logged P i { i with gasOps := [.sub left (left / 64), .available availableGas base] ++ i.gasOps } :=
      ⟨_, rfl, by simp [h, h']⟩
    have hpost := And.intro (hlog (P := GasOp.Safe) trivial (div_64_le left))
      fun h : base ≤ availableGas => hlog (P := GasOp.Exact) h (div_64_le left)
    split
    · exact ⟨rfl, rfl, hpost⟩
    · rw [wp_ite]
      exact ⟨fun _ => ⟨rfl, rfl, hpost⟩, fun _ => ⟨rfl, rfl, hpost⟩⟩
  · rw [wp_pure]
    have hsame {P : GasOp → Prop} : Logged P i i := refl_of _ i
    exact wp_ite.mpr ⟨fun _ => ⟨rfl, rfl, hsame, fun _ => hsame⟩, fun _ => ⟨rfl, rfl, hsame, fun _ => hsame⟩⟩

variable {f t f' : Frame σ} {cost : UInt64}

theorem SteadyStack.callFailed (h : SteadyStack D f f') : CallFailed D f f' :=
  ⟨h.Gas, h.readOnly, h.db, .of_eq h.gasOps⟩

def transferSurcharge (stack : List U256) : ℕ := if transfersValue stack then 9000 else 0

theorem transferSurcharge_of_getElem? {stack : List U256} {value : U256} (h : stack[2]? = some value) :
    transferSurcharge stack = if value ≠ 0 then 9000 else 0 := by
  simp [transferSurcharge, transfersValue, h]

def GasFunc.surcharge : GasFunc → List U256 → ℕ
  | gasCall, stack => transferSurcharge stack
  | gasCallCode, stack => transferSurcharge stack
  | _, _ => 0

/-! ## The checks before a charge -/

/-- Nothing changes; in a static call an operation that writes is not permitted, and neither is a call
that transfers value. -/
theorem permit_spec (code : OpCode) (o : Operation) (f : Frame σ) : wp (permit vm code o)
      (fun _ f' => f' = f ∧ (f.interp.readOnly = true → vm.chainRules.IsByzantium = true →
        o.writes = false ∧ (code = OpCode.CALL → transfersValue f.machine.stack = false)))
      (fun _ f' => f' = f) Stop.IsPanic f := by
  simp only [permit, Prog.wp_bind, wp_onMachine, wp_read, wp_ite, wp_throw, wp_onEvm, wp_when, wp_back,
    implies_true, true_and]
  refine fun _ _ => ⟨fun _ hwrites => ?_, fun hstatic h h' => absurd ⟨h, h'⟩ hstatic⟩
  have hwrites := Bool.eq_false_iff.mpr hwrites
  refine ⟨fun _ => ⟨fun value hvalue hsign _ _ => ⟨hwrites, fun _ => ?_⟩, fun _ => Stop.noConfusion⟩,
    fun hcode _ _ => ⟨hwrites, fun h => absurd h hcode⟩⟩
  have hzero := U256.sign_eq_zero.mp (not_not.mp hsign)
  simp [transfersValue, hvalue, hzero]

/-! ## Payment -/

def Frame.paid (f : Frame σ) (gas : UInt64) : Frame σ :=
  { f with Gas := f.Gas - gas, interp := { f.interp with gasOps := .sub f.Gas gas :: f.interp.gasOps } }

theorem wp_useGas {gas : UInt64} {Q : Bool → Frame σ → Prop} {R : VmError → Frame σ → Prop} {X : Stop → Prop} :
    wp (useGas gas) Q R X f ↔ (gas ≤ f.Gas → Q true (f.paid gas)) ∧ (f.Gas < gas → Q false f) := by
  simp only [useGas, Prog.wp_bind, wp_read, wp_ite, wp_pure, wp_onEvm, EvmM.subGas, wp_modify, UInt64.not_lt]
  exact And.comm

theorem wp_payGas {gas : UInt64} {Q : Unit → Frame σ → Prop} {R : VmError → Frame σ → Prop} {X : Stop → Prop} :
    wp (payGas gas) Q R X f ↔ (gas ≤ f.Gas → Q () (f.paid gas)) ∧ (f.Gas < gas → R .errOutOfGas f) := by
  simp [payGas, wp_useGas]

theorem toNat_paid {gas : UInt64} (h : gas ≤ f.Gas) : (f.paid gas).Gas.toNat + gas.toNat = f.Gas.toNat := by
  have hle := UInt64.le_iff_toNat_le.mp h
  rw [Frame.paid, UInt64.toNat_sub_of_le _ _ h]
  omega

theorem logged_paid {gas : UInt64} (h : gas ≤ f.Gas) : Logged GasOp.Exact f.interp (f.paid gas).interp :=
  .of_cons rfl h

/-- What a call keeps back for its callee, and what it has paid for the transfer of value. -/
def Frame.reserved (f : Frame σ) (o : Operation) : ℕ :=
  match o.dynamicGas with
  | some g => if g.isCall then f.interp.callGasTemp.toNat + g.surcharge f.machine.stack else 0
  | none => 0

/-- The frame after a charge that went through and in which at least `paid` was paid. -/
structure Charged (D : σ → σ → Prop) (o : Operation) (paid : ℕ) (f f' : Frame σ) : Prop where
  readOnly : f'.interp.readOnly = f.interp.readOnly
  db : D f.interp.db f'.interp.db
  stack : f'.machine.stack = f.machine.stack
  exact : Logged GasOp.Exact f.interp f'.interp
  cost : f'.Gas.toNat + paid + f'.reserved o ≤ f.Gas.toNat
  positive : o.dynamicGas.any GasFunc.positive = true → f'.Gas.toNat < f.Gas.toNat

/-- The frame after a charge that did not go through. -/
structure Uncharged (D : σ → σ → Prop) (f f' : Frame σ) : Prop where
  Gas : f'.Gas.toNat ≤ f.Gas.toNat
  readOnly : f'.interp.readOnly = f.interp.readOnly
  db : D f.interp.db f'.interp.db
  safe : Logged GasOp.Safe f.interp f'.interp

theorem CallFailed.uncharged (h : CallFailed D f f') : Uncharged D f f' :=
  ⟨h.Gas ▸ le_rfl, h.readOnly, h.db, h.safe⟩

theorem GasFunc.not_positive_of_isCall (g : GasFunc) (hg : g.isCall = true) : g.positive = false := by
  cases g <;> first | rfl | cases hg

variable {g : GasFunc}

theorem payGas_steady {o : Operation} (ho : o.dynamicGas = some g) (hg : g.isCall = false)
    (ht : SteadyStack D f t) (hpos : g.positive = true → 0 < cost.toNat) :
    wp (payGas cost) (fun _ f' => Charged D o 0 f f') (fun _ f' => Uncharged D f f') Stop.IsPanic t := by
  refine wp_payGas.mpr ⟨fun hle => ?_, fun _ => ht.callFailed.uncharged⟩
  have hgas := toNat_paid hle
  have hreserved : (t.paid cost).reserved o = 0 := by simp [Frame.reserved, ho, hg]
  refine ⟨ht.readOnly, ht.db, ht.stack, trans_of _ (.of_eq ht.gasOps) (logged_paid hle), ?_, fun h => ?_⟩
  · rw [hreserved, ← ht.Gas]
    omega
  · rw [ho, Option.any_some] at h
    have := hpos h
    rw [← ht.Gas]
    omega

theorem payGas_call {o : Operation} (ho : o.dynamicGas = some g) (hg : g.isCall = true) (ht : CallPriced D f cost t)
    (hcost : t.interp.callGasTemp.toNat + g.surcharge f.machine.stack ≤ cost.toNat) :
    wp (payGas cost) (fun _ f' => Charged D o 0 f f') (fun _ f' => Uncharged D f f') Stop.IsPanic t := by
  refine wp_payGas.mpr ⟨fun hle => ?_, fun _ => ?_⟩
  · have hgas := toNat_paid hle
    have hreserved : (t.paid cost).reserved o = t.interp.callGasTemp.toNat + g.surcharge f.machine.stack := by
      simp [Frame.reserved, ho, hg, Frame.paid, ht.stack]
    refine ⟨ht.readOnly, ht.db, ht.stack, trans_of _ (ht.exact (ht.Gas ▸ hle)) (logged_paid hle), ?_, ?_⟩
    · rw [hreserved, ← ht.Gas]
      omega
    · rw [ho, Option.any_some, g.not_positive_of_isCall hg]
      exact fun h => nomatch h
  · exact ⟨ht.Gas ▸ le_rfl, ht.readOnly, ht.db, ht.safe⟩

theorem MemorySizeFunc.run_keepsStack (g : MemorySizeFunc) : KeepsStack g.run := by
  have region (a b : ℕ) : KeepsStack (memoryRegion a b) :=
    .bind (back_keepsStack _) fun _ => .bind (back_keepsStack _) fun _ => .pure _
  have word (l : UInt64) : KeepsStack (memoryWord l) := .bind (back_keepsStack _) fun _ => .pure _
  have regions (a b a' b' : ℕ) : KeepsStack (memoryRegions (memoryRegion a b) (memoryRegion a' b')) :=
    .bind (region a b) fun _ => .ite (fun _ => .pure _) fun _ => .bind (region a' b') fun _ =>
      .ite (fun _ => .pure _) fun _ => .pure _
  cases g
  case memoryMLoad | memoryMStore8 | memoryMStore => exact word _
  case memoryCall | memoryDelegateCall | memoryStaticCall => exact regions _ _ _ _
  all_goals exact region _ _

/-! ## Gas functions of calls, and the whole charge -/

section Preorder
variable [IsPreorder σ D]

theorem addCallGas_spec (base : UInt64) (f : Frame σ) : wp (addCallGas vm base)
      (fun cost f' => CallPriced D f cost f' ∧ cost.toNat = base.toNat + f'.interp.callGasTemp.toNat)
      (fun _ f' => CallFailed D f f') Stop.IsPanic f := by
  simp only [addCallGas, Prog.wp_bind, wp_read, wp_onMachine, wp_back, wp_onEvm]
  refine ⟨fun callCost _ => ?_, fun _ => Stop.noConfusion⟩
  refine wp_mono (callGas_spec _ _ _ _ _) (fun gas i' h => ?_) (fun _ _ _ => trivial) (fun _ h => h)
  obtain ⟨hdb, hreadOnly, hsafe, hexact⟩ := h
  have hD : D f.interp.db i'.db := hdb ▸ refl_of D _
  simp only [wp_modify]
  cases gas with
  | error e => exact ⟨rfl, hreadOnly, hD, hsafe⟩
  | ok gas =>
    rw [wp_onMachine]
    refine wp_mono (wp_and (noOverflow_yields_safeAdd base gas f.machine)
      (noOverflow_keepsStack _ f.machine)) ?_ ?_ (fun _ _ => Stop.noConfusion)
    · rintro cost m ⟨hcost, hstack⟩
      refine ⟨⟨rfl, hreadOnly, hD, hstack, hsafe, fun hle => hexact ?_⟩, hcost⟩
      rw [UInt64.le_iff_toNat_le] at hle ⊢
      omega
    · exact fun _ _ _ => ⟨rfl, hreadOnly, hD, hsafe⟩

section
variable (h : SteadyStack D f t)
include h

theorem CallPriced.after (h' : CallPriced D t cost f') : CallPriced D f cost f' where
  Gas := h'.Gas.trans h.Gas
  readOnly := h'.readOnly.trans h.readOnly
  db := trans_of D h.db h'.db
  stack := h'.stack.trans h.stack
  safe := trans_of (Logged _) (.of_eq h.gasOps) h'.safe
  exact hle := trans_of (Logged _) (.of_eq h.gasOps) (h'.exact (h.Gas ▸ hle))

theorem CallFailed.after (h' : CallFailed D t f') : CallFailed D f f' where
  Gas := h'.Gas.trans h.Gas
  readOnly := h'.readOnly.trans h.readOnly
  db := trans_of D h.db h'.db
  safe := trans_of (Logged _) (.of_eq h.gasOps) h'.safe

theorem Uncharged.after (h' : Uncharged D t f') : Uncharged D f f' where
  Gas := h.Gas ▸ h'.Gas
  readOnly := h'.readOnly.trans h.readOnly
  db := trans_of D h.db h'.db
  safe := trans_of (Logged _) (.of_eq h.gasOps) h'.safe

theorem addCallGas_after {base : UInt64} {extra : ℕ} (hextra : extra ≤ base.toNat) :
    wp (addCallGas vm base) (fun cost f' => CallPriced D f cost f' ∧ f'.interp.callGasTemp.toNat + extra ≤ cost.toNat)
      (fun _ f' => CallFailed D f f') Stop.IsPanic t := by
  refine wp_mono (addCallGas_spec base t) ?_ (fun _ _ h' => h'.after h) (fun _ h => h)
  rintro cost f' ⟨hpriced, hcost⟩
  exact ⟨hpriced.after h, by omega⟩

end

section Reads
variable (hr : vm.StateDB.ReadsKeep D)
include hr

theorem callsNewAccount_steady (a : Address) (transfers : Bool) :
    Keeps (SteadyStack D) Stop.IsPanic (callsNewAccount vm a transfers) :=
  .ite (fun _ => .ite (fun _ => onDb_steadyStack (hr.empty _)) fun _ => .pure _)
    fun _ => .bind (onDb_steadyStack (hr.exist _)) fun _ => .pure _

variable (memorySize : UInt64) (f : Frame σ)

theorem gasCall_spec : wp (gasCall vm memorySize) (fun cost f' => CallPriced D f cost f' ∧
        f'.interp.callGasTemp.toNat + transferSurcharge f.machine.stack ≤ cost.toNat)
      (fun _ f' => CallFailed D f f') Stop.IsPanic f := by
  rw [gasCall, Prog.wp_bind, wp_onMachine, wp_back]
  refine ⟨fun value hvalue => ?_, fun _ => Stop.noConfusion⟩
  rw [transferSurcharge_of_getElem? hvalue, Prog.wp_bind, wp_onMachine, wp_back]
  refine ⟨fun address _ => ?_, fun _ => Stop.noConfusion⟩
  refine (callsNewAccount_steady hr _ _).wp_bind (.true _) (fun newAccount t ht _ => ?_)
    fun _ _ h => h.callFailed
  refine (onMachine_steadyStack (memoryGasCost_keepsStack _)).wp_bind (.true _) (fun memoryGas u hu _ => ?_)
    fun _ _ h => (trans_of _ ht h).callFailed
  refine (onMachine_steadyStack (noOverflow_keepsStack _)).wp_bind
    (yields_onMachine (noOverflow_yields_safeAdd _ _)) (fun base v hv hbase => ?_)
    fun _ _ h => (trans_of _ ht (trans_of _ hu h)).callFailed
  refine addCallGas_after (trans_of _ ht (trans_of _ hu hv)) ?_
  -- the surcharges do not overflow
  have hsum : (if value ≠ 0 then 9000 else 0) ≤ ((if newAccount then callNewAccountGas else 0) +
        (if value ≠ 0 then callValueTransferGas else 0)).toNat := by
    cases newAccount <;> split <;> decide
  omega

omit hr in
theorem gasCallCode_spec : wp (gasCallCode vm memorySize) (fun cost f' => CallPriced D f cost f' ∧
        f'.interp.callGasTemp.toNat + transferSurcharge f.machine.stack ≤ cost.toNat)
      (fun _ f' => CallFailed D f f') Stop.IsPanic f := by
  refine (onMachine_steadyStack (memoryGasCost_keepsStack _)).wp_bind (.true _) (fun memoryGas t ht _ => ?_)
    fun _ _ h => h.callFailed
  rw [Prog.wp_bind, wp_onMachine, wp_back]
  refine ⟨fun value hvalue => ?_, fun _ => Stop.noConfusion⟩
  rw [ht.stack] at hvalue
  rw [transferSurcharge_of_getElem? hvalue]
  refine (onMachine_steadyStack (noOverflow_keepsStack _)).wp_bind
    (yields_onMachine (noOverflow_yields_safeAdd _ _)) (fun base v hv hbase => ?_)
    fun _ _ h => (trans_of _ ht h).callFailed
  refine addCallGas_after (trans_of _ ht hv) ?_
  have hsum : (if value ≠ 0 then 9000 else 0) ≤ (if U256.sign value ≠ 0 then callValueTransferGas else 0).toNat := by
    simp only [ne_eq, U256.sign_eq_zero]
    split <;> decide
  omega

omit hr in
theorem gasDelegateCall_spec : wp (gasDelegateCall vm memorySize)
      (fun cost f' => CallPriced D f cost f' ∧ f'.interp.callGasTemp.toNat + 0 ≤ cost.toNat)
      (fun _ f' => CallFailed D f f') Stop.IsPanic f :=
  (onMachine_steadyStack (memoryGasCost_keepsStack _)).wp_bind (.true _)
    (fun _ _ ht _ => addCallGas_after ht (Nat.zero_le _)) fun _ _ h => h.callFailed

theorem GasFunc.run_call (hg : g.isCall = true) (memorySize : UInt64) (f : Frame σ) :
    wp (g.run vm c memorySize) (fun cost f' => CallPriced D f cost f' ∧
        f'.interp.callGasTemp.toNat + g.surcharge f.machine.stack ≤ cost.toNat)
      (fun _ f' => CallFailed D f f') Stop.IsPanic f := by
  cases g
  case gasCall => exact gasCall_spec hr memorySize f
  case gasCallCode => exact gasCallCode_spec memorySize f
  case gasDelegateCall => exact gasDelegateCall_spec memorySize f
  case gasStaticCall => exact gasDelegateCall_spec memorySize f
  all_goals cases hg

end Reads

section Operations
variable (hr : vm.StateDB.ReadsKeep D) {o : Operation}
  (hw : o.dynamicGas.any GasFunc.writes = true → vm.StateDB.WritesKeep D)
include hr hw

theorem payDynamicGas_spec (memorySize : UInt64) (f : Frame σ) :
    wp (payDynamicGas vm c o memorySize) (fun _ f' => Charged D o 0 f f')
      (fun _ f' => Uncharged D f f') Stop.IsPanic f := by
  rw [payDynamicGas]
  cases ho : o.dynamicGas with
  | none =>
    refine ⟨rfl, refl_of D _, rfl, refl_of _ _, ?_, by simp [ho]⟩
    simp [Frame.reserved, ho]
  | some g =>
    rw [ho, Option.any_some] at hw
    dsimp only
    rw [Prog.wp_bind, wp_attempt]
    cases hg : g.isCall with
    | true =>
      refine wp_mono (g.run_call hr hg memorySize f) (fun cost t h => payGas_call ho hg h.1 h.2)
        (fun e t h => h.uncharged) (fun _ h => h)
    | false =>
      have hsteady := g.run_steady (c := c) hr memorySize hg hw f
      cases hpos : g.positive with
      | true =>
        refine wp_mono (wp_and hsteady (g.run_pos memorySize hpos f))
          (fun cost t h => payGas_steady ho hg h.1 fun _ => h.2)
          (fun e t h => h.1.callFailed.uncharged) (fun _ h => h.1)
      | false =>
        refine wp_mono hsteady (fun cost t h => payGas_steady ho hg h fun h => ?_)
          (fun e t h => h.callFailed.uncharged) (fun _ h => h)
        rw [hpos] at h
        cases h

omit hr hw in
theorem memoryNeeded_steady (o : Operation) : Keeps (SteadyStack D) Stop.IsPanic (memoryNeeded o) := by
  rw [memoryNeeded]
  cases o.memorySize with
  | none => exact .pure _
  | some g =>
    exact .bind (onMachine_steadyStack g.run_keepsStack) fun _ => .ite (fun _ => .throw _) fun _ =>
      .ite (fun _ => .throw _) fun _ => .pure _

theorem charge_spec (f : Frame σ) : wp (charge vm c o) (fun _ f' => Charged D o o.constantGas.toNat f f')
      (fun _ f' => Uncharged D f f') Stop.IsPanic f := by
  rw [charge, Prog.wp_bind, wp_payGas]
  refine ⟨fun hle => ?_, fun _ => ⟨le_rfl, rfl, refl_of D _, refl_of _ _⟩⟩
  have hpaid := toNat_paid hle
  have hlog := logged_paid hle
  have huncharged {f' : Frame σ} (h : Uncharged D (f.paid o.constantGas) f') : Uncharged D f f' :=
    ⟨by have := h.Gas; omega, h.readOnly, h.db, trans_of _ hlog.safe h.safe⟩
  refine (memoryNeeded_steady o).wp_bind (.true _) (fun memorySize t ht _ => ?_)
    fun e t ht => huncharged ht.callFailed.uncharged
  rw [Prog.wp_bind]
  refine wp_mono (payDynamicGas_spec hr hw memorySize t) (fun _ f' h => ?_)
    (fun _ _ h => huncharged (h.after ht)) (fun _ h => h)
  have hcharged {m : Machine} (hm : m.stack = f'.machine.stack) :
      Charged D o o.constantGas.toNat f { f' with machine := m } := by
    have hcost := h.cost
    have hreserved : Frame.reserved { f' with machine := m } o = f'.reserved o := by
      simp only [Frame.reserved, hm]
    rw [ht.Gas] at hcost
    refine ⟨h.readOnly.trans ht.readOnly, trans_of D ht.db h.db, hm.trans (h.stack.trans ht.stack),
      trans_of _ hlog (trans_of _ (.of_eq ht.gasOps) h.exact), ?_, fun hpos => ?_⟩
    · rw [hreserved]
      dsimp only
      omega
    · have := h.positive hpos
      rw [ht.Gas] at this
      dsimp only
      omega
  simp only [wp_when, wp_onMachine, wp_modify]
  exact ⟨fun _ => hcharged rfl, fun _ => hcharged rfl⟩

end Operations

end Preorder

end Web3.Vm
