import Web3.Vm.GasBounds

/-! # Relations that calls keep

What a call adds to what its callee does: it takes a snapshot, moves the value, and on an error takes the
database back to the snapshot. A relation that this keeps (`CallRules`) is kept by every call whose callee
keeps it, and from there by the instructions and by the loop of the interpreter. -/

namespace Web3.Vm
open Storage (U256)
open Prog ExecM

variable {σ α β : Type} {Rel : Interp σ → Interp σ → Prop} {vm : Evm σ} {c : Contract} {run : RunFn σ}

abbrev KeepsRel (Rel : Interp σ → Interp σ → Prop) (m : EvmM σ α) : Prop := Keeps Rel (fun _ => True) m

abbrev EndsRel (Rel : Interp σ → Interp σ → Prop) (i : Interp σ) (m : EvmM σ α) (t : Interp σ) : Prop :=
  wp m (fun _ u => Rel i u) (fun _ u => Rel i u) (fun _ => True) t

/-- Since the snapshot `id` was taken in the state `i`, the state has become `t`: from here and from every
later state, going back to the snapshot is as good as having done nothing. -/
structure Inside (vm : Evm σ) (Rel : Interp σ → Interp σ → Prop) (id : ℤ) (i t : Interp σ) : Prop where
  rel : Rel i t
  undo (u : Interp σ) : Rel t u → EndsRel Rel i (EvmM.onDb (vm.StateDB.revertToSnapshot id)) u

/-- The relation depends only on the database and the flag, and the methods that every call uses keep it. -/
structure CallRules (vm : Evm σ) (Rel : Interp σ → Interp σ → Prop) : Prop where
  same (i i' : Interp σ) : i'.db = i.db → i'.readOnly = i.readOnly → Rel i i'
  canTransfer (a : Address) (n : ℤ) : KeepsRel Rel (EvmM.onDb (vm.StateDB.canTransfer a n))
  exist (a : Address) : KeepsRel Rel (EvmM.onDb (vm.StateDB.exist a))
  createAccount (a : Address) : KeepsRel Rel (EvmM.onDb (vm.StateDB.createAccount a))
  snapshot (i : Interp σ) :
    wp (EvmM.onDb vm.StateDB.snapshot) (fun id t => Inside vm Rel id i t) (fun _ _ => True) (fun _ => True) i

variable {m : EvmM σ α}

/-! ## Calls -/

section Calls
variable [IsPreorder (Interp σ) Rel] {id value : ℤ} {i t : Interp σ} {gas : UInt64}
  {caller : ContractRef} {addr : Address} {input : Bytes}

theorem Inside.step {u : Interp σ} (h : Inside vm Rel id i t) (htu : Rel t u) : Inside vm Rel id i u :=
  ⟨trans_of Rel h.rel htu, fun v huv => h.undo v (trans_of Rel htu huv)⟩

theorem Inside.bind {k : α → EvmM σ β} (h : Inside vm Rel id i t) (hm : KeepsRel Rel m)
    (hk : ∀ a u, Inside vm Rel id i u → EndsRel Rel i (k a) u) : EndsRel Rel i (m >>= k) t :=
  hm.wp_bind (.true _) (fun a u htu _ => hk a u (h.step htu)) fun _ _ htu => trans_of Rel h.rel htu

theorem Inside.settleCall (h : Inside vm Rel id i t) (r : CallResult) : EndsRel Rel i (vm.settleCall id r) t := by
  rw [Evm.settleCall]
  cases r.err with
  | none => exact h.rel
  | some e =>
    rw [EndsRel, wp_bind]
    exact wp_mono (h.undo t (refl_of Rel t)) (fun _ _ hv => hv) (fun _ _ hv => hv) fun _ _ => trivial

theorem withinLimits_keeps {body : EvmM σ CallResult} (hbody : KeepsRel Rel body) :
    KeepsRel Rel (vm.withinLimits gas body) :=
  .bind (.read _) fun _ => .ite (fun _ => .pure _) fun _ => .ite (fun _ => .pure _) fun _ => hbody

theorem asDelegate_keeps (caller : ContractRef) (c : Contract) : KeepsRel Rel (Evm.asDelegate caller c) := by
  cases caller with
  | account addr => exact .halt trivial
  | contract self CallerAddress value => exact .pure _

variable (h : CallRules vm Rel)
include h

omit [IsPreorder (Interp σ) Rel] in
theorem CallRules.modify {u : Interp σ → Interp σ} (hdb : ∀ i, (u i).db = i.db)
    (hflag : ∀ i, (u i).readOnly = i.readOnly) : KeepsRel Rel (.modify u : EvmM σ Unit) :=
  fun i => h.same i (u i) (hdb i) (hflag i)

theorem CallRules.subGas (x y : UInt64) : KeepsRel Rel (EvmM.subGas x y) :=
  .bind (h.modify (fun _ => rfl) fun _ => rfl) fun _ => .pure _

theorem CallRules.addGas (x y : UInt64) : KeepsRel Rel (EvmM.addGas x y) :=
  .bind (h.modify (fun _ => rfl) fun _ => rfl) fun _ => .pure _

theorem runPrecompiledContract_keeps (p : PrecompiledContract) (input : Bytes) (gas : UInt64) :
    KeepsRel Rel (Evm.runPrecompiledContract p input gas) :=
  .ite (fun _ => .pure _) fun _ => .bind (h.subGas _ _) fun _ => .pure _

theorem newContract_keeps (caller : ContractRef) (object : Address) (value : ℤ) :
    KeepsRel Rel (Evm.newContract caller object value) :=
  .bind (.when fun _ => h.modify (fun _ => rfl) fun _ => rfl) fun _ => .pure _

omit [IsPreorder (Interp σ) Rel] in
theorem CallRules.snapshot_bind {k : ℤ → EvmM σ α} (hk : ∀ id i t, Inside vm Rel id i t → EndsRel Rel i (k id) t) :
    KeepsRel Rel (EvmM.onDb vm.StateDB.snapshot >>= k) := by
  intro i
  rw [wp_bind]
  exact wp_mono (h.snapshot i) (fun id t hin => hk id i t hin) (fun e => e.elim) fun _ _ => trivial

theorem call_keeps
    (htransfer : KeepsRel Rel (EvmM.onDb (vm.StateDB.transfer caller.address addr value)))
    (hcalled : KeepsRel Rel (vm.runCalled run caller addr input gas value)) :
    KeepsRel Rel (vm.call run caller addr input gas value) := by
  refine withinLimits_keeps (.bind (.ite (fun _ => .pure _) fun _ => h.canTransfer _ _) fun enough =>
    .ite (fun _ => .pure _) fun _ => h.snapshot_bind fun id i t hin => ?_)
  refine hin.bind (h.exist addr) fun exist t hin => wp_ite.mpr ⟨fun _ => hin.rel, fun _ => ?_⟩
  refine hin.bind (.when fun _ => h.createAccount addr) fun _ t hin => hin.bind htransfer fun _ t hin => ?_
  exact hin.bind hcalled fun r t hin => hin.settleCall r

theorem callCode_keeps
    (hcode : KeepsRel Rel (vm.runCode run (Evm.newContract caller caller.address value) addr input false gas)) :
    KeepsRel Rel (vm.callCode run caller addr input gas value) :=
  withinLimits_keeps (.bind (h.canTransfer _ _) fun _ => .ite (fun _ => .pure _) fun _ =>
    h.snapshot_bind fun _ _ _ hin => hin.bind hcode fun r _ hin => hin.settleCall r)

theorem delegateCall_keeps (hcode : KeepsRel Rel (vm.runCode run (do
      let c ← Evm.newContract caller caller.address 0
      Evm.asDelegate caller c) addr input false gas)) :
    KeepsRel Rel (vm.delegateCall run caller addr input gas) :=
  withinLimits_keeps (h.snapshot_bind fun _ _ _ hin => hin.bind hcode fun r _ hin => hin.settleCall r)

theorem staticCall_keeps (hadd : KeepsRel Rel (EvmM.onDb (vm.StateDB.addBalance addr 0)))
    (hcode : KeepsRel Rel (vm.runCode run (Evm.newContract caller addr 0) addr input true gas)) :
    KeepsRel Rel (vm.staticCall run caller addr input gas) :=
  withinLimits_keeps (h.snapshot_bind fun _ _ _ hin => hin.bind hadd fun _ _ hin =>
    hin.bind hcode fun r _ hin => hin.settleCall r)

end Calls

/-! ## Frames -/

def FrameRel (Rel : Interp σ → Interp σ → Prop) (f f' : Frame σ) : Prop := Rel f.interp f'.interp

instance [IsPreorder (Interp σ) Rel] : IsPreorder (Frame σ) (FrameRel Rel) where
  refl f := refl_of Rel f.interp
  trans _ _ _ h h' := trans_of Rel h h'

abbrev KeepsFrameRel (Rel : Interp σ → Interp σ → Prop) (m : ExecM σ α) : Prop :=
  Keeps (FrameRel Rel) (fun _ => True) m

theorem onEvm_keeps (h : KeepsRel Rel m) : KeepsFrameRel Rel (onEvm m) :=
  fun f => wp_onEvm.mpr (wp_mono (h f.interp) (fun _ _ h => h) (fun _ _ _ => trivial) fun _ h => h)

section Frames
variable [IsPreorder (Interp σ) Rel]

theorem onMachine_keeps (m : MachineM α) : KeepsFrameRel Rel (onMachine m) := fun f =>
  wp_onMachine.mpr (wp_of_forall (fun _ _ => refl_of Rel f.interp) (fun _ _ => refl_of Rel f.interp)
    fun _ => trivial)

theorem loop_keeps {turn : ExecM σ (Option Halt)} (hturn : KeepsFrameRel Rel turn) (n : ℕ) :
    KeepsFrameRel Rel (loop turn n) := by
  induction n with
  | zero => exact .halt trivial
  | succ n ih =>
    refine .bind hturn fun h => ?_
    cases h with
    | some h => exact .pure _
    | none => exact ih

omit [IsPreorder (Interp σ) Rel] in
theorem inFrame_keeps {gas : UInt64} {m : ExecM σ Halt} (hm : KeepsFrameRel Rel m) :
    KeepsRel Rel (inFrame gas m) := fun i =>
  wp_inFrame.mpr (hm { machine := .init, Gas := gas, analysis := none, interp := i })

variable (h : CallRules vm Rel)
include h

theorem returnGas_keeps (gas : UInt64) : KeepsFrameRel Rel (returnGas gas) :=
  .bind (.read _) fun _ => .bind (onEvm_keeps (h.addGas _ _)) fun _ f => refl_of (FrameRel Rel) f

theorem callOp_keeps {withValue : Bool} {call : Address → Bytes → UInt64 → ℤ → EvmM σ CallResult} {f : Frame σ}
    {P : U256 → Prop} (hcall : ∀ addr input gas value, P value → KeepsRel Rel (call addr input gas (U256.toBig value)))
    (hP : ∀ value, (withValue = true → f.machine.stack[2]? = some value) → P value) :
    wp (callOp withValue call) (fun _ f' => FrameRel Rel f f') (fun _ f' => FrameRel Rel f f') (fun _ => True) f := by
  rw [callOp, wp_bind, wp_onMachine]
  refine wp_mono (popCall_value withValue f.machine) (fun a machine ha => ?_)
    (fun _ _ _ => refl_of (FrameRel Rel) f) (fun _ _ => trivial)
  have hrest : KeepsFrameRel Rel (do
      let gas ← onEvm (.read Interp.callGasTemp)
      let gas ← (if a.value = 0 then pure gas else onEvm (EvmM.addGas gas callStipend))
      let input ← onMachine (.read fun m => m.memory.bytes a.args)
      let r ← onEvm (call a.toAddr input gas (U256.toBig a.value))
      let ret ← onMachine (finishCall a r)
      returnGas r.gas
      return ret) :=
    .bind (onEvm_keeps (.read _)) fun _ => .bind (.ite (fun _ => .pure _) fun _ => onEvm_keeps (h.addGas _ _))
      fun _ => .bind (onMachine_keeps _) fun _ => .bind (onEvm_keeps (hcall _ _ _ _ (hP _ ha.1))) fun _ =>
        .bind (onMachine_keeps _) fun _ => .bind (returnGas_keeps h _) fun _ => .pure _
  exact hrest { f with machine }

end Frames

end Web3.Vm
