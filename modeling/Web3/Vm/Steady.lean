import Web3.Vm.Interpreter

/-! # What instructions leave alone

Apart from calls and creations, an instruction and its gas function leave the gas, the record of the
operations on it, the gas for the next call and the flag for static calls as they are, and change the
database only through its methods (`Steady D`, for a relation `D` that those methods keep). A gas
function also leaves the stack as it is. -/

namespace Web3.Vm
open Prog ExecM

variable {σ α : Type} {D : σ → σ → Prop} {vm : Evm σ} {c : Contract}

/-- A panic, and not the end of the fuel. -/
abbrev Stop.IsPanic (s : Stop) : Prop := s ≠ .outOfFuel

abbrev DbKeeps (D : σ → σ → Prop) (m : DbM σ α) : Prop := Keeps D (fun _ => True) m

/-- The methods that read keep `D`, and so does the one that records a preimage. -/
structure StateDB.ReadsKeep (db : StateDB σ) (D : σ → σ → Prop) : Prop where
  getBalance (a : Address) : DbKeeps D (db.getBalance a)
  getNonce (a : Address) : DbKeeps D (db.getNonce a)
  getCodeHash (a : Address) : DbKeeps D (db.getCodeHash a)
  getCode (a : Address) : DbKeeps D (db.getCode a)
  getCodeSize (a : Address) : DbKeeps D (db.getCodeSize a)
  getCommittedState (a : Address) (k : Hash) : DbKeeps D (db.getCommittedState a k)
  getState (a : Address) (k : Hash) : DbKeeps D (db.getState a k)
  hasSuicided (a : Address) : DbKeeps D (db.HasSuicided a)
  exist (a : Address) : DbKeeps D (db.exist a)
  empty (a : Address) : DbKeeps D (db.empty a)
  addPreimage (h : Hash) (bs : Bytes) : DbKeeps D (db.addPreimage h bs)

/-- The methods that instructions write with keep `D`. -/
structure StateDB.WritesKeep (db : StateDB σ) (D : σ → σ → Prop) : Prop where
  addBalance (a : Address) (n : ℤ) : DbKeeps D (db.addBalance a n)
  addRefund (n : UInt64) : DbKeeps D (db.addRefund n)
  subRefund (n : UInt64) : DbKeeps D (db.subRefund n)
  setState (a : Address) (k v : Hash) : DbKeeps D (db.setState a k v)
  suicide (a : Address) : DbKeeps D (db.suicide a)
  addLog (l : Storage.StorageLog) : DbKeeps D (db.addLog l)

structure Steady (D : σ → σ → Prop) (f f' : Frame σ) : Prop where
  Gas : f'.Gas = f.Gas
  gasOps : f'.interp.gasOps = f.interp.gasOps
  callGasTemp : f'.interp.callGasTemp = f.interp.callGasTemp
  readOnly : f'.interp.readOnly = f.interp.readOnly
  db : D f.interp.db f'.interp.db

abbrev KeepsSteady (D : σ → σ → Prop) (m : ExecM σ α) : Prop := Keeps (Steady D) Stop.IsPanic m

structure SteadyStack (D : σ → σ → Prop) (f f' : Frame σ) : Prop extends Steady D f f' where
  stack : f'.machine.stack = f.machine.stack

abbrev KeepsPriced (D : σ → σ → Prop) (m : ExecM σ α) : Prop := Keeps (SteadyStack D) Stop.IsPanic m

section Preorder
variable [IsPreorder σ D]

instance : IsPreorder (Frame σ) (Steady D) where
  refl _ := ⟨rfl, rfl, rfl, rfl, refl_of D _⟩
  trans _ _ _ h h' := ⟨h'.Gas.trans h.Gas, h'.gasOps.trans h.gasOps, h'.callGasTemp.trans h.callGasTemp,
    h'.readOnly.trans h.readOnly, trans_of D h.db h'.db⟩

instance : IsPreorder (Frame σ) (SteadyStack D) where
  refl f := ⟨refl_of (Steady D) f, rfl⟩
  trans _ _ _ h h' := ⟨trans_of (Steady D) h.toSteady h'.toSteady, h'.stack.trans h.stack⟩

/-! ## Parts -/

theorem onMachine_steady (m : MachineM α) : KeepsSteady D (onMachine m) := by
  intro f
  rw [onMachine, wp_zoom]
  exact wp_of_forall (fun _ _ => ⟨rfl, rfl, rfl, rfl, refl_of D _⟩)
    (fun _ _ => ⟨rfl, rfl, rfl, rfl, refl_of D _⟩) (fun _ => Stop.noConfusion)

theorem machine_steady {β : Type} {m : MachineM α} {k : α → ExecM σ β} (h : ∀ a, KeepsSteady D (k a)) :
    KeepsSteady D (onMachine m >>= k) := .bind (onMachine_steady m) h

variable {m : DbM σ α}

omit [IsPreorder σ D] in
theorem onDb_steady (h : DbKeeps D m) : KeepsSteady D (onDb m) := by
  intro f
  rw [onDb, onEvm, wp_zoom, EvmM.onDb, wp_zoom]
  exact wp_mono (h _) (fun _ _ hD => ⟨rfl, rfl, rfl, rfl, hD⟩) (fun e => e.elim)
    (fun _ _ => Stop.noConfusion)

theorem sharedAnalysis_steady : KeepsSteady D (sharedAnalysis c) := by
  refine .bind (.read _) fun shared => ?_
  cases shared with
  | some analysis => exact .pure _
  | none =>
    refine machine_steady fun analysis => .bind ?_ fun _ => .pure _
    exact fun f => ⟨rfl, rfl, rfl, rfl, refl_of D _⟩

theorem isCode_steady (udest : ℕ) : KeepsSteady D (isCode c udest) := by
  refine .bind (.read _) fun cached => ?_
  cases cached with
  | some analysis => exact onMachine_steady _
  | none =>
    refine .bind (.ite (fun _ => sharedAnalysis_steady) fun _ => onMachine_steady _) fun analysis => ?_
    refine .bind ?_ fun _ => onMachine_steady _
    exact fun f => ⟨rfl, rfl, rfl, rfl, refl_of D _⟩

theorem validJumpdest_steady (dest : Storage.U256) : KeepsSteady D (validJumpdest c dest) :=
  .ite (fun _ => .pure _) fun _ => .ite (fun _ => .pure _) fun _ => isCode_steady _

theorem validJumpSubdest_steady (udest : UInt64) : KeepsSteady D (validJumpSubdest c udest) :=
  .ite (fun _ => .pure _) fun _ => .ite (fun _ => .pure _) fun _ => isCode_steady _

/-! ## Instructions -/

theorem opJump_steady : KeepsSteady D (opJump c) :=
  machine_steady fun _ => .bind (validJumpdest_steady _) fun _ =>
    .ite (fun _ => .throw _) fun _ => machine_steady fun _ => .pure _

theorem opJumpi_steady : KeepsSteady D (opJumpi c) :=
  machine_steady fun _ => machine_steady fun _ =>
    .ite (fun _ => machine_steady fun _ => .pure _) fun _ =>
      .bind (validJumpdest_steady _) fun _ =>
        .ite (fun _ => .throw _) fun _ => machine_steady fun _ => .pure _

theorem opJumpSub_steady : KeepsSteady D (opJumpSub c) :=
  machine_steady fun _ => .ite (fun _ => .throw _) fun _ =>
    machine_steady fun _ => .ite (fun _ => .throw _) fun _ =>
      .bind (validJumpSubdest_steady _) fun _ => .ite (fun _ => .throw _) fun _ =>
        machine_steady fun _ => machine_steady fun _ => .pure _

variable (hr : vm.StateDB.ReadsKeep D)
include hr

theorem opSha3_steady : KeepsSteady D (opSha3 vm) :=
  machine_steady fun _ => machine_steady fun _ =>
    machine_steady fun _ => .bind (.when fun _ => onDb_steady (hr.addPreimage _ _)) fun _ =>
      machine_steady fun _ => .pure _

theorem opBalance_steady : KeepsSteady D (opBalance vm) :=
  machine_steady fun _ => .bind (onDb_steady (hr.getBalance _)) fun _ =>
    machine_steady fun _ => .pure _

theorem opSelfBalance_steady : KeepsSteady D (opSelfBalance vm c) :=
  .bind (onDb_steady (hr.getBalance _)) fun _ => onMachine_steady _

theorem opExtCodeSize_steady : KeepsSteady D (opExtCodeSize vm) :=
  machine_steady fun _ => .bind (onDb_steady (hr.getCodeSize _)) fun _ =>
    machine_steady fun _ => .pure _

theorem opExtCodeCopy_steady : KeepsSteady D (opExtCodeCopy vm) :=
  machine_steady fun _ => machine_steady fun _ =>
    machine_steady fun _ => machine_steady fun _ =>
      .bind (onDb_steady (hr.getCode _)) fun _ => onMachine_steady _

theorem opExtCodeHash_steady : KeepsSteady D (opExtCodeHash vm) :=
  machine_steady fun _ => .bind (onDb_steady (hr.empty _)) fun _ =>
    .ite (fun _ => machine_steady fun _ => .pure _) fun _ =>
      .bind (onDb_steady (hr.getCodeHash _)) fun _ => machine_steady fun _ => .pure _

theorem opSload_steady : KeepsSteady D (opSload vm c) :=
  machine_steady fun _ => .bind (onDb_steady (hr.getState _ _)) fun _ =>
    machine_steady fun _ => .pure _

omit hr in
theorem opSstore_steady (hw : vm.StateDB.WritesKeep D) : KeepsSteady D (opSstore vm c) :=
  machine_steady fun _ => machine_steady fun _ =>
    .bind (onDb_steady (hw.setState _ _ _)) fun _ => .pure _

theorem opSuicide_steady (hw : vm.StateDB.WritesKeep D) : KeepsSteady D (opSuicide vm c) :=
  machine_steady fun _ => .bind (onDb_steady (hr.getBalance _)) fun _ =>
    .bind (onDb_steady (hw.addBalance _ _)) fun _ => .bind (onDb_steady (hw.suicide _)) fun _ => .pure _

omit hr in
theorem makeLog_steady (hw : vm.StateDB.WritesKeep D) (size : ℕ) : KeepsSteady D (makeLog vm c size) :=
  machine_steady fun _ => machine_steady fun _ =>
    machine_steady fun _ => machine_steady fun _ =>
      .bind (onDb_steady (hw.addLog _)) fun _ => .pure _

def ExecutionFunc.isCall : ExecutionFunc → Bool
  | opCall | opCallCode | opDelegateCall | opStaticCall | opCreate | opCreate2 => true
  | _ => false

def ExecutionFunc.writes : ExecutionFunc → Bool
  | opSstore | opSuicide | makeLog _ => true
  | _ => false

theorem ExecutionFunc.run_steady (run : RunFn σ) (f : ExecutionFunc) (hf : f.isCall = false)
    (hw : f.writes = true → vm.StateDB.WritesKeep D) : KeepsSteady D (f.run vm run c) := by
  cases f
  case opSha3 => exact opSha3_steady hr
  case opBalance => exact opBalance_steady hr
  case opSelfBalance => exact opSelfBalance_steady hr
  case opExtCodeSize => exact opExtCodeSize_steady hr
  case opExtCodeCopy => exact opExtCodeCopy_steady hr
  case opExtCodeHash => exact opExtCodeHash_steady hr
  case opSload => exact opSload_steady hr
  case opSstore => exact opSstore_steady (hw rfl)
  case opSuicide => exact opSuicide_steady hr (hw rfl)
  case makeLog size => exact makeLog_steady (hw rfl) size
  case opJump => exact opJump_steady
  case opJumpi => exact opJumpi_steady
  case opJumpSub => exact opJumpSub_steady
  case opReturnDataSize => exact .bind (fun f => refl_of (Steady D) f) fun _ => onMachine_steady _
  case opReturnDataCopy => exact .bind (fun f => refl_of (Steady D) f) fun _ => onMachine_steady _
  case opGas => exact .bind (.read _) fun _ => onMachine_steady _
  case opCall | opCallCode | opDelegateCall | opStaticCall | opCreate | opCreate2 => cases hf
  all_goals exact onMachine_steady _

/-! ## Gas functions -/

omit hr

abbrev KeepsStack (m : MachineM α) : Prop :=
  Keeps (fun m m' : Machine => m'.stack = m.stack) (fun _ => True) m

instance : IsPreorder Machine (fun m m' => m'.stack = m.stack) where
  refl _ := rfl
  trans _ _ _ h h' := h'.trans h

theorem onMachine_steadyStack {m : MachineM α} (h : KeepsStack m) : KeepsPriced D (onMachine m) := by
  intro f
  rw [onMachine, wp_zoom]
  exact wp_mono (h f.machine) (fun _ _ hs => ⟨⟨rfl, rfl, rfl, rfl, refl_of D _⟩, hs⟩)
    (fun _ _ hs => ⟨⟨rfl, rfl, rfl, rfl, refl_of D _⟩, hs⟩) (fun _ _ => Stop.noConfusion)

omit [IsPreorder σ D] in
theorem onDb_steadyStack (h : DbKeeps D m) : KeepsPriced D (onDb m) := by
  intro f
  rw [onDb, onEvm, wp_zoom, EvmM.onDb, wp_zoom]
  exact wp_mono (h _) (fun _ _ hD => ⟨⟨rfl, rfl, rfl, rfl, hD⟩, rfl⟩) (fun e => e.elim)
    (fun _ _ => Stop.noConfusion)

theorem back_keepsStack (n : ℕ) : KeepsStack (MachineM.back n) := by
  intro m
  simp only [wp, MachineM.back]
  cases m.stack[n]? <;> trivial

theorem noOverflow_keepsStack (r : UInt64 × Bool) : KeepsStack (noOverflow r) :=
  .ite (fun _ => .throw _) fun _ => .pure _

theorem memoryGasCost_keepsStack (newMemSize : UInt64) : KeepsStack (memoryGasCost newMemSize) :=
  .ite (fun _ => .pure _) fun _ => .ite (fun _ => .throw _) fun _ => .bind (.read _) fun _ =>
    .ite (fun _ => .bind (fun _ => rfl) fun _ => .pure _) fun _ => .pure _

theorem memoryWordGas_keepsStack (stackpos : ℕ) (price memorySize : UInt64) :
    KeepsStack (memoryWordGas stackpos price memorySize) :=
  .bind (memoryGasCost_keepsStack _) fun _ => .bind (back_keepsStack _) fun _ =>
    .bind (noOverflow_keepsStack _) fun _ => .bind (noOverflow_keepsStack _) fun _ =>
      noOverflow_keepsStack _

theorem makeGasLog_keepsStack (n memorySize : UInt64) : KeepsStack (makeGasLog n memorySize) :=
  .bind (back_keepsStack _) fun _ => .bind (noOverflow_keepsStack _) fun _ =>
    .bind (memoryGasCost_keepsStack _) fun _ => .bind (noOverflow_keepsStack _) fun _ =>
      .bind (noOverflow_keepsStack _) fun _ => .bind (noOverflow_keepsStack _) fun _ =>
        noOverflow_keepsStack _

theorem gasExp_keepsStack (expByte : UInt64) : KeepsStack (gasExp expByte) :=
  .bind (back_keepsStack _) fun _ => noOverflow_keepsStack _

theorem back_steadyStack (n : ℕ) : KeepsPriced D (onMachine (MachineM.back n)) :=
  onMachine_steadyStack (back_keepsStack n)

section Storage
variable (hr : vm.StateDB.ReadsKeep D) (hw : vm.StateDB.WritesKeep D)
include hr hw

theorem netSStoreGas_steady (p : NetPrices) (slot current value : Hash) :
    KeepsPriced D (netSStoreGas vm c p slot current value) := by
  have add (n : UInt64) := onDb_steadyStack (hw.addRefund n)
  have sub (n : UInt64) := onDb_steadyStack (hw.subRefund n)
  refine .ite (fun _ => .pure _) fun _ =>
    .bind (onDb_steadyStack (hr.getCommittedState _ _)) fun original => .ite (fun _ => ?_) fun _ => ?_
  · exact .ite (fun _ => .pure _) fun _ => .bind (.when fun _ => add _) fun _ => .pure _
  · refine .bind (.when fun _ => .ite (fun _ => sub _) fun _ => .when fun _ => add _) fun _ => ?_
    exact .bind (.when fun _ => .ite (fun _ => add _) fun _ => add _) fun _ => .pure _

theorem gasSStore_steady : KeepsPriced D (gasSStore vm c) := by
  refine .bind (back_steadyStack _) fun y => .bind (back_steadyStack _) fun x =>
    .bind (onDb_steadyStack (hr.getState _ _)) fun current => .ite (fun _ => ?_) fun _ =>
      netSStoreGas_steady hr hw _ _ _ _
  exact .ite (fun _ => .pure _) fun _ =>
    .ite (fun _ => .bind (onDb_steadyStack (hw.addRefund _)) fun _ => .pure _) fun _ => .pure _

theorem gasSStoreEIP2200_steady : KeepsPriced D (gasSStoreEIP2200 vm c) :=
  .bind (.read _) fun _ => .ite (fun _ => .throw _) fun _ => .bind (back_steadyStack _) fun _ =>
    .bind (back_steadyStack _) fun _ => .bind (onDb_steadyStack (hr.getState _ _)) fun _ =>
      netSStoreGas_steady hr hw _ _ _ _

theorem gasSelfdestruct_steady : KeepsPriced D (gasSelfdestruct vm c) := by
  have refundsNewAccount_steady (a : Address) : KeepsPriced D (refundsNewAccount vm c a) :=
    .ite (fun _ => .bind (onDb_steadyStack (hr.empty _)) fun _ =>
      .ite (fun _ => .bind (onDb_steadyStack (hr.getBalance _)) fun _ => .pure _) fun _ => .pure _)
      fun _ => .bind (onDb_steadyStack (hr.exist _)) fun _ => .pure _
  refine .bind (.ite (fun _ => ?_) fun _ => .pure _) fun gas => ?_
  · exact .bind (back_steadyStack _) fun _ => .bind (refundsNewAccount_steady _) fun _ => .pure _
  · exact .bind (onDb_steadyStack (hr.hasSuicided _)) fun _ =>
      .bind (.when fun _ => onDb_steadyStack (hw.addRefund _)) fun _ => .pure _

end Storage

/-- The gas functions of calls set the gas for the callee. -/
def GasFunc.isCall : GasFunc → Bool
  | gasCall | gasCallCode | gasDelegateCall | gasStaticCall => true
  | _ => false

def GasFunc.writes : GasFunc → Bool
  | gasSStore | gasSStoreEIP2200 | gasSelfdestruct => true
  | _ => false

theorem GasFunc.run_steady (hr : vm.StateDB.ReadsKeep D) (g : GasFunc) (memorySize : UInt64)
    (hg : g.isCall = false) (hw : g.writes = true → vm.StateDB.WritesKeep D) :
    KeepsPriced D (g.run vm c memorySize) := by
  cases g
  case gasSStore => exact gasSStore_steady hr (hw rfl)
  case gasSStoreEIP2200 => exact gasSStoreEIP2200_steady hr (hw rfl)
  case gasSelfdestruct => exact gasSelfdestruct_steady hr (hw rfl)
  case gasCall | gasCallCode | gasDelegateCall | gasStaticCall => cases hg
  case makeGasLog n => exact onMachine_steadyStack (makeGasLog_keepsStack n _)
  case gasExpFrontier | gasExpEIP158 => exact onMachine_steadyStack (gasExp_keepsStack _)
  case gasReturn | gasRevert | gasMLoad | gasMStore8 | gasMStore | gasCreate =>
    exact onMachine_steadyStack (memoryGasCost_keepsStack _)
  all_goals exact onMachine_steadyStack (memoryWordGas_keepsStack _ _ _)

end Preorder

/-! ## The cost is positive -/

theorem noOverflow_yields_safeAdd (x y : UInt64) :
    Yields (fun z : UInt64 => z.toNat = x.toNat + y.toNat) (noOverflow (safeAdd x y)) :=
  .ite (fun _ => .throw _) fun h => .pure (toNat_safeAdd (Bool.not_eq_true _ ▸ h))

theorem yields_onMachine {P : α → Prop} {m : MachineM α} (h : Yields P m) : Yields P (onMachine m : ExecM σ α) := by
  intro f
  rw [onMachine, wp_zoom]
  exact h f.machine

abbrev Costs {S E F : Type} (m : Prog S E F UInt64) : Prop := Yields (fun cost => 0 < cost.toNat) m

def GasFunc.positive : GasFunc → Bool
  | gasSStore | gasSStoreEIP2200 | makeGasLog _ | gasExpFrontier | gasExpEIP158 => true
  | _ => false

theorem makeGasLog_pos (n memorySize : UInt64) : Costs (makeGasLog n memorySize) := by
  refine .bind (.true _) fun _ _ => .bind (.true _) fun _ _ => .bind (.true _) fun gas _ =>
    .bind (noOverflow_yields_safeAdd _ _) fun gas' hgas' => .bind (noOverflow_yields_safeAdd _ _)
      fun gas'' hgas'' => .bind (.true _) fun dataGas _ => ?_
  have hlog : logGas.toNat = 375 := rfl
  intro m
  exact wp_mono (noOverflow_yields_safeAdd gas'' dataGas m) (fun cost _ hcost => by omega)
    (fun _ _ h => h) (fun _ h => h)

theorem gasExp_pos (expByte : UInt64) : Costs (gasExp expByte) := by
  refine .bind (.true _) fun exponent _ m => ?_
  have hexp : expGas.toNat = 10 := rfl
  exact wp_mono (noOverflow_yields_safeAdd _ _ m) (fun cost _ hcost => by omega) (fun _ _ h => h)
    (fun _ h => h)

theorem netSStoreGas_pos {p : NetPrices} (hnoop : 0 < p.noop.toNat) (hinit : 0 < p.init.toNat)
    (hclean : 0 < p.clean.toNat) (hdirty : 0 < p.dirty.toNat) (slot current value : Hash) :
    Costs (netSStoreGas vm c p slot current value) :=
  .ite (fun _ => .pure hnoop) fun _ => .bind (.true _) fun _ _ =>
    .ite (fun _ => .ite (fun _ => .pure hinit) fun _ => .bind (.true _) fun _ _ => .pure hclean)
      fun _ => .bind (.true _) fun _ _ => .bind (.true _) fun _ _ => .pure hdirty

theorem gasSStore_pos : Costs (gasSStore vm c) :=
  .bind (.true _) fun _ _ => .bind (.true _) fun _ _ => .bind (.true _) fun _ _ =>
    .ite (fun _ => .ite (fun _ => .pure (by decide)) fun _ =>
        .ite (fun _ => .bind (.true _) fun _ _ => .pure (by decide)) fun _ => .pure (by decide))
      fun _ => netSStoreGas_pos (by decide) (by decide) (by decide) (by decide) _ _ _

theorem gasSStoreEIP2200_pos : Costs (gasSStoreEIP2200 vm c) :=
  .bind (.true _) fun _ _ => .ite (fun _ => .throw _) fun _ => .bind (.true _) fun _ _ =>
    .bind (.true _) fun _ _ => .bind (.true _) fun _ _ =>
      netSStoreGas_pos (by decide) (by decide) (by decide) (by decide) _ _ _

theorem GasFunc.run_pos (g : GasFunc) (memorySize : UInt64) (hg : g.positive = true) :
    Costs (g.run vm c memorySize) := by
  cases g
  case gasSStore => exact gasSStore_pos
  case gasSStoreEIP2200 => exact gasSStoreEIP2200_pos
  case makeGasLog n => exact yields_onMachine (makeGasLog_pos n _)
  case gasExpFrontier => exact yields_onMachine (gasExp_pos _)
  case gasExpEIP158 => exact yields_onMachine (gasExp_pos _)
  all_goals cases hg

end Web3.Vm
