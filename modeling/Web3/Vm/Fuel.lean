import Web3.Vm.Interpreter

/-! # Fuel

A run with more fuel does what a run with less fuel does, unless that runs out of it. -/

namespace Web3.Vm
open Prog ExecM

variable {σ α : Type} {vm : Evm σ} {c : Contract}

abbrev UpToFuel {S E : Type} (m m' : Prog S E Stop α) : Prop := Below (· = .outOfFuel) m m'

def RunUpToFuel (run run' : RunFn σ) : Prop :=
  ∀ c input readOnly gas, UpToFuel (run c input readOnly gas) (run' c input readOnly gas)

section Calls
variable {run run' : RunFn σ} (h : RunUpToFuel run run')
include h

omit h in
theorem withinLimits_upToFuel {gas : UInt64} {body body' : EvmM σ CallResult} (h : UpToFuel body body') :
    UpToFuel (vm.withinLimits gas body) (vm.withinLimits gas body') :=
  .after fun _ => .ite (.refl _) (.ite (.refl _) h)

theorem runCode_upToFuel (contract : EvmM σ Contract) (addr : Address) (input : Bytes) (readOnly : Bool)
    (gas : UInt64) :
    UpToFuel (vm.runCode run contract addr input readOnly gas) (vm.runCode run' contract addr input readOnly gas) := by
  unfold Evm.runCode
  cases vm.precompile addr with
  | some p => exact .refl _
  | none =>
    exact .after fun _ => .after fun _ => .after fun _ => .before (h _ _ _ _)

variable (caller : ContractRef) (addr : Address) (input : Bytes) (gas : UInt64)

theorem runCalled_upToFuel (value : ℤ) :
    UpToFuel (vm.runCalled run caller addr input gas value) (vm.runCalled run' caller addr input gas value) := by
  unfold Evm.runCalled
  cases vm.precompile addr with
  | some p => exact .refl _
  | none =>
    exact .after fun _ => .ite (.refl _) (.after fun _ => .after fun _ => .before (h _ _ _ _))

theorem call_upToFuel (value : ℤ) :
    UpToFuel (vm.call run caller addr input gas value) (vm.call run' caller addr input gas value) :=
  withinLimits_upToFuel (.after fun _ => .ite (.refl _) (.after fun _ =>
    .after fun _ => .ite (.refl _) (.after fun _ => .after fun _ => .before (runCalled_upToFuel h _ _ _ _ _))))

theorem callCode_upToFuel (value : ℤ) :
    UpToFuel (vm.callCode run caller addr input gas value) (vm.callCode run' caller addr input gas value) :=
  withinLimits_upToFuel (.after fun _ => .ite (.refl _) (.after fun _ => .before (runCode_upToFuel h _ _ _ _ _)))

theorem delegateCall_upToFuel :
    UpToFuel (vm.delegateCall run caller addr input gas) (vm.delegateCall run' caller addr input gas) :=
  withinLimits_upToFuel (.after fun _ => .before (runCode_upToFuel h _ _ _ _ _))

theorem staticCall_upToFuel :
    UpToFuel (vm.staticCall run caller addr input gas) (vm.staticCall run' caller addr input gas) :=
  withinLimits_upToFuel (.after fun _ => .after fun _ => .before (runCode_upToFuel h _ _ _ _ _))

theorem create_upToFuel (caller : ContractRef) (code : Bytes) (hash : Hash) (gas : UInt64) (value : ℤ)
    (address : Address) :
    UpToFuel (vm.create run caller code hash gas value address) (vm.create run' caller code hash gas value address) :=
  .after fun _ => .ite (.refl _) (.after fun _ => .ite (.refl _) (.after fun _ =>
    .after fun _ => .after fun _ => .after fun _ => .ite (.refl _)
      (.after fun _ => .after fun _ => .after fun _ => .after fun _ =>
        .after fun _ => .after fun _ => .ite (.refl _) (.before (h _ _ _ _)))))

/-! ## Instructions and runs -/

omit h in
theorem onEvm_upToFuel {m m' : EvmM σ α} (h : UpToFuel m m') : UpToFuel (onEvm m) (onEvm m') := .zoom h

omit h in
theorem callOp_upToFuel {withValue : Bool} {call call' : Address → Bytes → UInt64 → ℤ → EvmM σ CallResult}
    (h : ∀ addr input gas value, UpToFuel (call addr input gas value) (call' addr input gas value)) :
    UpToFuel (callOp withValue call) (callOp withValue call') :=
  .after fun _ => .after fun _ => .after fun _ => .after fun _ => .before (onEvm_upToFuel (h _ _ _ _))

theorem opCreate_upToFuel : UpToFuel (opCreate vm c run) (opCreate vm c run') :=
  .after fun _ => .after fun _ => .after fun _ => .after fun _ => .after fun _ => .after fun _ => .after fun _ =>
      .before (onEvm_upToFuel (.after fun _ => create_upToFuel h _ _ _ _ _ _))

theorem opCreate2_upToFuel : UpToFuel (opCreate2 vm c run) (opCreate2 vm c run') :=
  .after fun _ => .after fun _ => .after fun _ => .after fun _ =>
    .after fun _ => .after fun _ => .after fun _ => .after fun _ =>
      .before (onEvm_upToFuel (create_upToFuel h _ _ _ _ _ _))

theorem ExecutionFunc.run_upToFuel (f : ExecutionFunc) : UpToFuel (f.run vm run c) (f.run vm run' c) := by
  cases f
  case opCall => exact callOp_upToFuel fun addr input gas value => call_upToFuel h c.ref addr input gas value
  case opCallCode =>
    exact callOp_upToFuel fun addr input gas value => callCode_upToFuel h c.ref addr input gas value
  case opDelegateCall =>
    exact callOp_upToFuel fun addr input gas _ => delegateCall_upToFuel h c.ref addr input gas
  case opStaticCall =>
    exact callOp_upToFuel fun addr input gas _ => staticCall_upToFuel h c.ref addr input gas
  case opCreate => exact opCreate_upToFuel h
  case opCreate2 => exact opCreate2_upToFuel h
  all_goals exact .refl _

theorem iteration_upToFuel (jt : JumpTable) : UpToFuel (iteration vm jt run c) (iteration vm jt run' c) := by
  refine .after fun pc => ?_
  dsimp only
  cases jt.lookup (c.getOp pc) with
  | none => exact .refl _
  | some o =>
    exact .after fun _ => .after fun _ => .before (.attempt (o.execute.run_upToFuel h))

end Calls

theorem loop_upToFuel {turn turn' : ExecM σ (Option Halt)} (h : UpToFuel turn turn') {n n' : ℕ}
    (hn : n ≤ n') : UpToFuel (loop turn n) (loop turn' n') := by
  induction n generalizing n' with
  | zero => exact .halt rfl
  | succ n ih =>
    obtain ⟨n', rfl⟩ : ∃ k, n' = k + 1 := ⟨n' - 1, by omega⟩
    refine .bind h fun h => ?_
    cases h with
    | some h => exact .refl _
    | none => exact ih (Nat.le_of_succ_le_succ hn)

theorem inFrame_upToFuel {gas : UInt64} {m m' : ExecM σ Halt} (h : UpToFuel m m') :
    UpToFuel (inFrame gas m) (inFrame gas m') := by
  intro i
  rw [inFrame, inFrame]
  rcases h { machine := .init, Gas := gas, analysis := none, interp := i } with heq | ⟨f, hf, hstop⟩
  · exact .inl (by rw [heq])
  · exact .inr ⟨f, hf, by rw [hstop]⟩

theorem run_upToFuel (vm : Evm σ) (jt : JumpTable) {fuel fuel' : ℕ} (hle : fuel ≤ fuel') :
    RunUpToFuel (run vm jt fuel) (run vm jt fuel') := by
  induction fuel generalizing fuel' with
  | zero => exact fun _ _ _ _ => .halt rfl
  | succ fuel ih =>
    obtain ⟨fuel', rfl⟩ : ∃ k, fuel' = k + 1 := ⟨fuel' - 1, by omega⟩
    intro c input readOnly gas
    have hturn : UpToFuel (iteration vm jt (run vm jt fuel) { c with Input := input })
        (iteration vm jt (run vm jt fuel') { c with Input := input }) :=
      iteration_upToFuel (ih (Nat.le_of_succ_le_succ hle)) jt
    exact .after fun _ => .after fun _ => .after fun _ => .after fun _ =>
      .before (.ite (.refl _) (inFrame_upToFuel (loop_upToFuel hturn hle)))

end Web3.Vm
