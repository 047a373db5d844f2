import Web3.Vm.Relations
import Web3.Vm.Termination

/-! # Static calls

While the flag for static calls is set, nothing is written: an operation that writes is refused, and so
is a call that transfers value. What is left of a call are transfers of nothing, and a snapshot that the
database is taken back to. `Static D` says this of a database whose methods keep `D` when they do no
more than that. -/

namespace Web3.Vm
open Storage (U256)
open Prog ExecM

variable {σ α : Type} {D : σ → σ → Prop} {p : Prop} {vm : Evm σ} {c : Contract}

/-! ## Calls -/

/-- What a static call does with the database keeps `D`. -/
structure StateDB.StaticKeeps (db : StateDB σ) (D : σ → σ → Prop) : Prop extends db.ReadsKeep D where
  createAccount (a : Address) : DbKeeps D (db.createAccount a)
  addBalance (a : Address) : DbKeeps D (db.addBalance a 0)
  subBalance (a : Address) : DbKeeps D (db.subBalance a 0)
  snapshot (s : σ) : wp db.snapshot (fun id t => D s t ∧ ∀ u, D t u →
    wp (db.revertToSnapshot id) (fun _ v => D s v) (fun _ _ => True) (fun _ => True) u)
    (fun _ _ => True) (fun _ => True) s

/-- The flag and, up to `D`, the database are as before, if the flag was set or need not be. -/
def Static (D : σ → σ → Prop) (p : Prop) (i i' : Interp σ) : Prop :=
  (p → i.readOnly = true) → i'.readOnly = i.readOnly ∧ D i.db i'.db

instance [IsPreorder σ D] : IsPreorder (Interp σ) (Static D p) where
  refl i _ := ⟨rfl, refl_of D _⟩
  trans i i' i'' h h' hi := by
    obtain ⟨hflag, hD⟩ := h hi
    obtain ⟨hflag', hD'⟩ := h' (hflag ▸ hi)
    exact ⟨hflag'.trans hflag, trans_of D hD hD'⟩

abbrev KeepsStatic (D : σ → σ → Prop) (p : Prop) (m : EvmM σ α) : Prop :=
  Keeps (Static D p) (fun _ => True) m

def RunStatic (D : σ → σ → Prop) (run : RunFn σ) : Prop :=
  ∀ (p : Prop) c input readOnly gas, p ∨ readOnly = true → KeepsStatic D p (run c input readOnly gas)

theorem onDb_static {m : DbM σ α} (h : DbKeeps D m) : KeepsStatic D p (EvmM.onDb m) := by
  intro i
  rw [EvmM.onDb, wp_zoom]
  exact wp_mono (h i.db) (fun _ _ hD _ => ⟨rfl, hD⟩) (fun _ _ hD _ => ⟨rfl, hD⟩) (fun _ _ => trivial)

section Calls
variable [IsPreorder σ D] (hdb : vm.StateDB.StaticKeeps D)
include hdb

theorem StateDB.StaticKeeps.rules : CallRules vm (Static D p) where
  same i i' hi hflag _ := ⟨hflag, hi ▸ refl_of D _⟩
  canTransfer a n := onDb_static (.bind (hdb.getBalance a) fun _ => .pure _)
  exist a := onDb_static (hdb.exist a)
  createAccount a := onDb_static (hdb.createAccount a)
  snapshot i := by
    rw [EvmM.onDb, wp_zoom]
    refine wp_mono (hdb.snapshot i.db) (fun id d hd => ⟨fun _ => ⟨rfl, hd.1⟩, fun u hu => ?_⟩) (fun e => e.elim)
      (fun _ _ => trivial)
    by_cases hi : p → i.readOnly = true
    · obtain ⟨hflag, hD⟩ := hu hi
      rw [EndsRel, EvmM.onDb, wp_zoom]
      exact wp_mono (hd.2 u.db hD) (fun _ v hv _ => ⟨hflag, hv⟩) (fun e => e.elim) (fun _ _ => trivial)
    · exact wp_of_forall (fun _ _ h => absurd h hi) (fun _ _ h => absurd h hi) (fun _ => trivial)

variable {run : RunFn σ} (hrun : RunStatic D run)
include hrun

theorem runCode_static {contract : EvmM σ Contract} (hcontract : KeepsStatic D p contract) (addr : Address)
    (input : Bytes) {readOnly : Bool} (gas : UInt64) (hp : p ∨ readOnly = true) :
    KeepsStatic D p (vm.runCode run contract addr input readOnly gas) := by
  rw [Evm.runCode]
  cases vm.precompile addr with
  | some p' => exact runPrecompiledContract_keeps hdb.rules p' input gas
  | none =>
    exact .bind hcontract fun _ => .bind (onDb_static (hdb.getCodeHash _)) fun _ =>
      .bind (onDb_static (hdb.getCode _)) fun _ => .bind (hrun p _ _ _ _ hp) fun _ => .pure _

variable (caller : ContractRef) (addr : Address) (input : Bytes) (gas : UInt64)

theorem runCalled_static
    (value : ℤ) : KeepsStatic D True (vm.runCalled run caller addr input gas value) := by
  rw [Evm.runCalled]
  cases vm.precompile addr with
  | some p' => exact runPrecompiledContract_keeps hdb.rules p' input gas
  | none =>
    exact .bind (onDb_static (hdb.getCode _)) fun _ => .ite (fun _ => .pure _) fun _ =>
      .bind (newContract_keeps hdb.rules _ _ _) fun _ => .bind (onDb_static (hdb.getCodeHash _)) fun _ =>
        .bind (hrun True _ _ _ _ (.inl trivial)) fun _ => .pure _

theorem call_static : KeepsStatic D True (vm.call run caller addr input gas 0) :=
  call_keeps hdb.rules (onDb_static (.bind (hdb.subBalance _) fun _ => hdb.addBalance _))
    (runCalled_static hdb hrun caller addr input gas 0)

theorem callCode_static (value : ℤ) : KeepsStatic D True (vm.callCode run caller addr input gas value) :=
  callCode_keeps hdb.rules
    (runCode_static hdb hrun (newContract_keeps hdb.rules _ _ _) addr input gas (.inl trivial))

theorem delegateCall_static : KeepsStatic D True (vm.delegateCall run caller addr input gas) :=
  delegateCall_keeps hdb.rules (runCode_static hdb hrun
    (.bind (newContract_keeps hdb.rules _ _ _) fun _ => asDelegate_keeps _ _) addr input gas (.inl trivial))

theorem staticCall_static (p : Prop) (caller : ContractRef) (addr : Address) (input : Bytes) (gas : UInt64) :
    KeepsStatic D p (vm.staticCall run caller addr input gas) :=
  staticCall_keeps hdb.rules (onDb_static (hdb.addBalance addr))
    (runCode_static hdb hrun (newContract_keeps hdb.rules _ _ _) addr input gas (.inr rfl))

end Calls

/-! ## Turns and runs -/

abbrev FrameStatic (D : σ → σ → Prop) : Frame σ → Frame σ → Prop := FrameRel (Static D True)

variable {f : Frame σ}

theorem Steady.frameStatic {f' : Frame σ} (h : Steady D f f') : FrameStatic D f f' :=
  fun _ => ⟨h.readOnly, h.db⟩

section Turns
variable [IsPreorder σ D]

variable (hdb : vm.StateDB.StaticKeeps D) {run : RunFn σ} (hrun : RunStatic D run)
include hdb hrun

theorem execute_frameStatic {code : OpCode} {o : Operation} (ho : o.Guarded code) (hwrites : o.writes = false)
    (hvalue : code = OpCode.CALL → transfersValue f.machine.stack = false) :
    wp (o.execute.run vm run c) (fun _ f' => FrameStatic D f f') (fun _ f' => FrameStatic D f f')
      (fun _ => True) f := by
  obtain ⟨hexecute, hcreate, hcreate2⟩ := ho.execute hwrites
  cases hcall : o.execute.isCall with
  | false =>
    refine wp_mono (o.execute.run_steady hdb.toReadsKeep run hcall (fun h => ?_) f)
      (fun _ _ h => h.frameStatic) (fun _ _ h => h.frameStatic) (fun _ _ => trivial)
    exact absurd h (hexecute ▸ Bool.false_ne_true)
  | true =>
    have hcode := ho.call
    cases he : o.execute <;> rw [he] at hcall hcode hcreate hcreate2
    case opCall =>
      refine callOp_keeps hdb.rules (P := fun value => value = 0) (fun addr input gas value h => ?_)
        fun value h => ?_
      · rw [h]
        exact call_static hdb hrun c.ref addr input gas
      · have hnone := hvalue (hcode rfl)
        rw [transfersValue, h rfl, Option.any_some, decide_eq_false_iff_not, not_not] at hnone
        exact hnone
    case opCallCode =>
      exact callOp_keeps hdb.rules (P := fun _ => True)
        (fun addr input gas value _ => callCode_static hdb hrun c.ref addr input gas _) fun _ _ => trivial
    case opDelegateCall =>
      change wp (callOp false fun addr input gas _ => vm.delegateCall run c.ref addr input gas) _ _ _ f
      exact callOp_keeps hdb.rules (P := fun _ => True)
        (fun addr input gas _ _ => delegateCall_static hdb hrun c.ref addr input gas) fun _ _ => trivial
    case opStaticCall =>
      change wp (callOp false fun addr input gas _ => vm.staticCall run c.ref addr input gas) _ _ _ f
      exact callOp_keeps hdb.rules (P := fun _ => True)
        (fun addr input gas _ _ => staticCall_static hdb hrun True c.ref addr input gas) fun _ _ => trivial
    case opCreate => exact absurd rfl hcreate
    case opCreate2 => exact absurd rfl hcreate2
    all_goals cases hcall

variable {jt : JumpTable} (hjt : ∀ code o, jt.lookup code = some o → o.Guarded code)
  (hbyzantium : vm.chainRules.IsByzantium = true)
include hjt hbyzantium

theorem iteration_frameStatic : KeepsFrameRel (Static D True) (iteration vm jt run c) := by
  intro f
  by_cases hflag : f.interp.readOnly = true
  · rw [iteration, wp_bind, wp_onMachine, wp_read]
    dsimp only
    cases ho : jt.lookup (c.getOp f.machine.pc) with
    | none => exact refl_of (FrameStatic D) f
    | some o =>
      have hguard := hjt _ o ho
      rw [wp_bind]
      refine wp_mono (permit_spec _ o f) (fun _ f₁ h => ?_) (fun _ f₁ h => h ▸ refl_of (FrameStatic D) f)
        (fun _ _ => trivial)
      obtain ⟨hf₁, hpermit⟩ := h
      obtain ⟨hwrites, hvalue⟩ := hpermit hflag hbyzantium
      have hdyn : o.dynamicGas.any GasFunc.writes = true → vm.StateDB.WritesKeep D := fun h =>
        absurd h (hguard.dynamicGas hwrites ▸ Bool.false_ne_true)
      rw [hf₁, wp_bind]
      refine wp_mono (charge_spec hdb.toReadsKeep hdyn f) (fun _ f₁ h => ?_)
        (fun _ _ h _ => ⟨h.readOnly, h.db⟩) (fun _ _ => trivial)
      have hcharged : FrameStatic D f f₁ := fun _ => ⟨h.readOnly, h.db⟩
      have hexecute := execute_frameStatic (c := c) hdb hrun hguard hwrites (h.stack ▸ hvalue)
      refine wp_mono (wp_perform hexecute (fun _ _ _ h => h) fun _ _ h => h)
        (fun _ _ h => trans_of _ hcharged h.1) (fun _ _ h => trans_of _ hcharged h) (fun _ _ => trivial)
  · exact wp_of_forall (fun _ _ h => absurd (h trivial) hflag) (fun _ _ h => absurd (h trivial) hflag)
      (fun _ => trivial)

end Turns

theorem runWith_static [IsPreorder σ D] {turn : Contract → ExecM σ (Option Halt)} {n : ℕ}
    (hturn : ∀ c gas, KeepsStatic D True (inFrame gas (loop (turn c) n))) : RunStatic D (runWith turn n) := by
  intro p c input readOnly gas hp i
  by_cases hi : p → i.readOnly = true
  · have hbody : KeepsStatic D True (if c.Code.length = 0 then pure { ret := [], err := none, gas }
        else inFrame gas (loop (turn { c with Input := input }) n)) :=
      .ite (fun _ => .pure _) fun _ => hturn _ gas
    simp only [runWith, wp_bind, wp_modify, wp_read, wp_when, Bool.and_eq_true, Bool.not_eq_true']
    refine ⟨fun hsets => ?_, fun hsets => ?_⟩
    · refine wp_mono (hbody _) (fun r i' h => ?_) (fun e => e.elim) (fun _ _ => trivial)
      obtain ⟨-, hD⟩ := h fun _ => rfl
      simp only [wp_bind, wp_modify, wp_when, wp_pure, Bool.and_eq_true, Bool.not_eq_true']
      exact ⟨fun _ _ => ⟨hsets.2.symm, hD⟩, fun h => absurd hsets h⟩
    · have hflag : i.readOnly = true := by
        rcases hp with hp | hp
        · exact hi hp
        · exact Bool.eq_true_of_not_eq_false fun h => hsets ⟨hp, h⟩
      refine wp_mono (hbody _) (fun r i' h => ?_) (fun e => e.elim) (fun _ _ => trivial)
      simp only [wp_bind, wp_modify, wp_when, wp_pure, Bool.and_eq_true, Bool.not_eq_true']
      exact ⟨fun h => absurd h hsets, fun _ _ => h fun _ => hflag⟩
  · exact wp_of_forall (fun _ _ h => absurd h hi) (fun _ _ h => absurd h hi) (fun _ => trivial)

theorem run_static [IsPreorder σ D] (hdb : vm.StateDB.StaticKeeps D) {jt : JumpTable}
    (hjt : ∀ code o, jt.lookup code = some o → o.Guarded code)
    (hbyzantium : vm.chainRules.IsByzantium = true) (fuel : ℕ) : RunStatic D (run vm jt fuel) := by
  induction fuel with
  | zero => exact fun _ _ _ _ _ _ => .halt trivial
  | succ fuel ih => exact runWith_static fun c gas => inFrame_keeps (loop_keeps (iteration_frameStatic hdb ih hjt hbyzantium) _)

/-! ## On maps -/

namespace MapDB

/-- The same maps, and no snapshot is lost. -/
def Same (d d' : MapDB) : Prop := d'.current = d.current ∧ d.saved <+: d'.saved

instance : IsPreorder MapDB Same where
  refl _ := ⟨rfl, List.prefix_rfl⟩
  trans _ _ _ h h' := ⟨h'.1.trans h.1, h.2.trans h'.2⟩

theorem updateAccount_keeps {addr : Address} {u : MapAccount → MapAccount} (hu : ∀ a, u a = a) :
    DbKeeps Same (updateAccount addr u) := by
  intro d
  have hsame : { d.current with account := Function.update d.current.account addr (u (d.current.account addr)) } =
      d.current := by rw [hu, Function.update_eq_self]
  exact ⟨hsame, List.prefix_rfl⟩

theorem staticKeeps (keccak256 : Bytes → Hash) : (mapDB keccak256).StaticKeeps Same where
  getBalance _ := (fun d => refl_of Same d)
  getNonce _ := (fun d => refl_of Same d)
  getCodeHash _ := (fun d => refl_of Same d)
  getCode _ := (fun d => refl_of Same d)
  getCodeSize _ := (fun d => refl_of Same d)
  getCommittedState _ _ := (fun d => refl_of Same d)
  getState _ _ := (fun d => refl_of Same d)
  hasSuicided _ := (fun d => refl_of Same d)
  exist _ := (fun d => refl_of Same d)
  empty _ := (fun d => refl_of Same d)
  addPreimage _ _ := .pure _
  createAccount _ := .pure _
  addBalance addr := by
    change DbKeeps Same (updateAccount addr fun a => { a with Balance := a.Balance + U256.fromBig 0 })
    exact updateAccount_keeps fun a => by simp [U256.fromBig]
  subBalance addr := by
    change DbKeeps Same (updateAccount addr fun a => { a with Balance := a.Balance - U256.fromBig 0 })
    exact updateAccount_keeps fun a => by simp [U256.fromBig]
  snapshot s := by
    refine ⟨⟨rfl, List.prefix_append _ _⟩, fun u hu => ?_⟩
    have hrestore : u.restore s.saved.length = some s := Checkpointed.restore_of_prefix hu.2
    change wp (revertToSnapshot s.saved.length) _ _ _ u
    rw [wp, revertToSnapshot, hrestore]
    exact refl_of Same s

def answer {α : Type} (m : DbM MapDB α) (d : MapDB) : Option α := (m d).result.map Prod.fst

/-- The reads of the database answer as before. -/
structure SameReads (db : StateDB MapDB) (d d' : MapDB) : Prop where
  getState (a : Address) (k : Hash) : answer (db.getState a k) d' = answer (db.getState a k) d
  getNonce (a : Address) : answer (db.getNonce a) d' = answer (db.getNonce a) d
  getCode (a : Address) : answer (db.getCode a) d' = answer (db.getCode a) d
  getBalance (a : Address) : answer (db.getBalance a) d' = answer (db.getBalance a) d
  hasSuicided (a : Address) : answer (db.HasSuicided a) d' = answer (db.HasSuicided a) d
  getRefund : answer db.getRefund d' = answer db.getRefund d
  getLogs : d'.current.logs = d.current.logs

theorem Same.sameReads {keccak256 : Bytes → Hash} {d d' : MapDB} (h : Same d d') :
    SameReads (mapDB keccak256) d d' := by
  obtain ⟨m, saved⟩ := d
  obtain ⟨m', saved'⟩ := d'
  obtain ⟨rfl, -⟩ := h
  constructor <;> intros <;> rfl

end MapDB

/-- A static call of an EVM on maps ends, and leaves all that can be read as it was, and the flag. -/
theorem staticCall_changes_nothing (vm : Evm MapDB) {keccak256 : Bytes → Hash}
    (hdb : vm.StateDB = mapDB keccak256) (hbyzantium : vm.chainRules.IsByzantium = true)
    {ExtraEips : List ℤ} {jt : JumpTable} (hjt : newEVMInterpreter vm.chainRules ExtraEips = .ok jt)
    (caller : ContractRef) (addr : Address) (input : Bytes) (gas : UInt64) {fuel : ℕ}
    (hfuel : gas.toNat < fuel) (i : Interp MapDB) :
    vm.staticCall (run vm jt fuel) caller addr input gas i ≠ .stop .outOfFuel ∧
    ∀ r i', vm.staticCall (run vm jt fuel) caller addr input gas i = .ok r i' →
      MapDB.SameReads vm.StateDB i.db i'.db ∧ i'.readOnly = i.readOnly := by
  have hkeeps : vm.StateDB.StaticKeeps MapDB.Same := hdb ▸ MapDB.staticKeeps keccak256
  have hrun := run_static hkeeps (fun _ _ => newEVMInterpreter_guarded hjt) hbyzantium fuel
  have hstatic := staticCall_static hkeeps hrun False caller addr input gas i
  have hrunBounded : RunBounded fuel (run vm jt fuel) := run_bounded (newEVMInterpreter_wellPriced hjt) fuel
  have hbounded : GasBounded CallResult.gas gas (vm.staticCall (run vm jt fuel) caller addr input gas) :=
    staticCall_bounded hrunBounded hfuel caller addr input
  refine ⟨fun hstop => ?_, fun r i' hok => ?_⟩
  · exact wp_stop (hbounded i) hstop rfl
  · obtain ⟨hflag, hsame⟩ := wp_ok hstatic hok False.elim
    exact ⟨hdb ▸ hsame.sameReads, hflag⟩

def storeOne : Bytes := [0x60, 0x01, 0x60, 0x00, 0x55]

theorem staticCall_changes_nothing_storeOne :
    sampleEvm.staticCall (run sampleEvm istanbulRules.instructionSet.table 50001)
      (.account (sampleAddress 1)) (sampleAddress 3) [] 50000 (sampleInterp storeOne) ≠ .stop .outOfFuel ∧
    ∀ r i', sampleEvm.staticCall (run sampleEvm istanbulRules.instructionSet.table 50001)
        (.account (sampleAddress 1)) (sampleAddress 3) [] 50000 (sampleInterp storeOne) = .ok r i' →
      MapDB.SameReads sampleEvm.StateDB (sampleInterp storeOne).db i'.db ∧
        i'.readOnly = (sampleInterp storeOne).readOnly := by
  have hjt : newEVMInterpreter sampleEvm.chainRules [] = .ok istanbulRules.instructionSet.table := rfl
  have hfuel : (50000 : UInt64).toNat < 50001 := by decide
  exact staticCall_changes_nothing sampleEvm rfl rfl hjt (.account (sampleAddress 1)) (sampleAddress 3) []
    50000 hfuel (sampleInterp storeOne)

end Web3.Vm
