import Web3.Vm.Fuel
import Web3.Vm.GasBounds
import Web3.Vm.MapDB
import Web3.Vm.Tables

/-! # Gas is a termination measure

In all instruction sets every turn of the interpreter's loop that goes on leaves less gas, with what
calls and creations give back counted in; so a run ends as soon as it has more fuel than gas. -/

namespace Web3.Vm
open Storage (U256)
open Prog ExecM

variable {σ : Type} {vm : Evm σ} {c : Contract}

/-! ## One turn of the loop -/

theorem readsKeep_any (db : StateDB σ) : db.ReadsKeep AnyDb := by
  have any {α : Type} (m : DbM σ α) : DbKeeps AnyDb m := fun _ =>
    wp_of_forall (fun _ _ => trivial) (fun _ _ => trivial) fun _ => trivial
  constructor <;> intros <;> exact any _

theorem writesKeep_any (db : StateDB σ) : db.WritesKeep AnyDb := by
  have any {α : Type} (m : DbM σ α) : DbKeeps AnyDb m := fun _ =>
    wp_of_forall (fun _ _ => trivial) (fun _ _ => trivial) fun _ => trivial
  constructor <;> intros <;> exact any _

/-- The gas is at most `bound`, and less if the run goes on. -/
structure Spent (bound : ℕ) (goesOn : Prop) (i : Interp σ) (f' : Frame σ) : Prop where
  le : f'.Gas.toNat ≤ bound
  lt : goesOn → f'.Gas.toNat < bound
  log : Logged GasOp.Safe i f'.interp

variable {p : Prop} {o : Operation} {f₀ : Frame σ} {jt : JumpTable}

theorem Spent.after {bound : ℕ} {i i' : Interp σ} {f' : Frame σ} (hlog : Logged GasOp.Safe i i')
    (h : Spent bound p i' f') : Spent bound p i f' :=
  ⟨h.le, h.lt, trans_of _ hlog h.log⟩

theorem EndsBelow.spent {α : Type} {bound : ℕ} {m : ExecM σ α} {f : Frame σ} (h : EndsBelow bound m f) :
    wp m (fun _ f' => Spent bound p f.interp f') (fun _ f' => Spent bound False f.interp f') Stop.IsPanic f :=
  wp_mono h (fun _ _ h => ⟨h.1.le, fun _ => h.1, h.2⟩) (fun _ _ h => ⟨h.1.le, nofun, h.2⟩) (fun _ h => h)

/-- What is left, with what is kept back for the callee and what was paid for a transfer of value. -/
theorem Charged.call_paid {D : σ → σ → Prop} (ho : o.WellPriced) {f : Frame σ}
    (h : Charged D o o.constantGas.toNat f₀ f) {g : GasFunc} (hg : g ∈ o.execute.gasFunc)
    (hcall : g.isCall = true) (hpos : 0 < o.constantGas.toNat) :
    f.Gas.toNat + f.interp.callGasTemp.toNat + g.surcharge f.machine.stack < f₀.Gas.toNat := by
  have hcost := h.cost
  have hreserved : f.reserved o = f.interp.callGasTemp.toNat + g.surcharge f.machine.stack := by
    simp [Frame.reserved, ho.gasFunc g hg, hcall]
  rw [hreserved] at hcost
  omega

section Turn
variable {n : ℕ} {run : RunFn σ} (hrun : RunBounded n run)
include hrun

section Creates
variable {f : Frame σ} {bound : ℕ} (hn : bound ≤ n) (hbound : bound ≤ 2 ^ 64) (h : f.Gas.toNat < bound)
include hn hbound h

omit hrun in
theorem subGas_create_endsBelow {create : UInt64 → EvmM σ Evm.CreateResult} {failed : Evm.CreateResult → Bool}
    (hcreate : ∀ gas : UInt64, gas.toNat < n → GasBounded Evm.CreateResult.gas gas (create gas)) :
    EndsBelow bound (do
      let gas ← onEvm (EvmM.subGas f.Gas (f.Gas / 64))
      let _ ← useGas gas
      let r ← onEvm (create gas)
      finishCreate (failed r) r) f := by
  refine .bind (wp_onEvm.mpr (wp_mono (subGas_bounded (div_64_le _) _) (fun gas interp hgas => ?_)
    (fun _ _ h => h) (fun _ h => h)))
  exact ⟨hgas.2, create_endsBelow (f := { f with interp }) hcreate hn hbound hgas.1 h⟩

theorem opCreate_endsBelow : EndsBelow bound (opCreate vm c run) f := by
  refine .afterMachine h fun value _ => ?_
  refine .afterMachine h fun offset _ => ?_
  refine .afterMachine h fun size _ => ?_
  refine .afterMachine h fun input machine => ?_
  have hcreate (gas : UInt64) (hgas : gas.toNat < n) : GasBounded Evm.CreateResult.gas gas
      (vm.Create run c.ref input gas (U256.toBig value)) := Create_bounded hrun hgas c.ref input _
  refine .bind ⟨.of_eq rfl, ?_⟩
  dsimp only
  cases vm.chainRules.IsEIP150 with
  | true => exact subGas_create_endsBelow (f := { f with machine }) hn hbound h hcreate
  | false => exact create_endsBelow (f := { f with machine }) hcreate hn hbound (UInt64.le_refl _) h

theorem opCreate2_endsBelow : EndsBelow bound (opCreate2 vm c run) f := by
  refine .afterMachine h fun endowment _ => ?_
  refine .afterMachine h fun offset _ => ?_
  refine .afterMachine h fun size _ => ?_
  refine .afterMachine h fun salt _ => ?_
  refine .afterMachine h fun input machine => ?_
  refine .bind ⟨.of_eq rfl, ?_⟩
  exact subGas_create_endsBelow (f := { f with machine }) hn hbound h fun gas hgas =>
    create2_bounded hrun hgas c.ref input _ _

end Creates

theorem execute_spent (ho : o.WellPriced) {f : Frame σ}
    (hcharged : Charged AnyDb o o.constantGas.toNat f₀ f) (hn : f₀.Gas.toNat ≤ n) :
    wp (o.execute.run vm run c) (fun _ f' => Spent f₀.Gas.toNat (o.halts = false ∧ o.reverts = false) f.interp f')
      (fun _ f' => Spent f₀.Gas.toNat False f.interp f') Stop.IsPanic f := by
  have hbound : f₀.Gas.toNat ≤ 2 ^ 64 := f₀.Gas.toNat_lt.le
  have hcost := hcharged.cost
  have hless (h : 0 < o.constantGas.toNat) : f.Gas.toNat < f₀.Gas.toNat := by omega
  cases hcall : o.execute.isCall with
  | false =>
    have hsteady := o.execute.run_steady (c := c) (readsKeep_any vm.StateDB) run hcall
      (fun _ => writesKeep_any _) f
    have hle : f.Gas.toNat ≤ f₀.Gas.toNat := by omega
    have hlt (hgo : o.halts = false ∧ o.reverts = false) : f.Gas.toNat < f₀.Gas.toNat := by
      rcases ho.positive with hconst | ⟨-, h | h | hpos⟩
      · exact hless (UInt64.lt_iff_toNat_lt.mp hconst)
      · exact absurd h (hgo.1 ▸ Bool.false_ne_true)
      · exact absurd h (hgo.2 ▸ Bool.false_ne_true)
      · exact hcharged.positive hpos
    exact wp_mono hsteady (fun _ _ h => ⟨h.Gas ▸ hle, fun hgo => h.Gas ▸ hlt hgo, .of_eq h.gasOps⟩)
      (fun _ _ h => ⟨h.Gas ▸ hle, nofun, .of_eq h.gasOps⟩) (fun _ h => h)
  | true =>
    refine EndsBelow.spent ?_
    have hconst : 0 < o.constantGas.toNat := by
      rcases ho.positive with hconst | ⟨h, -⟩
      · exact UInt64.lt_iff_toNat_lt.mp hconst
      · exact absurd (hcall.symm.trans h) nofun
    have hpaid {g : GasFunc} (hg : o.execute.gasFunc = some g) (h : g.isCall = true) :=
      hcharged.call_paid ho hg h hconst
    cases he : o.execute <;> rw [he] at hcall hpaid
    case opCall =>
      exact callOp_endsBelow (fun addr input _ value hgas => call_bounded hrun hgas c.ref addr input value)
        hn hbound (hpaid rfl rfl)
    case opCallCode =>
      exact callOp_endsBelow (fun addr input _ value hgas => callCode_bounded hrun hgas c.ref addr input value)
        hn hbound (hpaid rfl rfl)
    case opDelegateCall =>
      change EndsBelow _ (callOp false fun addr input gas _ => vm.delegateCall run c.ref addr input gas) f
      exact callOp_endsBelow (fun addr input _ _ hgas => delegateCall_bounded hrun hgas c.ref addr input)
        hn hbound (hpaid rfl rfl)
    case opStaticCall =>
      change EndsBelow _ (callOp false fun addr input gas _ => vm.staticCall run c.ref addr input gas) f
      exact callOp_endsBelow (fun addr input _ _ hgas => staticCall_bounded hrun hgas c.ref addr input)
        hn hbound (hpaid rfl rfl)
    case opCreate => exact opCreate_endsBelow hrun hn hbound (hless hconst)
    case opCreate2 => exact opCreate2_endsBelow hrun hn hbound (hless hconst)
    all_goals cases hcall

theorem perform_spent (ho : o.WellPriced) {f : Frame σ}
    (hcharged : Charged AnyDb o o.constantGas.toNat f₀ f) (hn : f₀.Gas.toNat ≤ n) :
    wp (perform vm run c o) (fun h f' => Spent f₀.Gas.toNat (h = none) f.interp f')
      (fun _ f' => Spent f₀.Gas.toNat False f.interp f') Stop.IsPanic f := by
  refine wp_mono (wp_perform (execute_spent hrun ho hcharged hn) (fun _ _ _ h => ⟨h.le, h.lt, h.log⟩)
    fun _ _ h => ⟨h.le, h.lt, h.log⟩) ?_ (fun _ _ h => h) (fun _ h => h)
  exact fun h f' hspent => ⟨hspent.1.le, fun hnone => hspent.1.lt (hspent.2 hnone), hspent.1.log⟩

theorem iteration_spent (hjt : jt.WellPriced) {f : Frame σ} (hn : f.Gas.toNat ≤ n) :
    wp (iteration vm jt run c) (fun h f' => Spent f.Gas.toNat (h = none) f.interp f')
      (fun _ f' => Spent f.Gas.toNat False f.interp f') Stop.IsPanic f := by
  have hsame : Spent f.Gas.toNat False f.interp f := ⟨le_rfl, nofun, refl_of _ _⟩
  rw [iteration, wp_bind, wp_onMachine, wp_read]
  dsimp only
  cases ho : jt.lookup (c.getOp f.machine.pc) with
  | none => exact hsame
  | some o =>
    rw [wp_bind]
    refine wp_mono (permit_spec _ o f) ?_ (fun _ _ h => h ▸ hsame) (fun _ h => h)
    rintro - f₁ ⟨hf₁, -⟩
    rw [hf₁, wp_bind]
    refine wp_mono (charge_spec (readsKeep_any _) (fun _ => writesKeep_any _) _) (fun _ f' h => ?_)
      (fun _ _ h => ⟨h.Gas, nofun, h.safe⟩) (fun _ h => h)
    exact wp_mono (perform_spent hrun (hjt _ o ho) h hn) (fun _ _ => .after h.exact.safe)
      (fun _ _ => .after h.exact.safe) (fun _ h => h)

theorem loop_spent (hjt : jt.WellPriced) {k : ℕ} {f : Frame σ} (hk : f.Gas.toNat < k) (hn : f.Gas.toNat ≤ n) :
    wp (loop (iteration vm jt run c) k) (fun _ f' => Spent f.Gas.toNat False f.interp f')
      (fun _ f' => Spent f.Gas.toNat False f.interp f') Stop.IsPanic f := by
  induction k generalizing f with
  | zero => exact absurd hk (Nat.not_lt_zero _)
  | succ k ih =>
    rw [loop, wp_bind]
    refine wp_mono (iteration_spent hrun hjt hn) (fun h f' hspent => ?_) (fun _ _ h => h) (fun _ h => h)
    cases h with
    | some h => exact ⟨hspent.le, nofun, hspent.log⟩
    | none =>
      have hlt := hspent.lt rfl
      have hafter {f'' : Frame σ} (h : Spent f'.Gas.toNat False f'.interp f'') : Spent f.Gas.toNat False f.interp f'' :=
        ⟨h.le.trans hspent.le, nofun, trans_of _ hspent.log h.log⟩
      exact wp_mono (ih (by omega) (by omega)) (fun _ _ => hafter) (fun _ _ => hafter) (fun _ h => h)

end Turn

theorem run_bounded (hjt : jt.WellPriced) (fuel : ℕ) : RunBounded fuel (run vm jt fuel) := by
  induction fuel with
  | zero => exact fun _ _ _ _ h => absurd h (Nat.not_lt_zero _)
  | succ fuel ih =>
    intro c input readOnly gas hgas
    refine .bind (fun _ => .of_eq rfl) fun _ => .bind (.read _) fun _ => .bind (.when fun _ _ => .of_eq rfl)
      fun _ => .bind (fun _ => .of_eq rfl) fun _ => .andThen (.early rfl
        fun i => ?_) fun r hr => .bind (.when fun _ _ => .of_eq rfl) fun _ => .bind (fun _ => .of_eq rfl)
          fun _ => .pure hr
    refine wp_inFrame.mpr (wp_mono (loop_spent ih hjt hgas (Nat.lt_succ_iff.mp hgas)) ?_ ?_ (fun _ h => h))
    · exact fun _ _ h => ⟨UInt64.le_iff_toNat_le.mpr h.le, h.log⟩
    · exact fun _ _ h => ⟨UInt64.le_iff_toNat_le.mpr h.le, h.log⟩

/-! ## Termination -/

theorem run_fuel_eq (hjt : jt.WellPriced) {fuel fuel' : ℕ} {gas : UInt64} (hfuel : gas.toNat < fuel)
    (hfuel' : gas.toNat < fuel') (c : Contract) (input : Bytes) (readOnly : Bool) (i : Interp σ) :
    run vm jt fuel' c input readOnly gas i = run vm jt fuel c input readOnly gas i := by
  have heq {more : ℕ} (hle : gas.toNat + 1 ≤ more) : run vm jt more c input readOnly gas i =
      run vm jt (gas.toNat + 1) c input readOnly gas i :=
    (run_upToFuel vm jt hle c input readOnly gas).eq_of_wp
      (run_bounded hjt (gas.toNat + 1) c input readOnly gas (Nat.lt_succ_self _) i)
  rw [heq hfuel, heq hfuel']

/-- Every turn of the loop that goes on leaves less gas, and no turn leaves more; a sum or difference of
amounts of gas never wraps around, and the difference in `callGas` does not if the charge goes through; a
run returns at most its gas, and it ends if there is more fuel than gas, in one way only. -/
theorem run_terminates (vm : Evm σ) {rules : Rules} {ExtraEips : List ℤ} {jt : JumpTable}
    (hjt : newEVMInterpreter rules ExtraEips = .ok jt) :
    (∀ (c : Contract) (fuel : ℕ) (f : Frame σ), f.Gas.toNat ≤ fuel → wp (iteration vm jt (run vm jt fuel) c)
        (fun h f' => f'.Gas ≤ f.Gas ∧ (h = none → f'.Gas < f.Gas) ∧ Logged GasOp.Safe f.interp f'.interp)
        (fun _ f' => f'.Gas ≤ f.Gas ∧ Logged GasOp.Safe f.interp f'.interp) (· ≠ .outOfFuel) f) ∧
    (∀ (c : Contract) (o : Operation) (f : Frame σ),
      wp (charge vm c o) (fun _ f' => Logged GasOp.Exact f.interp f'.interp)
        (fun _ f' => Logged GasOp.Safe f.interp f'.interp) (· ≠ .outOfFuel) f) ∧
    ∀ (c : Contract) (input : Bytes) (readOnly : Bool) (gas : UInt64) (i : Interp σ) (fuel : ℕ), gas.toNat < fuel →
      wp (run vm jt fuel c input readOnly gas) (fun r i' => r.gas ≤ gas ∧ Logged GasOp.Safe i i')
        (fun _ _ => True) (· ≠ .outOfFuel) i ∧
      ∀ fuel', gas.toNat < fuel' → run vm jt fuel' c input readOnly gas i = run vm jt fuel c input readOnly gas i := by
  have hpriced := newEVMInterpreter_wellPriced hjt
  refine ⟨fun c fuel f hfuel => ?_, fun c o f => ?_, fun c input readOnly gas i fuel hfuel => ⟨?_, ?_⟩⟩
  · refine wp_mono (iteration_spent (run_bounded hpriced fuel) hpriced hfuel) (fun _ _ h => ⟨?_, ?_, h.log⟩)
      (fun _ _ h => ⟨?_, h.log⟩) (fun _ h => h)
    · exact UInt64.le_iff_toNat_le.mpr h.le
    · exact fun hnone => UInt64.lt_iff_toNat_lt.mpr (h.lt hnone)
    · exact UInt64.le_iff_toNat_le.mpr h.le
  · exact wp_mono (charge_spec (readsKeep_any _) (fun _ => writesKeep_any _) f) (fun _ _ h => h.exact)
      (fun _ _ h => h.safe) (fun _ h => h)
  · exact run_bounded hpriced fuel c input readOnly gas hfuel i
  · exact fun fuel' hfuel' => run_fuel_eq hpriced hfuel hfuel' c input readOnly i

def jumpLoop : Bytes := [0x5b, 0x60, 0x00, 0x56]

theorem run_terminates_jumpLoop :
    wp (run sampleEvm istanbulRules.instructionSet.table 101 (sampleContract jumpLoop) [] false 100)
      (fun r i' => r.gas ≤ 100 ∧ Logged GasOp.Safe (sampleInterp jumpLoop) i') (fun _ _ => True)
      (· ≠ .outOfFuel) (sampleInterp jumpLoop) ∧
    ∀ fuel', (100 : UInt64).toNat < fuel' →
      run sampleEvm istanbulRules.instructionSet.table fuel' (sampleContract jumpLoop) [] false 100
        (sampleInterp jumpLoop) =
      run sampleEvm istanbulRules.instructionSet.table 101 (sampleContract jumpLoop) [] false 100
        (sampleInterp jumpLoop) := by
  have hjt : newEVMInterpreter istanbulRules [] = .ok istanbulRules.instructionSet.table := rfl
  have hgas : (100 : UInt64).toNat < 101 := by decide
  obtain ⟨-, -, hrun⟩ := run_terminates sampleEvm hjt
  exact hrun (sampleContract jumpLoop) [] false 100 (sampleInterp jumpLoop) 101 hgas

end Web3.Vm
