import Web3.Vm.MapDB
import Web3.Vm.Tables
import Web3.Vm.GasBounds

/-! # Return data

The input of a call is a part of the caller's memory, and a precompiled contract may return that very
slice. The result is written to memory before it is copied into the return data, so where the two regions
overlap the return data may differ from what the callee returned. -/

namespace Web3.Vm
open Storage (U256)
open Prog ExecM

variable {σ : Type} {vm : Evm σ} {run : RunFn σ} {c : Contract}

inductive CallKind where
  | call
  | callCode
  | delegateCall
  | staticCall

namespace CallKind

def func : CallKind → ExecutionFunc
  | call => .opCall
  | callCode => .opCallCode
  | delegateCall => .opDelegateCall
  | staticCall => .opStaticCall

def withValue : CallKind → Bool
  | call | callCode => true
  | delegateCall | staticCall => false

def method (vm : Evm σ) (run : RunFn σ) (c : Contract) : CallKind → Address → Bytes → UInt64 → ℤ → EvmM σ CallResult
  | call => vm.call run c.ref
  | callCode => vm.callCode run c.ref
  | delegateCall => fun addr input gas _ => vm.delegateCall run c.ref addr input gas
  | staticCall => fun addr input gas _ => vm.staticCall run c.ref addr input gas

theorem run_func (k : CallKind) : k.func.run vm run c = callOp k.withValue (k.method vm run c) := by
  cases k <;> rfl

end CallKind

/-! ## The tables -/

theorem callReturns_stable : StableUnderEIPs fun _ o => decide (o.execute.gasFunc.isSome → o.returns) where
  constantGas _ _ _ _ h := h
  dynamicGas _ h := h
  enable1344 := by decide +kernel
  enable1884 := by decide +kernel
  enable2315 := by decide +kernel

theorem InstructionSet.callReturns (set : InstructionSet) :
    set.table.Forall fun _ o => decide (o.execute.gasFunc.isSome → o.returns) := by
  cases set <;> decide +kernel

variable {o : Operation} {k : CallKind} {bs store : Bytes} {offset size n : ℕ} {m : Memory}
  {f : Frame σ}

theorem newEVMInterpreter_callReturns {rules : Rules} {ExtraEips : List ℤ} {jt : JumpTable}
    (h : newEVMInterpreter rules ExtraEips = .ok jt) {code : OpCode} (ho : jt.lookup code = some o)
    (hk : o.execute = k.func) : o.returns = true := by
  have hforall := JumpTable.newEVMInterpreter_forall callReturns_stable rules.instructionSet.callReturns h
  refine of_decide_eq_true (hforall.of_lookup ho) ?_
  rw [hk]
  cases k <;> rfl

/-! ## Callees that return their input -/

def Written (err : Option VmError) : Prop := err = none ∨ err = some .errExecutionReverted

/-- The precompiled contract gets the gas it requires and returns the slice that it was given. -/
def PrecompiledContract.Echoes (p : PrecompiledContract) (input : Bytes) (gas : UInt64) : Prop :=
  p.requiredGas input ≤ gas ∧ (p.run input).1 = .input ∧ Written (p.run input).2

def Echoed (r : CallResult) : Prop := r.ret = .input ∧ Written r.err

theorem not_echoed_fresh {gas : UInt64} {err : Option VmError} :
    ¬Echoed { ret := .fresh bs, gas, err } := fun h => nomatch h.1

def Evm.EchoesAt (vm : Evm σ) (addr : Address) (input : Bytes) (gas : UInt64) : Prop :=
  ∃ p, vm.precompile addr = some p ∧ p.Echoes input gas

def Evm.WithinLimits (vm : Evm σ) (i : Interp σ) : Prop :=
  ¬(vm.NoRecursion ∧ i.depth > 0) ∧ i.depth ≤ callCreateDepth

def Evm.HasBalance (vm : Evm σ) (addr : Address) (value : ℤ) (i : Interp σ) : Prop :=
  ∃ balance d, vm.StateDB.getBalance addr i.db = .ok balance d ∧ balance ≥ value

def CallKind.Reaches (vm : Evm σ) (c : Contract) (value : ℤ) (i : Interp σ) : CallKind → Prop
  | call => vm.WithinLimits i ∧ (value = 0 ∨ vm.HasBalance c.self value i)
  | callCode => vm.WithinLimits i ∧ vm.HasBalance c.self value i
  | delegateCall | staticCall => vm.WithinLimits i

section Echoed
variable {addr : Address} {input : Bytes} {gas : UInt64} {value : ℤ}

theorem runPrecompiledContract_echoed (p : PrecompiledContract) :
    Yields (fun r => Echoed r ↔ p.Echoes input gas) (Evm.runPrecompiledContract (σ := σ) p input gas) := by
  refine .ite (fun hless => .pure ?_) fun hle => .bind (.true _) fun left _ => .pure ?_
  · exact iff_of_false not_echoed_fresh fun h => UInt64.not_lt.mpr h.1 hless
  · exact ⟨fun h => ⟨UInt64.not_lt.mp hle, h⟩, fun h => h.2⟩

variable {P : Prop} {body : EvmM σ CallResult} {i : Interp σ}

theorem settleCall_echoed (id : ℤ) {r : CallResult} (h : Echoed r ↔ P) :
    Yields (fun r => Echoed r ↔ P) (vm.settleCall id r) := by
  obtain ⟨ret, left, err⟩ := r
  cases err with
  | none => exact .pure h
  | some e => exact .bind (.true _) fun _ _ => .pure h

theorem echoesAt_of_some {p : PrecompiledContract} (h : vm.precompile addr = some p) :
    vm.EchoesAt addr input gas ↔ p.Echoes input gas := by
  refine ⟨?_, fun hp => ⟨p, h, hp⟩⟩
  rintro ⟨p', hp', hechoes⟩
  rw [h] at hp'
  cases hp'
  exact hechoes

theorem not_echoesAt_of_none (h : vm.precompile addr = none) : ¬vm.EchoesAt addr input gas := by
  rintro ⟨p, hp, -⟩
  rw [h] at hp
  cases hp

theorem runCode_echoed (contract : EvmM σ Contract) (readOnly : Bool) :
    Yields (fun r => Echoed r ↔ vm.EchoesAt addr input gas) (vm.runCode run contract addr input readOnly gas) := by
  rw [Evm.runCode]
  cases hp : vm.precompile addr with
  | some p =>
    rw [echoesAt_of_some hp]
    exact runPrecompiledContract_echoed p
  | none =>
    refine .bind (.true _) fun _ _ => .bind (.true _) fun _ _ => .bind (.true _) fun _ _ =>
      .bind (.true _) fun _ _ => .pure ?_
    exact iff_of_false not_echoed_fresh (not_echoesAt_of_none hp)

theorem runCalled_echoed (caller : ContractRef) : Yields (fun r => Echoed r ↔ vm.EchoesAt addr input gas)
      (vm.runCalled run caller addr input gas value) := by
  rw [Evm.runCalled]
  cases hp : vm.precompile addr with
  | some p =>
    rw [echoesAt_of_some hp]
    exact runPrecompiledContract_echoed p
  | none =>
    have hfresh {bs : Bytes} {gas' : UInt64} {err : Option VmError} :
        Echoed { ret := .fresh bs, gas := gas', err } ↔ vm.EchoesAt addr input gas :=
      iff_of_false not_echoed_fresh (not_echoesAt_of_none hp)
    exact .bind (.true _) fun _ _ => .ite (fun _ => .pure hfresh) fun _ => .bind (.true _) fun _ _ =>
      .bind (.true _) fun _ _ => .bind (.true _) fun _ _ => .pure hfresh

theorem withinLimits_echoed
    (h : wp body (fun r _ => Echoed r ↔ P) (fun _ _ => True) (fun _ => True) i) :
    wp (vm.withinLimits gas body) (fun r _ => Echoed r ↔ vm.WithinLimits i ∧ P) (fun _ _ => True)
      (fun _ => True) i := by
  rw [Evm.withinLimits, wp_bind, wp_read, wp_ite, wp_ite]
  refine ⟨fun hrec => ?_, fun hrec => ⟨fun hdepth => ?_, fun hdepth => ?_⟩⟩
  · exact iff_of_false not_echoed_fresh fun h => h.1.1 hrec
  · exact iff_of_false not_echoed_fresh fun h => absurd h.1.2 (not_le.mpr hdepth)
  · have hlimits : vm.WithinLimits i := ⟨hrec, not_lt.mp hdepth⟩
    exact wp_mono h (fun r _ h => by rw [h, and_iff_right hlimits]) (fun _ _ h => h) (fun _ h => h)

theorem canTransfer_hasBalance (addr : Address) (value : ℤ) (i : Interp σ) :
    wp (EvmM.onDb (vm.StateDB.canTransfer addr value)) (fun enough _ => enough = true ↔ vm.HasBalance addr value i)
      (fun _ _ => True) (fun _ => True) i := by
  rw [EvmM.onDb, wp_zoom, StateDB.canTransfer, wp_bind]
  simp only [wp, Evm.HasBalance]
  cases h : vm.StateDB.getBalance addr i.db with
  | ok balance d => simp [pure]
  | error | stop => trivial

theorem settled_echoed (id : ℤ) (h : Yields (fun r => Echoed r ↔ P) body) :
    Yields (fun r => Echoed r ↔ P) (body >>= vm.settleCall id) :=
  .bind h fun _ hr => settleCall_echoed id hr

theorem enough_echoed {check : EvmM σ Bool} {rest : EvmM σ CallResult} {err : VmError} {B : Prop}
    (hcheck : wp check (fun enough _ => enough = true ↔ B) (fun _ _ => True) (fun _ => True) i)
    (hrest : Yields (fun r => Echoed r ↔ P) rest) :
    wp (do
      let enough ← check
      if !enough then return .empty gas (some err) else rest)
      (fun r _ => Echoed r ↔ B ∧ P) (fun _ _ => True) (fun _ => True) i := by
  rw [wp_bind]
  refine wp_mono hcheck (fun enough t henough => ?_) (fun _ _ h => h) (fun _ h => h)
  cases enough with
  | false => exact iff_of_false not_echoed_fresh fun h => Bool.false_ne_true (henough.mpr h.1)
  | true =>
    refine wp_mono (hrest t) (fun r _ hr => ?_) (fun _ _ h => h) (fun _ h => h)
    exact hr.trans (and_iff_right (henough.mp rfl)).symm

theorem method_echoed (k : CallKind) (i : Interp σ) : wp (k.method vm run c addr input gas value)
      (fun r _ => Echoed r ↔ k.Reaches vm c value i ∧ vm.EchoesAt addr input gas) (fun _ _ => True)
      (fun _ => True) i := by
  cases k with
  | call =>
    rw [CallKind.Reaches, and_assoc]
    refine withinLimits_echoed (enough_echoed ?_ ?_)
    · rw [wp_ite]
      refine ⟨fun h => iff_of_true rfl (.inl h), fun h => ?_⟩
      refine wp_mono (canTransfer_hasBalance c.self value i) (fun enough _ henough => ?_) (fun _ _ h => h)
        (fun _ h => h)
      rw [henough, or_iff_right h]
    · refine .bind (.true _) fun id _ => .bind (.true _) fun exist _ => .ite (fun hnone => .pure ?_) fun _ =>
        .bind (.true _) fun _ _ => .bind (.true _) fun _ _ => settled_echoed id (runCalled_echoed _)
      simp only [Bool.and_eq_true, Option.isNone_iff_eq_none] at hnone
      exact iff_of_false not_echoed_fresh (not_echoesAt_of_none hnone.1.1.2)
  | callCode =>
    rw [CallKind.Reaches, and_assoc]
    refine withinLimits_echoed (enough_echoed (canTransfer_hasBalance c.self value i) ?_)
    exact .bind (.true _) fun id _ => settled_echoed id (runCode_echoed _ _)
  | delegateCall =>
    exact withinLimits_echoed (Yields.bind (.true _) (fun id _ => settled_echoed id (runCode_echoed _ _)) i)
  | staticCall =>
    exact withinLimits_echoed (Yields.bind (.true _) (fun id _ => .bind (.true _) fun _ _ =>
      settled_echoed id (runCode_echoed _ _)) i)

end Echoed

/-! ## Writing a slice of the memory to the memory -/

theorem getElem?_overwrite (h : offset + bs.length ≤ store.length) (pos : ℕ) :
    (overwrite store offset bs)[pos]? =
      if offset ≤ pos ∧ pos < offset + bs.length then bs[pos - offset]? else store[pos]? := by
  have htake : (store.take offset).length = offset := by
    rw [List.length_take]
    omega
  unfold overwrite
  by_cases hlow : pos < offset
  · rw [if_neg (by omega), List.append_assoc, List.getElem?_append_left (by omega), List.getElem?_take_of_lt hlow]
  · by_cases hhigh : pos < offset + bs.length
    · rw [if_pos ⟨by omega, hhigh⟩, List.append_assoc, List.getElem?_append_right (by omega), htake,
        List.getElem?_append_left (by omega)]
    · rw [if_neg (by omega), List.getElem?_append_right (by simp; omega), List.length_append, htake,
        List.getElem?_drop]
      congr 1
      omega

theorem take_drop_eq_iff {store' : Bytes} :
    (store'.drop offset).take size = (store.drop offset).take size ↔
      ∀ pos, offset ≤ pos → pos < offset + size → store'[pos]? = store[pos]? := by
  rw [List.ext_getElem?_iff]
  simp only [List.getElem?_take, List.getElem?_drop]
  refine ⟨fun h pos hle hlt => ?_, fun h j => ?_⟩
  · have hj := h (pos - offset)
    rw [if_pos (by omega), if_pos (by omega), Nat.add_sub_cancel' hle] at hj
    exact hj
  · split
    · exact h _ (by omega) (by omega)
    · rfl

/-- Some byte of the slice is overwritten with a different one when the slice is written to `ret`. -/
def Clobbered (store : Bytes) (args : Slice) (ret size : ℕ) : Prop :=
  match args with
  | .own _ => False
  | .view offset n => ∃ pos, offset ≤ pos ∧ pos < offset + n ∧ ret ≤ pos ∧ pos < ret + min size n ∧
      store[offset + (pos - ret)]? ≠ store[pos]?

theorem overwrite_view_eq_iff {ret : ℕ} (hargs : offset + n ≤ store.length) (hret : ret + size ≤ store.length) :
    ((overwrite store ret (((store.drop offset).take n).take size)).drop offset).take n = (store.drop offset).take n ↔
      ¬Clobbered store (.view offset n) ret size := by
  set bs := ((store.drop offset).take n).take size with hbs
  have hlen : bs.length = min size n := by
    rw [hbs, List.length_take, List.length_take, List.length_drop]
    omega
  have hget {j : ℕ} (hj : j < min size n) : bs[j]? = store[offset + j]? := by
    rw [hbs, List.getElem?_take_of_lt (by omega), List.getElem?_take_of_lt (by omega), List.getElem?_drop]
  rw [take_drop_eq_iff]
  simp only [getElem?_overwrite (show ret + bs.length ≤ store.length by omega), hlen, Clobbered, not_exists,
    not_and, not_not]
  refine forall_congr' fun pos => imp_congr_right fun hlow => imp_congr_right fun hhigh => ?_
  by_cases hin : ret ≤ pos ∧ pos < ret + min size n
  · rw [if_pos hin, hget (by omega)]
    exact ⟨fun h _ _ => h, fun h => h hin.1 hin.2⟩
  · rw [if_neg hin]
    exact iff_of_true rfl fun h h' => absurd ⟨h, h'⟩ hin

theorem bytes_set_eq_iff {m' : Memory} {args : Slice} {ret size : UInt64}
    (hargs : ∀ offset n, args = .view offset n → offset + n ≤ m.len)
    (hset : m.set ret size (m.bytes args) = .ok m') :
    m'.bytes args = m.bytes args ↔ ¬Clobbered m.store args ret.toNat size.toNat := by
  cases args with
  | own bs => exact iff_of_true rfl nofun
  | view offset n =>
    have hlen : offset + n ≤ m.store.length := hargs offset n rfl
    unfold Memory.set at hset
    split_ifs at hset with hsize hfits hwraps <;> cases hset
    · have hsum : ret.toNat + size.toNat = (ret + size).toNat := by
        have := UInt64.toNat_add ret size
        have hle := UInt64.le_iff_toNat_le.mp (UInt64.not_lt.mp hwraps)
        have hlt := size.toNat_lt
        omega
      refine overwrite_view_eq_iff hlen ?_
      rw [hsum]
      exact not_lt.mp hfits
    · have hzero : size.toNat = 0 := Nat.eq_zero_of_not_pos fun h => hsize (UInt64.lt_iff_toNat_lt.mpr h)
      refine iff_of_true rfl ?_
      rintro ⟨pos, -, -, hlow, hhigh, -⟩
      omega

/-! ## The instruction -/

theorem getPtr_bound {offset size : ℤ} {o : ℕ} (h : m.getPtr offset size = .ok (.view o n)) : o + n ≤ m.len := by
  unfold Memory.getPtr at h
  split_ifs at h with hsize hlen hbounds <;> cases h
  omega

theorem ptr_bound (offset size : U256) (m : Machine) :
    wp (ptr offset size) (fun s m' => m'.memory = m.memory ∧ ∀ o n, s = .view o n → o + n ≤ m.memory.len)
      (fun _ _ => True) (fun _ => True) m := by
  simp only [wp, ptr, MachineM.onMemory]
  cases h : m.memory.getPtr (toInt (U256.uint64 offset)) (toInt (U256.uint64 size)) with
  | error e => trivial
  | ok s => exact ⟨rfl, fun o n hs => getPtr_bound (hs ▸ h)⟩

theorem popCall_args (withValue : Bool) (m : Machine) : wp (popCall withValue) (fun a m' => m'.memory = m.memory ∧
      ∀ offset n, a.args = .view offset n → offset + n ≤ m.memory.len) (fun _ _ => True) (fun _ => True) m := by
  refine wp_mono (popCall_spec withValue m) ?_ (fun _ _ h => h) (fun _ h => h)
  rintro a m' ⟨gas, addr, inOffset, inSize, rest, -, -, hptr⟩
  have hbound := ptr_bound inOffset inSize { m with stack := rest }
  rw [wp, hptr] at hbound
  exact hbound

theorem finishCall_spec (a : CallArgs) (r : CallResult) (m : Machine) :
    wp (finishCall a r) (fun s m' => s = a.result r.ret ∧
      (Written r.err → m.memory.set (U256.uint64 a.retOffset) (U256.uint64 a.retSize)
        (m.memory.bytes (a.result r.ret)) = .ok m'.memory) ∧
      (¬Written r.err → m'.memory = m.memory)) (fun _ _ => True) (fun _ => True) m := by
  rw [finishCall, wp_bind, MachineM.push, wp_modify, wp_bind, wp_when]
  refine ⟨fun h => ?_, fun h => ⟨rfl, fun h' => absurd h' h, fun _ => rfl⟩⟩
  simp only [wp, MachineM.updateMemory]
  cases hset : m.memory.set (U256.uint64 a.retOffset) (U256.uint64 a.retSize) (m.memory.bytes (a.result r.ret)) with
  | error e => trivial
  | ok memory => exact ⟨rfl, fun _ => rfl, fun h' => absurd h h'⟩

theorem finishCall_bytes {a : CallArgs} (r : CallResult) {m : Machine}
    (hargs : ∀ offset n, a.args = .view offset n → offset + n ≤ m.memory.len) :
    wp (finishCall a r) (fun s m' => m'.memory.bytes s = r.ret.bytes (m.memory.bytes a.args) ↔
      ¬(Echoed r ∧ Clobbered m.memory.store a.args (U256.uint64 a.retOffset).toNat (U256.uint64 a.retSize).toNat))
      (fun _ _ => True) (fun _ => True) m := by
  refine wp_mono (finishCall_spec a r m) (fun s m' h => ?_) (fun _ _ h => h) (fun _ h => h)
  obtain ⟨rfl, hwritten, hsame⟩ := h
  cases hret : r.ret with
  | fresh bs => exact iff_of_true rfl fun h => by simp [Echoed, hret] at h
  | input =>
    rw [hret] at hwritten
    by_cases herr : Written r.err
    · rw [and_iff_right (show Echoed r from ⟨hret, herr⟩)]
      exact bytes_set_eq_iff hargs (hwritten herr)
    · rw [hsame herr]
      exact iff_of_true rfl fun h => herr h.1.2

namespace CallKind

/-- The bytes that the callee returns, at the moment it returns. -/
def output (vm : Evm σ) (run : RunFn σ) (c : Contract) (k : CallKind) : ExecM σ Bytes := do
  let a ← onMachine (popCall k.withValue)
  let gas ← onEvm (.read Interp.callGasTemp)
  let gas ← (if a.value = 0 then pure gas else onEvm (EvmM.addGas gas callStipend))
  let input ← onMachine (.read fun m => m.memory.bytes a.args)
  let r ← onEvm (k.method vm run c a.toAddr input gas (U256.toBig a.value))
  return r.ret.bytes input

/-- The call reaches a precompiled contract that returns its input slice, and some byte of that slice is
then overwritten with a different one. -/
def Garbles (vm : Evm σ) (c : Contract) (f : Frame σ) (k : CallKind) : Prop :=
  ∃ a machine, popCall k.withValue f.machine = .ok a machine ∧ k.Reaches vm c (U256.toBig a.value) f.interp ∧
    vm.EchoesAt a.toAddr (f.machine.memory.bytes a.args)
      (if a.value = 0 then f.interp.callGasTemp else f.interp.callGasTemp + callStipend) ∧
    Clobbered f.machine.memory.store a.args (U256.uint64 a.retOffset).toNat (U256.uint64 a.retSize).toNat

theorem addGas_spec (x y : UInt64) (i : Interp σ) :
    wp (EvmM.addGas x y) (fun sum i' => sum = x + y ∧ i'.db = i.db ∧ i'.depth = i.depth) (fun _ _ => True)
      (fun _ => True) i := by
  rw [EvmM.addGas, wp_bind, wp_modify, wp_pure]
  exact ⟨rfl, rfl, rfl⟩

theorem reaches_congr {i i' : Interp σ} (hdb : i'.db = i.db) (hdepth : i'.depth = i.depth) (k : CallKind)
    (value : ℤ) : k.Reaches vm c value i' ↔ k.Reaches vm c value i := by
  cases k <;> simp only [Reaches, Evm.WithinLimits, Evm.HasBalance, hdb, hdepth]

theorem callOp_output {t : Frame σ} {ret : Slice} (h : callOp k.withValue (k.method vm run c) f = .ok ret t) :
    ∃ bs f₁, k.output vm run c f = .ok bs f₁ ∧ (t.machine.memory.bytes ret = bs ↔ ¬k.Garbles vm c f) := by
  obtain ⟨a, f₁, ha, h⟩ := bind_eq_ok.mp h
  obtain ⟨gas, f₂, hgas, h⟩ := bind_eq_ok.mp h
  obtain ⟨gas', f₃, hgas', h⟩ := bind_eq_ok.mp h
  obtain ⟨input, f₄, hinput, h⟩ := bind_eq_ok.mp h
  obtain ⟨r, f₅, hr, h⟩ := bind_eq_ok.mp h
  obtain ⟨ret', f₆, hret, h⟩ := bind_eq_ok.mp h
  obtain ⟨u, f₇, hreturn, h⟩ := bind_eq_ok.mp h
  refine ⟨r.ret.bytes input, f₅, ?_, ?_⟩
  · rw [output]
    simp only [bind_eq_ok]
    exact ⟨a, f₁, ha, gas, f₂, hgas, gas', f₃, hgas', input, f₄, hinput, r, f₅, hr, rfl⟩
  obtain ⟨m₁, hpop, rfl⟩ := zoom_eq_ok.mp ha
  obtain ⟨i₂, hread, rfl⟩ := zoom_eq_ok.mp hgas
  cases hread
  obtain ⟨hmemory, hargs⟩ := wp_ok (popCall_args k.withValue f.machine) hpop
  -- the stipend is added, and nothing else happens before the call
  obtain ⟨i₃, hf₃, hsame, hgas⟩ : ∃ i₃, f₃ = { f with machine := m₁, interp := i₃ } ∧
      (∀ value, k.Reaches vm c value i₃ ↔ k.Reaches vm c value f.interp) ∧
      gas' = if a.value = 0 then f.interp.callGasTemp else f.interp.callGasTemp + callStipend := by
    split_ifs at hgas' ⊢ with hvalue
    · cases hgas'
      exact ⟨f.interp, rfl, fun _ => Iff.rfl, rfl⟩
    · obtain ⟨i₃, hadd, rfl⟩ := zoom_eq_ok.mp hgas'
      obtain ⟨hsum, hdb, hdepth⟩ := wp_ok (addGas_spec _ _ _) hadd
      exact ⟨i₃, rfl, fun value => reaches_congr hdb hdepth k value, hsum⟩
  subst hf₃
  cases hinput
  obtain ⟨i₅, hmethod, rfl⟩ := zoom_eq_ok.mp hr
  obtain ⟨m₆, hfinish, rfl⟩ := zoom_eq_ok.mp hret
  cases hreturn
  cases h
  have hechoed := wp_ok (method_echoed k i₃) hmethod
  have hbytes := wp_ok (finishCall_bytes r fun offset n ho => hmemory ▸ hargs offset n ho) hfinish
  refine hbytes.trans (not_congr ?_)
  dsimp only at hechoed ⊢
  rw [hmemory, hgas] at hechoed
  rw [hmemory, hechoed, hsame, and_assoc]
  refine ⟨fun h => ⟨a, m₁, hpop, h⟩, ?_⟩
  rintro ⟨a', m', hpop', h⟩
  rw [hpop] at hpop'
  cases hpop'
  exact h

end CallKind

theorem perform_returnData (hreturns : o.returns = true) {f' : Frame σ} {h : Option Halt}
    (hperform : perform vm run c o f = .ok h f') :
    ∃ ret t, o.execute.run vm run c f = .ok ret t ∧ f'.interp.returnData = t.machine.memory.bytes ret := by
  have hspec : wp (perform vm run c o) (fun _ f' => ∃ ret t, o.execute.run vm run c f = .ok ret t ∧
      f'.interp.returnData = t.machine.memory.bytes ret) (fun _ _ => True) (fun _ => True) f := by
    rw [perform, wp_bind, wp_attempt, wp]
    cases hrun : o.execute.run vm run c f with
    | stop s => trivial
    | error e t => simp [hreturns]
    | ok ret t =>
      simp only [wp_bind, wp_onMachine, wp_read, wp_when, wp_onEvm, wp_modify, wp_ite, wp_pure,
        MachineM.setPc, hreturns, true_implies, not_true_eq_false, false_implies, and_true]
      exact ⟨fun _ => ⟨ret, t, rfl, rfl⟩, fun _ => ⟨fun _ => ⟨ret, t, rfl, rfl⟩,
        fun _ => ⟨fun _ => ⟨ret, t, rfl, rfl⟩, fun _ => ⟨ret, t, rfl, rfl⟩⟩⟩⟩
  exact wp_ok hspec hperform

/-- After a call instruction the return data is what the callee returned if and only if the call does not
garble it. -/
theorem returnData_eq_output_iff {rules : Rules} {ExtraEips : List ℤ} {jt : JumpTable}
    (hjt : newEVMInterpreter rules ExtraEips = .ok jt) {code : OpCode} {o : Operation}
    (ho : jt.lookup code = some o) {k : CallKind} (hk : o.execute = k.func) (vm : Evm σ) (run : RunFn σ)
    (c : Contract) {f f' : Frame σ} {h : Option Halt} (hperform : perform vm run c o f = .ok h f') :
    ∃ bs f₁, k.output vm run c f = .ok bs f₁ ∧ (f'.interp.returnData = bs ↔ ¬k.Garbles vm c f) := by
  obtain ⟨ret, t, hrun, hdata⟩ := perform_returnData (newEVMInterpreter_callReturns hjt ho hk) hperform
  rw [hk, k.run_func] at hrun
  rw [hdata]
  exact CallKind.callOp_output hrun

def echoFrame (retOffset : U256) : Frame MapDB where
  machine := { Machine.init with
    memory := { store := [1, 2, 3] ++ List.replicate 29 0, lastGasCost := 3 }
    stack := [100, 4, 0, 2, retOffset, 2] }
  Gas := 1000
  analysis := none
  interp := { sampleInterp [] with callGasTemp := 100 }

def noRun : RunFn MapDB := fun _ _ _ _ => .halt .outOfFuel

theorem returnData_eq_output_iff_apart :
    ∃ o h f', istanbulRules.instructionSet.table.lookup OpCode.STATICCALL = some o ∧
      perform sampleEvm noRun (sampleContract []) o (echoFrame 8) = .ok h f' ∧
      ∃ bs f₁, CallKind.staticCall.output sampleEvm noRun (sampleContract []) (echoFrame 8) = .ok bs f₁ ∧
        (f'.interp.returnData = bs ↔ ¬CallKind.staticCall.Garbles sampleEvm (sampleContract []) (echoFrame 8)) := by
  have hjt : newEVMInterpreter istanbulRules [] = .ok istanbulRules.instructionSet.table := rfl
  obtain ⟨o, ho, hk, hsome⟩ : ∃ o, istanbulRules.instructionSet.table.lookup OpCode.STATICCALL = some o ∧
      o.execute = CallKind.staticCall.func ∧
      (perform sampleEvm noRun (sampleContract []) o (echoFrame 8)).result.isSome = true :=
    ⟨_, rfl, rfl, by decide +kernel⟩
  obtain ⟨⟨h, f'⟩, hresult⟩ := Option.isSome_iff_exists.mp hsome
  have hperform := Ending.eq_ok_of_result hresult
  exact ⟨o, h, f', ho, hperform, returnData_eq_output_iff hjt ho hk sampleEvm noRun _ hperform⟩

/-- With the result one byte behind the input, the callee returns `1, 2`, but the return data is `1, 1`. -/
theorem returnData_garbled : ∃ o, istanbulRules.instructionSet.table.lookup OpCode.STATICCALL = some o ∧
      o.execute = CallKind.staticCall.func ∧
      (CallKind.staticCall.output sampleEvm noRun (sampleContract []) (echoFrame 1)).result.map (·.1) = some [1, 2] ∧
      (perform sampleEvm noRun (sampleContract []) o (echoFrame 1)).result.map (·.2.interp.returnData) =
        some [1, 1] := by
  refine ⟨_, rfl, rfl, ?_, ?_⟩
  · decide +kernel
  · decide +kernel

end Web3.Vm
