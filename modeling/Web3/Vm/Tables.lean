import Web3.Vm.Steady

/-! # What all jump tables have in common

A property of the entries of a table that holds in every instruction set and that enabling an EIP does
not break holds in every table an interpreter is made with. -/

namespace Web3.Vm
open OpCode

def JumpTable.Forall (P : OpCode → Operation → Bool) (jt : JumpTable) : Prop :=
  jt.all (fun e => P e.1 e.2) = true

instance (P : OpCode → Operation → Bool) (jt : JumpTable) : Decidable (jt.Forall P) :=
  inferInstanceAs (Decidable (_ = true))

structure StableUnderEIPs (P : OpCode → Operation → Bool) : Prop where
  constantGas : ∀ code o gas, 0 < gas → P code o = true → P code { o with constantGas := gas } = true
  dynamicGas : ∀ o, P SSTORE o = true → P SSTORE { o with dynamicGas := some .gasSStoreEIP2200 } = true
  enable1344 : JumpTable.Forall P (enable1344 [])
  enable1884 : JumpTable.Forall P (enable1884 [])
  enable2315 : JumpTable.Forall P (enable2315 [])

namespace JumpTable
variable {P : OpCode → Operation → Bool} {jt jt' : JumpTable} {code : OpCode} {o : Operation}

theorem Forall.of_lookup (h : jt.Forall P) (ho : jt.lookup code = some o) : P code o = true := by
  obtain ⟨l₁, l₂, hl, -⟩ := List.lookup_eq_some_iff.mp ho
  refine List.all_eq_true.mp h (code, o) ?_
  rw [hl]
  exact List.mem_append_right _ List.mem_cons_self

theorem Forall.set (h : jt.Forall P) (ho : P code o = true) : (jt.set code o).Forall P := by
  rw [Forall, JumpTable.set, List.all_cons, ho, Bool.true_and]
  exact h

theorem Forall.update (h : jt.Forall P) {f : Operation → Operation}
    (hf : ∀ o, P code o = true → P code (f o) = true) : (jt.update code f).Forall P := by
  unfold JumpTable.update
  split
  next o ho => exact h.set (hf o (h.of_lookup ho))
  next => exact h

theorem Forall.append (h : jt.Forall P) (h' : jt'.Forall P) : JumpTable.Forall P (jt ++ jt') := by
  rw [Forall, List.all_append, h, h']
  rfl

theorem Forall.enableEIP (hP : StableUnderEIPs P) (h : jt.Forall P) {eipNum : ℤ}
    (heip : enableEIP eipNum jt = .ok jt') : jt'.Forall P := by
  have hconst {jt : JumpTable} {code : OpCode} {gas : UInt64} (hgas : 0 < gas) (h : jt.Forall P) :
      (jt.setConstantGas code gas).Forall P := h.update fun o => hP.constantGas code o gas hgas
  unfold Vm.enableEIP at heip
  split_ifs at heip <;> cases heip
  · exact (hconst (by decide) h).update hP.dynamicGas
  · exact hP.enable1884.append (hconst (by decide) (hconst (by decide) (hconst (by decide) h)))
  · exact hP.enable1344.append h
  · exact hP.enable2315.append h

theorem newEVMInterpreter_forall (hP : StableUnderEIPs P) {rules : Rules}
    (hset : rules.instructionSet.table.Forall P) {ExtraEips : List ℤ}
    (h : newEVMInterpreter rules ExtraEips = .ok jt) : jt.Forall P := by
  unfold newEVMInterpreter at h
  generalize rules.instructionSet.table = start at hset h
  induction ExtraEips generalizing start with
  | nil =>
    cases h
    exact hset
  | cons eip eips ih =>
    rw [List.foldlM_cons] at h
    cases heip : enableEIP eip start with
    | error e =>
      rw [heip] at h
      cases h
    | ok next =>
      rw [heip] at h
      exact ih next (hset.enableEIP hP heip) h

end JumpTable

/-! ## Prices -/

def ExecutionFunc.gasFunc : ExecutionFunc → Option GasFunc
  | opCall => some .gasCall
  | opCallCode => some .gasCallCode
  | opDelegateCall => some .gasDelegateCall
  | opStaticCall => some .gasStaticCall
  | _ => none

/-- A call is charged by its own gas function, calls and creations have a constant cost, and every other
operation costs something or ends the run. -/
structure Operation.WellPriced (o : Operation) : Prop where
  gasFunc : ∀ g ∈ o.execute.gasFunc, o.dynamicGas = some g
  positive : 0 < o.constantGas ∨ o.execute.isCall = false ∧
    (o.halts = true ∨ o.reverts = true ∨ o.dynamicGas.any GasFunc.positive = true)

instance (o : Operation) : Decidable o.WellPriced :=
  decidable_of_iff (_ ∧ _) ⟨fun h => ⟨h.1, h.2⟩, fun h => ⟨h.gasFunc, h.positive⟩⟩

/-- At `SSTORE` there is a store, whose cost an EIP changes. -/
def wellPricedAt (code : OpCode) (o : Operation) : Bool :=
  o.WellPriced ∧ (code = SSTORE → o.execute = .opSstore)

theorem wellPricedAt_stable : StableUnderEIPs wellPricedAt where
  constantGas code o gas hgas h := by
    obtain ⟨hpriced, hstore⟩ := of_decide_eq_true h
    exact decide_eq_true ⟨⟨hpriced.gasFunc, .inl hgas⟩, hstore⟩
  dynamicGas o h := by
    obtain ⟨hpriced, hstore⟩ := of_decide_eq_true h
    have he := hstore rfl
    refine decide_eq_true ⟨⟨?_, .inr ⟨?_, .inr (.inr rfl)⟩⟩, hstore⟩
    · intro g hg
      rw [he] at hg
      cases hg
    · rw [he]
      rfl
  enable1344 := by decide +kernel
  enable1884 := by decide +kernel
  enable2315 := by decide +kernel

theorem InstructionSet.wellPriced (set : InstructionSet) : set.table.Forall wellPricedAt := by
  cases set <;> decide +kernel

def JumpTable.WellPriced (jt : JumpTable) : Prop := ∀ code o, jt.lookup code = some o → o.WellPriced

theorem newEVMInterpreter_wellPriced {rules : Rules} {ExtraEips : List ℤ} {jt : JumpTable}
    (h : newEVMInterpreter rules ExtraEips = .ok jt) : jt.WellPriced := fun _ _ ho =>
  (of_decide_eq_true ((JumpTable.newEVMInterpreter_forall wellPricedAt_stable
    rules.instructionSet.wellPriced h).of_lookup ho)).1

/-! ## Writes -/

/-- What writes is marked as such, also if it is the gas function that writes; only `CALL` is a call that
may transfer value to another account. -/
structure Operation.Guarded (code : OpCode) (o : Operation) : Prop where
  execute : o.writes = false → o.execute.writes = false ∧ o.execute ≠ .opCreate ∧ o.execute ≠ .opCreate2
  dynamicGas : o.writes = false → o.dynamicGas.any GasFunc.writes = false
  call : o.execute = .opCall → code = CALL
  store : code = SSTORE → o.writes = true

instance (code : OpCode) (o : Operation) : Decidable (o.Guarded code) :=
  decidable_of_iff (_ ∧ _ ∧ _ ∧ _) ⟨fun h => ⟨h.1, h.2.1, h.2.2.1, h.2.2.2⟩,
    fun h => ⟨h.execute, h.dynamicGas, h.call, h.store⟩⟩

theorem guarded_stable : StableUnderEIPs fun code o => decide (o.Guarded code) where
  constantGas code o gas _ h := by
    have h := of_decide_eq_true h
    exact decide_eq_true ⟨h.execute, h.dynamicGas, h.call, h.store⟩
  dynamicGas o h := by
    have h := of_decide_eq_true h
    exact decide_eq_true ⟨h.execute, fun hw => absurd (h.store rfl) (hw ▸ Bool.false_ne_true), h.call, h.store⟩
  enable1344 := by decide +kernel
  enable1884 := by decide +kernel
  enable2315 := by decide +kernel

theorem InstructionSet.guarded (set : InstructionSet) : set.table.Forall fun code o => decide (o.Guarded code) := by
  cases set <;> decide +kernel

theorem newEVMInterpreter_guarded {rules : Rules} {ExtraEips : List ℤ} {jt : JumpTable}
    (h : newEVMInterpreter rules ExtraEips = .ok jt) {code : OpCode} {o : Operation}
    (ho : jt.lookup code = some o) : o.Guarded code :=
  of_decide_eq_true ((JumpTable.newEVMInterpreter_forall guarded_stable rules.instructionSet.guarded h).of_lookup ho)

end Web3.Vm
