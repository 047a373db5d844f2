import Web3.Evm.Frames

/-! # Nested frames are transactions

The trace of a frame says which of its writes survive: all those outside of failed frames, and of a
failed `create` the increment of the caller's nonce. Running a frame is, to every reader of the
`StateDB`, running its surviving writes. The proof follows the programs: `Inside` is what holds between
the snapshot of a frame and its end, `Settles` what holds of a frame as a whole. -/

namespace Web3.Evm
open Storage

/-! ## Surviving writes -/

def kept : List Event → List Op
  | [] => []
  | .nonceBump op :: es => op :: kept es
  | .write _ :: es => kept es
  | .frame _ _ :: es => kept es

mutual

def Event.survivors : Event → List Op
  | .write op => [op]
  | .nonceBump op => [op]
  | .frame inner err => if err.isSome then kept inner else survivors inner

/-- The writes that no failed frame undoes. -/
def survivors : List Event → List Op
  | [] => []
  | e :: es => e.survivors ++ survivors es

end

def settled (err : Option VmError) (log : List Event) : List Op :=
  if err.isSome then kept log else survivors log

theorem survivors_append (log log' : List Event) : survivors (log ++ log') = survivors log ++ survivors log' := by
  induction log with
  | nil => rfl
  | cons e es ih => rw [List.cons_append, survivors, survivors, ih, List.append_assoc]

theorem kept_append (log log' : List Event) : kept (log ++ log') = kept log ++ kept log' := by
  induction log with
  | nil => rfl
  | cons e es ih =>
    cases e with
    | write op => exact ih
    | nonceBump op => exact congrArg (op :: ·) ih
    | frame inner err => exact ih

theorem settled_append (err : Option VmError) (log log' : List Event) :
    settled err (log ++ log') = settled err log ++ settled err log' := by
  rw [settled, settled, settled]
  split
  · exact kept_append log log'
  · exact survivors_append log log'

theorem survivors_frame (log : List Event) (err : Option VmError) : survivors [.frame log err] = settled err log := by
  rw [survivors, survivors, List.append_nil, Event.survivors, settled]

/-! ## Replaying -/

def replay (keccak256 : Bytes → Hash) (ops : List Op) (x : View) : Option View :=
  ops.foldlM (fun x op => viewStep keccak256 op x) x

/-- From `s` to `s'` by the given writes; no snapshot of `s` is lost. -/
structure Leads (keccak256 : Bytes → Hash) (ops : List Op) (s s' : StateDB) : Prop where
  saved : s.abs.saved <+: s'.abs.saved
  replayed : replay keccak256 ops s.abs.current = some s'.abs.current

namespace Leads
variable {keccak256 : Bytes → Hash} {s s' s'' : StateDB}

theorem of_abs (h : s'.abs = s.abs) : Leads keccak256 [] s s' :=
  ⟨h ▸ List.prefix_refl _, congrArg (fun c => some (Checkpointed.current c)) h.symm⟩

variable {ops : List Op}

theorem trans {ops' : List Op} (h : Leads keccak256 ops s s') (h' : Leads keccak256 ops' s' s'') :
    Leads keccak256 (ops ++ ops') s s'' := by
  refine ⟨h.saved.trans h'.saved, ?_⟩
  rw [replay, List.foldlM_append]
  exact (congrArg (· >>= _) h.replayed).trans h'.replayed

theorem of_apply {op : Op} (h : s.apply keccak256 op = .ok s') : Leads keccak256 [op] s s' := by
  have hstep := s.apply_refines keccak256 op
  rw [h] at hstep
  obtain ⟨x, hx, habs⟩ := Option.map_eq_some_iff.mp hstep.symm
  constructor
  · rw [← habs]
  · rw [replay, List.foldlM_cons, hx, ← habs]
    rfl

theorem answer (h : Leads keccak256 ops s s') :
    ∃ t, s.run keccak256 (ops.map .call) = .ok t ∧ ∀ r : Read, s'.answer r = t.answer r := by
  have hrun : ∀ (ops : List Op) (c : Checkpointed View), Checkpointed.run (viewStep keccak256) c (ops.map .call) =
        (replay keccak256 ops c.current).map fun x => { c with current := x } := by
    intro ops
    induction ops with
    | nil => exact fun _ => rfl
    | cons op ops ih =>
      intro c
      rw [List.map_cons, Checkpointed.run, replay, List.foldlM_cons, Checkpointed.exec]
      cases viewStep keccak256 op c.current with
      | none => rfl
      | some x => exact ih { c with current := x }
  have habs := s.run_refines keccak256 (ops.map .call)
  rw [hrun, h.replayed] at habs
  obtain ⟨t, ht, htabs⟩ := Option.map_eq_some_iff.mp habs
  refine ⟨t, Outcome.toOption_eq_some.mp ht, fun r => ?_⟩
  have hview : s'.world.view = t.world.view := (congrArg Checkpointed.current htabs).symm
  exact (r.run_same hview).map_eq fun _ _ hab => hab.1

end Leads

/-! ## Specifications of frame programs -/

section Spec
variable {α β : Type}

theorem FrameM.bind_apply (m : FrameM α) (f : α → FrameM β) (s : StateDB) : (m >>= f) s = match m s with
      | .error e => .error e
      | .ok (a, s, log) =>
        match f a s with
        | .error e => .error e
        | .ok (b, s, log') => .ok (b, s, log ++ log') := rfl

variable {m : FrameM α} {f : α → FrameM β} {s : StateDB}

theorem FrameM.bind_eq_ok {s'' : StateDB} {b : β} {log : List Event} (h : (m >>= f) s = .ok (b, s'', log)) :
    ∃ a s' l l', m s = .ok (a, s', l) ∧ f a s' = .ok (b, s'', l') ∧ log = l ++ l' := by
  rw [bind_apply] at h
  split at h
  · cases h
  next a s' l hm =>
    split at h
    · cases h
    next hf =>
      cases h
      exact ⟨a, s', l, _, hm, hf, rfl⟩

theorem FrameM.bind_eq_error {e : Stop} (h : (m >>= f) s = .error e) :
    m s = .error e ∨ ∃ a s' l, m s = .ok (a, s', l) ∧ f a s' = .error e := by
  rw [bind_apply] at h
  split at h
  · next hm =>
    cases h
    exact .inl hm
  next a s' l hm =>
    split at h
    · next hf =>
      cases h
      exact .inr ⟨a, s', l, hm, hf⟩
    · cases h

/-- The program never panics in `RevertToSnapshot`, and its results satisfy `P`. -/
structure Meets (P : StateDB → α → StateDB → List Event → Prop) (m : FrameM α) : Prop where
  no_panic : ∀ s p, m s ≠ .error (.revert p)
  result : ∀ {s a s' log}, m s = .ok (a, s', log) → P s a s' log

variable {P : StateDB → α → StateDB → List Event → Prop}
  {R : StateDB → β → StateDB → List Event → Prop}

theorem meets_pure {a : α} (h : ∀ s, P s a s []) : Meets P (pure a) := by
  refine ⟨nofun, ?_⟩
  rintro s _ _ _ ⟨⟩
  exact h s

theorem Meets.bind {T : StateDB → β → StateDB → List Event → Prop} (hm : Meets P m)
    (hf : ∀ {s a s' log}, P s a s' log → Meets R (f a))
    (hT : ∀ {s a s' log b s'' log'}, P s a s' log → R s' b s'' log' → T s b s'' (log ++ log')) :
    Meets T (m >>= f) := by
  constructor
  · intro s p h
    obtain h | ⟨a, s', l, ha, h⟩ := FrameM.bind_eq_error h
    · exact hm.no_panic s p h
    · exact (hf (hm.result ha)).no_panic s' p h
  · intro s b s'' log h
    obtain ⟨a, s', l, l', ha, hb, rfl⟩ := FrameM.bind_eq_ok h
    exact hT (hm.result ha) ((hf (hm.result ha)).result hb)

end Spec

/-! ## Inside of a frame -/

section Frames
variable {α β : Type} {env : Env} {Q : α → Prop}

/-- A part of a frame after its snapshot: the state is reached by the surviving writes of the trace,
none of which outlives a failure. -/
def Inside (env : Env) (Q : α → Prop) (s : StateDB) (a : α) (s' : StateDB) (log : List Event) : Prop :=
  Q a ∧ kept log = [] ∧ Leads env.keccak256Hash (survivors log) s s'

/-- A frame, or the end of one: the state is reached by what its error leaves of the trace. -/
def Settles (env : Env) (err : α → Option VmError) (Q : α → Prop) (s : StateDB) (a : α) (s' : StateDB)
    (log : List Event) : Prop :=
  Q a ∧ Leads env.keccak256Hash (settled (err a) log) s s'

def Before (env : Env) (s : StateDB) (_ : α) (s' : StateDB) (log : List Event) : Prop :=
  kept log = survivors log ∧ Leads env.keccak256Hash (survivors log) s s'

theorem inside_pure {a : α} (h : Q a) : Meets (Inside env Q) (pure a) :=
  meets_pure fun _ => ⟨h, rfl, Leads.of_abs rfl⟩

variable {R : β → Prop} {m : FrameM α} {f : α → FrameM β} {err : α → Option VmError}
  {s s' t : StateDB} {log : List Event} {r : RunResult} {e : VmError} {a : CallArgs}

theorem inside_bind (hm : Meets (Inside env Q) m) (hf : ∀ a, Q a → Meets (Inside env R) (f a)) :
    Meets (Inside env R) (m >>= f) := by
  refine hm.bind (fun hP => hf _ hP.1) ?_
  rintro s a s' log b s'' log' ⟨-, hkept, hleads⟩ ⟨hb, hkept', hleads'⟩
  refine ⟨hb, by rw [kept_append, hkept, hkept']; rfl, ?_⟩
  rw [survivors_append]
  exact hleads.trans hleads'

theorem settles_pure {a : α} (h : Q a) : Meets (Settles env err Q) (pure a) := by
  refine meets_pure fun _ => ⟨h, ?_⟩
  have hnil : settled (err a) [] = [] := by
    rw [settled]
    split <;> rfl
  rw [hnil]
  exact Leads.of_abs rfl

theorem settles_bind {err : β → Option VmError} (hm : Meets (Before env) m)
    (hf : ∀ a, Meets (Settles env err R) (f a)) : Meets (Settles env err R) (m >>= f) := by
  refine hm.bind (fun {_ a _ _} _ => hf a) ?_
  rintro s a s' log b s'' log' ⟨hkept, hleads⟩ ⟨hb, hleads'⟩
  have hlog : settled (err b) log = survivors log := by
    rw [settled, hkept, ite_self]
  refine ⟨hb, ?_⟩
  rw [settled_append, hlog]
  exact hleads.trans hleads'

theorem settles_map {err' : β → Option VmError} {f : α → β} (hm : Meets (Settles env err Q) m)
    (herr : ∀ a, err' (f a) = err a) (hR : ∀ a, Q a → R (f a)) :
    Meets (Settles env err' R) (m >>= fun a => pure (f a)) := by
  constructor
  · intro s p h
    obtain h | ⟨a, s', l, -, h⟩ := FrameM.bind_eq_error h
    · exact hm.no_panic s p h
    · cases h
  · intro s b s'' log h
    obtain ⟨a, s', l, l', ha, hb, rfl⟩ := FrameM.bind_eq_ok h
    cases hb
    obtain ⟨hQ, hleads⟩ := hm.result ha
    rw [List.append_nil]
    exact ⟨hR a hQ, (herr a).symm ▸ hleads⟩

/-! ### Reads and writes -/

theorem query_result {q : Query α} {a : α} (h : FrameM.query q s = .ok (a, s', log)) :
    log = [] ∧ s'.abs = s.abs := by
  rw [FrameM.query] at h
  split at h
  · next hq =>
    cases h
    exact ⟨rfl, StateDB.abs_query hq⟩
  · cases h
  · cases h

theorem query_no_panic (q : Query α) (s : StateDB) (p : String) : FrameM.query q s ≠ .error (.revert p) := by
  rw [FrameM.query]
  split <;> nofun

theorem inside_query (q : Query α) : Meets (Inside env fun _ => True) (FrameM.query q) := by
  refine ⟨query_no_panic q, fun h => ?_⟩
  obtain ⟨rfl, habs⟩ := query_result h
  exact ⟨trivial, rfl, Leads.of_abs habs⟩

theorem before_query (q : Query α) : Meets (Before env) (FrameM.query q) := by
  refine ⟨query_no_panic q, fun h => ?_⟩
  obtain ⟨rfl, habs⟩ := query_result h
  exact ⟨rfl, Leads.of_abs habs⟩

theorem apply_result {keccak256 : Bytes → Hash} {op : Op} {e : Event} {a : Unit}
    (h : FrameM.apply keccak256 op e s = .ok (a, s', log)) : log = [e] ∧ Leads keccak256 [op] s s' := by
  rw [FrameM.apply] at h
  split at h
  · next happly =>
    cases h
    exact ⟨rfl, Leads.of_apply happly⟩
  · cases h
  · cases h

theorem apply_no_panic (keccak256 : Bytes → Hash) (op : Op) (e : Event) (s : StateDB) (p : String) :
    FrameM.apply keccak256 op e s ≠ .error (.revert p) := by
  rw [FrameM.apply]
  split <;> nofun

theorem inside_write (op : Op) : Meets (Inside env fun _ => True) (env.write op) := by
  refine ⟨apply_no_panic _ op _, fun h => ?_⟩
  obtain ⟨rfl, hleads⟩ := apply_result h
  exact ⟨trivial, rfl, hleads⟩

theorem inside_writeIf (flag : Bool) (op : Op) : Meets (Inside env fun _ => True) (env.writeIf flag op) := by
  rw [Env.writeIf]
  split
  · exact inside_write op
  · exact inside_pure trivial

theorem before_bumpNonce (op : Op) : Meets (Before env) (env.bumpNonce op) := by
  refine ⟨apply_no_panic _ op _, fun h => ?_⟩
  obtain ⟨rfl, hleads⟩ := apply_result h
  exact ⟨rfl, hleads⟩

theorem inside_nested {Q : FrameResult → Prop} {m : FrameM FrameResult}
    (hm : Meets (Settles env FrameResult.err Q) m) : Meets (Inside env Q) (FrameM.nested m) := by
  constructor
  · intro s p h
    rw [FrameM.nested] at h
    split at h
    · next hms =>
      cases h
      exact hm.no_panic s p hms
    · cases h
  · intro s r s' log h
    rw [FrameM.nested] at h
    split at h
    · cases h
    · next hms =>
      cases h
      obtain ⟨hQ, hleads⟩ := hm.result hms
      refine ⟨hQ, rfl, ?_⟩
      rw [survivors_frame]
      exact hleads

/-! ### Snapshots -/

def FinishOk (Q : FrameResult → Prop) : Finish → Prop
  | .commit r => r.err = none ∧ Q (.ran r)
  | .rollback r => r.err ≠ none ∧ Q (.ran r)

theorem revert_saved (h : s.abs.save.saved <+: t.abs.saved) :
    ∃ s', t.revertToSnapshot s.snapshot.1 = .ok s' ∧ s'.abs = s.abs := by
  have hid : s.snapshot.1 = s.abs.saved.length := by
    rw [StateDB.abs, List.length_map]
    rfl
  have hrestore := Checkpointed.restore_of_prefix h
  rw [← StateDB.revert_refines] at hrestore
  obtain ⟨s', hs', habs⟩ := Option.map_eq_some_iff.mp hrestore
  exact ⟨s', hid ▸ Outcome.toOption_eq_some.mp hs', habs⟩

theorem settle_eq {Q : FrameResult → Prop} {fin : Finish} (hfin : FinishOk Q fin)
    (h : s.abs.save.saved <+: t.abs.saved) :
    ∃ r s', fin.settle s.snapshot.1 t = .ok (.ran r, s', []) ∧ Q (.ran r) ∧
      (r.err = none ∧ s' = t ∨ r.err ≠ none ∧ s'.abs = s.abs) := by
  cases fin with
  | commit r => exact ⟨r, t, rfl, hfin.2, .inl ⟨hfin.1, rfl⟩⟩
  | rollback r =>
    obtain ⟨s', hs', habs⟩ := revert_saved h
    refine ⟨r, s', ?_, hfin.2, .inr ⟨hfin.1, habs⟩⟩
    have hrevert : FrameM.revert s.snapshot.1 t = .ok ((), s', []) := by rw [FrameM.revert, hs']
    rw [Finish.settle, FrameM.bind_apply, hrevert]
    rfl

/-- **The part of a frame after its snapshot is a transaction.** -/
theorem settles_withSnapshot {Q : FrameResult → Prop} {R : RunResult → Prop}
    {finish : RunResult → Finish} {body : FrameM RunResult} (hbody : Meets (Inside env R) body)
    (hfinish : ∀ r, R r → FinishOk Q (finish r)) :
    Meets (Settles env FrameResult.err Q) (withSnapshot finish body) := by
  -- the snapshot of `s` is still there when the body has run
  have hsaved : ∀ {s t : StateDB} {ops : List Op}, Leads env.keccak256Hash ops s.snapshot.2 t →
      s.abs.save.saved <+: t.abs.saved := by
    intro s t ops h
    rw [← StateDB.abs_snapshot]
    exact h.saved
  constructor
  · intro s p h
    obtain h | ⟨id, s₁, l, hid, h⟩ := FrameM.bind_eq_error h
    · cases h
    cases hid
    obtain h | ⟨r, t, l', hr, h⟩ := FrameM.bind_eq_error h
    · exact hbody.no_panic _ p h
    obtain ⟨hR, -, hleads⟩ := hbody.result hr
    obtain ⟨r', s', hsettle, -⟩ := settle_eq (hfinish r hR) (hsaved hleads)
    rw [hsettle] at h
    cases h
  · intro s a s'' log h
    obtain ⟨id, s₁, l, l', hid, hrest, rfl⟩ := FrameM.bind_eq_ok h
    cases hid
    obtain ⟨r, t, l₁, l₂, hr, hlast, rfl⟩ := FrameM.bind_eq_ok hrest
    obtain ⟨hR, hkept, hleads⟩ := hbody.result hr
    obtain ⟨r', s', hsettle, hQ, hend⟩ := settle_eq (hfinish r hR) (hsaved hleads)
    rw [hsettle] at hlast
    cases hlast
    refine ⟨hQ, ?_⟩
    rw [List.nil_append, List.append_nil]
    rcases hend with ⟨herr, rfl⟩ | ⟨herr, habs⟩
    · have hlog : settled (FrameResult.ran r').err l₁ = survivors l₁ := by
        rw [settled, FrameResult.err, herr]
        rfl
      rw [hlog]
      refine ⟨?_, ?_⟩
      · exact (List.prefix_append _ _).trans (hsaved hleads)
      · rw [← hleads.replayed, StateDB.abs_snapshot]
        rfl
    · have hlog : settled (FrameResult.ran r').err l₁ = [] := by
        rw [settled, FrameResult.err, if_pos (Option.isSome_iff_ne_none.mpr herr), hkept]
      rw [hlog]
      exact Leads.of_abs habs

/-! ## The entry points -/

/-- What a frame that was given `gas` may return of it, when the interpreter ends with `out`: an error
after the start costs all gas unless execution was reverted, and the gas never grows. -/
def GasRule (gas : UInt64) (out : RunResult) (r : FrameResult) : Prop :=
  (∀ x e, r = .ran x → x.err = some e → e ≠ .executionReverted → x.gas = 0) ∧ (out.gas ≤ gas → r.gas ≤ gas)

theorem gasRule_ran {gas : UInt64} {out : RunResult} (herr : r.err = none)
    (hgas : out.gas ≤ gas → r.gas ≤ gas) : GasRule gas out (.ran r) := by
  refine ⟨?_, hgas⟩
  rintro x e ⟨⟩ he
  rw [herr] at he
  cases he

theorem gasRule_refused {gas gas' : UInt64} {out : RunResult} (h : gas' ≤ gas) :
    GasRule gas out (.refused gas' e) := ⟨nofun, fun _ => h⟩

theorem finishCall_ok {gas : UInt64} {out : RunResult} (hgas : out.gas ≤ gas → r.gas ≤ gas) :
    FinishOk (GasRule gas out) (finishCall r) := by
  rw [finishCall]
  split
  · next herr => exact ⟨herr, gasRule_ran herr hgas⟩
  · next e herr =>
    refine ⟨fun h => ?_, ?_, fun hout => ?_⟩
    · cases herr.symm.trans h
    · rintro x e' ⟨⟩ he' hne
      cases herr.symm.trans he'
      exact if_neg hne
    · show (if _ then _ else _) ≤ gas
      split
      · exact hgas hout
      · exact UInt64.zero_le

theorem runPrecompiledContract_gas (p : PrecompiledContract) (input : Bytes) (gas : UInt64) :
    (runPrecompiledContract p input gas).gas ≤ gas := by
  rw [runPrecompiledContract]
  split
  · exact UInt64.zero_le
  · next h => exact UInt64.sub_le (UInt64.not_lt.mp h)

def RunGas (gas : UInt64) (out r : RunResult) : Prop := out.gas ≤ gas → r.gas ≤ gas

variable {gas : UInt64} {out : RunResult} {loop : FrameM RunResult} {depth : ℕ}

theorem inside_mono {R : α → Prop} (hm : Meets (Inside env Q) m) (h : ∀ a, Q a → R a) : Meets (Inside env R) m :=
  ⟨hm.no_panic, fun hok => ⟨h _ (hm.result hok).1, (hm.result hok).2⟩⟩

theorem inside_unchanged : Meets (Inside env (RunGas gas out)) (pure { ret := [], gas, err := none }) :=
  inside_pure fun _ => UInt64.le_refl gas

theorem inside_precompile (p : PrecompiledContract) (input : Bytes) :
    Meets (Inside env (RunGas gas out)) (pure (runPrecompiledContract p input gas)) :=
  inside_pure fun _ => runPrecompiledContract_gas p input gas

theorem inside_transfer (rnd rnd' : Rand) (sender recipient : Address) (amount : ℤ) :
    Meets (Inside env fun _ => True) (env.transfer rnd rnd' sender recipient amount) :=
  inside_bind (inside_write _) fun _ _ => inside_write _

theorem inside_storeCode (hr : RunGas gas out r) (rnd : Rand) (address : Address) :
    Meets (Inside env (RunGas gas out)) (storeCode env rnd address r) := by
  rw [storeCode]
  split
  · split
    · next hle =>
      refine inside_bind (inside_write _) fun _ _ => inside_pure fun hout => ?_
      exact UInt64.le_trans (UInt64.sub_le hle) (hr hout)
    · exact inside_pure hr
  · exact inside_pure hr

/-- A call that was given `gas` is a transaction, and keeps the rule for its gas. -/
abbrev Returns (env : Env) (gas : UInt64) (out : RunResult) (m : FrameM FrameResult) : Prop :=
  Meets (Settles env FrameResult.err (GasRule gas out)) m

theorem returns_unless {c : Prop} [Decidable c] {m : FrameM FrameResult} (hm : Returns env gas out m) :
    Returns env gas out (if c then pure (.refused gas e) else m) := by
  split
  · exact settles_pure (gasRule_refused (UInt64.le_refl gas))
  · exact hm

/-- The checks that the calls start with. -/
theorem returns_withinLimits {c c' : Prop} [Decidable c] [Decidable c'] {m : FrameM FrameResult}
    (hm : Returns env gas out m) : Returns env gas out (if c then pure (.ran { ret := [], gas, err := none })
      else if c' then pure (.refused gas e) else m) := by
  split
  · exact settles_pure (gasRule_ran rfl fun _ => UInt64.le_refl gas)
  · exact returns_unless hm

section Loop
variable (hloop : Meets (Inside env (· = out)) loop)
include hloop

theorem inside_runInterpreter (code : Bytes) :
    Meets (Inside env (RunGas gas out)) (runInterpreter code gas loop) := by
  rw [runInterpreter]
  split
  · exact inside_unchanged
  · refine inside_mono hloop ?_
    rintro r rfl
    exact id

theorem inside_runAddress : Meets (Inside env (RunGas a.gas out)) (runAddress env a loop) := by
  rw [runAddress]
  split
  · exact inside_precompile _ _
  · refine inside_bind (inside_query _) fun _ _ => ?_
    refine inside_bind (inside_query _) fun code _ => ?_
    exact inside_runInterpreter hloop code

theorem inside_callBody (value : ℤ) : Meets (Inside env (RunGas a.gas out)) (callBody env a value loop) := by
  refine inside_bind (inside_query _) fun exist _ => ?_
  split
  · exact inside_unchanged
  · refine inside_bind (inside_writeIf _ _) fun _ _ => ?_
    refine inside_bind (inside_transfer _ _ _ _ _) fun _ _ => ?_
    split
    · exact inside_precompile _ _
    · refine inside_bind (inside_query _) fun code _ => ?_
      split
      · exact inside_unchanged
      · exact inside_bind (inside_query _) fun _ _ => inside_runInterpreter hloop code

theorem returns_call (value : ℤ) : Returns env a.gas out (call env depth a value loop) := by
  refine returns_withinLimits (settles_bind (before_query _) fun enough => returns_unless ?_)
  exact settles_withSnapshot (inside_callBody hloop value) fun _ => finishCall_ok

theorem returns_callCode (value : ℤ) : Returns env a.gas out (callCode env depth a value loop) := by
  refine returns_withinLimits (settles_bind (before_query _) fun enough => returns_unless ?_)
  exact settles_withSnapshot (inside_runAddress hloop) fun _ => finishCall_ok

theorem returns_delegateCall : Returns env a.gas out (delegateCall env depth a loop) :=
  returns_withinLimits (settles_withSnapshot (inside_runAddress hloop) fun _ => finishCall_ok)

theorem returns_staticCall : Returns env a.gas out (staticCall env depth a loop) := by
  refine returns_withinLimits (settles_withSnapshot ?_ fun _ => finishCall_ok)
  exact inside_bind (inside_write _) fun _ _ => inside_runAddress hloop

theorem inside_createBody {a : CreateArgs} (address : Address) :
    Meets (Inside env (RunGas a.gas out)) (createBody env depth a address loop) := by
  refine inside_bind (inside_write _) fun _ _ => inside_bind (inside_writeIf _ _) fun _ _ => ?_
  refine inside_bind (inside_transfer _ _ _ _ _) fun _ _ => ?_
  split
  · exact inside_unchanged
  · exact inside_bind (inside_runInterpreter hloop a.code) fun r hr => inside_storeCode hr _ address

end Loop

/-! ### Creation -/

theorem finishCreate_of_err (hhome : env.IsHomestead = true) (herr : r.err = some e) :
    finishCreate env r = finishCall r := by
  rw [finishCreate, finishCall, hhome, herr]
  by_cases he : e = .executionReverted
  · simp [he]
  · simp [he]

theorem finishCreate_ok (hhome : env.IsHomestead = true) (hr : RunGas gas out r) :
    FinishOk (GasRule gas out) (finishCreate env r) := by
  cases herr : r.err with
  | some e =>
    rw [finishCreate_of_err hhome herr]
    exact finishCall_ok hr
  | none =>
    rw [finishCreate, hhome, herr]
    cases maxCodeSizeExceeded env r with
    | false => exact ⟨rfl, gasRule_ran rfl hr⟩
    | true =>
      refine ⟨nofun, ?_, fun _ => UInt64.zero_le⟩
      rintro x e ⟨⟩ - -
      rfl

theorem settles_create (hhome : env.IsHomestead = true) {a : CreateArgs} (address : Address)
    (hloop : Meets (Inside env (· = out)) loop) :
    Meets (Settles env (fun r => r.1.err) fun r => GasRule a.gas out r.1) (create env depth a address loop) := by
  rw [create]
  split
  · exact settles_pure (gasRule_refused (UInt64.le_refl a.gas))
  refine settles_bind (before_query _) fun enough => ?_
  split
  · exact settles_pure (gasRule_refused (UInt64.le_refl a.gas))
  refine settles_bind (before_query _) fun nonce => ?_
  refine settles_bind (before_bumpNonce _) fun _ => ?_
  refine settles_bind (before_query _) fun contractHash => ?_
  refine settles_bind (before_query _) fun taken => ?_
  split
  · exact settles_pure (gasRule_refused UInt64.zero_le)
  · have hbody : Meets (Inside env (RunGas a.gas out)) (createBody env depth a address loop) :=
      inside_createBody hloop address
    exact settles_map (settles_withSnapshot hbody fun r => finishCreate_ok hhome) (fun _ => rfl)
      fun _ hgas => hgas

end Frames

/-! ## Trees -/

def Frame.gas : Frame → UInt64
  | .call a _ _ => a.gas
  | .callCode a _ _ => a.gas
  | .delegateCall a _ => a.gas
  | .staticCall a _ => a.gas
  | .create a _ => a.gas
  | .create2 a _ _ => a.gas

def Body.out : Body → RunResult
  | .done out => out
  | .op _ rest => rest.out
  | .frame _ rest => rest.out

def Frame.out : Frame → RunResult
  | .call _ _ body => body.out
  | .callCode _ _ body => body.out
  | .delegateCall _ body => body.out
  | .staticCall _ body => body.out
  | .create _ body => body.out
  | .create2 _ _ body => body.out

mutual

theorem Frame.exec_returns {env : Env} (hhome : env.IsHomestead = true) (depth : ℕ) :
    ∀ f : Frame, Returns env f.gas f.out (f.exec env depth)
  | .call a value body => returns_call (body.exec_inside hhome (depth + 1)) value
  | .callCode a value body => returns_callCode (body.exec_inside hhome (depth + 1)) value
  | .delegateCall a body => returns_delegateCall (body.exec_inside hhome (depth + 1))
  | .staticCall a body => returns_staticCall (body.exec_inside hhome (depth + 1))
  | .create a body => by
    have hbody := body.exec_inside hhome (depth + 1)
    refine settles_map ?_ (fun _ => rfl) fun _ hgas => hgas
    exact settles_bind (before_query _) fun nonce => settles_create hhome _ hbody
  | .create2 a salt body => by
    have hbody := body.exec_inside hhome (depth + 1)
    exact settles_map (settles_create hhome _ hbody) (fun _ => rfl) fun _ hgas => hgas

theorem Body.exec_inside {env : Env} (hhome : env.IsHomestead = true) (depth : ℕ) :
    ∀ body : Body, Meets (Inside env (· = body.out)) (body.exec env depth)
  | .done _ => inside_pure rfl
  | .op op rest => inside_bind (inside_write op) fun _ _ => rest.exec_inside hhome depth
  | .frame f rest =>
    inside_bind (inside_nested (f.exec_returns hhome depth)) fun _ _ => rest.exec_inside hhome depth

end

end Web3.Evm
