import Web3.Storage.StateDB

/-! # Snapshots are exact

Runs of a `StateDB`: calls of its methods, snapshots and reverts, in any order. A run on the object is
the same run on its view with checkpoints (`run_refines`), so that reverting to a snapshot restores the
state it was taken in, whatever happened in between. -/

namespace Web3.Storage

/-! ## Calls on views -/

def View.world (x : View) : World :=
  { cacheDB := { memdb := x.memdb, backend := { store := x.store, memdb := x.overlay, dbErr := none } }
    Suicided := x.Suicided
    logs := x.logs
    refund := x.refund }

variable (keccak256 : Bytes → Hash)

/-- What a call does to the view, if it does not panic. -/
def viewStep (op : Op) (x : View) : Option View :=
  (op.run keccak256 x.world).toOption.map World.view

theorem viewStep_view (op : Op) (w : World) :
    viewStep keccak256 op w.view = (op.run keccak256 w).toOption.map World.view := by
  have h : w.view.world.view = w.view := rfl
  exact (op.run_same keccak256 h).toOption_map_eq fun _ _ hab => hab

namespace StateDB

/-! ## Runs -/

/-- `NewStateDB`, with the given cache as the only table on the heap. -/
def newStateDB (cacheDB : CacheDB) : StateDB :=
  { memdbs := { next := 1, get := fun _ => cacheDB.memdb }
    maps := { next := 1, get := fun _ => ∅ }
    memdb := 0
    backend := cacheDB.backend
    Suicided := 0
    logs := []
    refund := 0
    snapshots := []
    memdbs_separate := ⟨by simp, by simp⟩
    maps_separate := ⟨by simp, by simp⟩
    logs_ordered := by simp }

def exec (s : StateDB) : Checkpointed.Cmd Op → Outcome StateDB
  | .call op => s.apply keccak256 op
  | .save => .ok s.snapshot.2
  | .restore id => s.revertToSnapshot id

def run (keccak256 : Bytes → Hash) (s : StateDB) : List (Checkpointed.Cmd Op) → Outcome StateDB
  | [] => .ok s
  | cmd :: cmds => do
    let s ← s.exec keccak256 cmd
    s.run keccak256 cmds

def answer (s : StateDB) (r : Read) : Outcome Answer := Prod.fst <$> r.run s.world

variable {s : StateDB}

theorem answer_eq_of_abs {t : StateDB} (h : s.abs = t.abs) (r : Read) : s.answer r = t.answer r :=
  (r.run_same (congrArg Checkpointed.current h)).map_eq fun _ _ hab => hab.1

/-! ## Refinement -/

theorem apply_refines (s : StateDB) (op : Op) : (s.apply keccak256 op).toOption.map abs =
      (viewStep keccak256 op s.abs.current).map fun x => { s.abs with current := x } := by
  have hview : viewStep keccak256 op s.abs.current = _ := viewStep_view keccak256 op s.world
  rw [hview, apply]
  split
  · next w hw =>
    have hok : (op.run keccak256 s.world).toOption = some w := Outcome.toOption_eq_some.mpr hw
    rw [hok]
    exact congrArg some (s.abs_setWorld (op.run_framed keccak256 s.world w hw))
  · next e he => rw [he]; rfl
  · next p hp => rw [hp]; rfl

theorem revert_refines (s : StateDB) (idx : ℤ) : (s.revertToSnapshot idx).toOption.map abs = s.abs.restore idx := by
  have hsaved : s.abs.saved[idx.toNat]? = s.snapshots[idx.toNat]?.map s.savedView := by
    rw [abs, List.getElem?_map]
  rw [revertToSnapshot, Checkpointed.restore, hsaved]
  by_cases hneg : idx < 0
  · rw [if_pos hneg]
    split_ifs <;> rfl
  · rw [if_neg hneg, if_neg hneg]
    by_cases hbig : idx + 1 > s.snapshots.length
    · rw [if_pos hbig, List.getElem?_eq_none (by omega)]
      rfl
    · rw [if_neg hbig]
      split
      · next sn hsn =>
        have hview : s.snapshots[idx.toNat]?.map s.savedView = some (s.savedView sn) := by
          rw [hsn, Option.map_some]
        rw [hview]
        exact congrArg some (s.abs_restoreTo hsn)
      · next hsn => rw [hsn]; rfl

/-- **A command on the object is the command on its view with checkpoints.** -/
theorem exec_refines (s : StateDB) (cmd : Checkpointed.Cmd Op) :
    (s.exec keccak256 cmd).toOption.map abs = Checkpointed.exec (viewStep keccak256) s.abs cmd := by
  cases cmd with
  | call op => exact s.apply_refines keccak256 op
  | save => exact congrArg some s.abs_snapshot
  | restore id => exact s.revert_refines id

theorem run_refines (s : StateDB) (cmds : List (Checkpointed.Cmd Op)) :
    (s.run keccak256 cmds).toOption.map abs = Checkpointed.run (viewStep keccak256) s.abs cmds := by
  induction cmds generalizing s with
  | nil => rfl
  | cons cmd cmds ih =>
    rw [run, Checkpointed.run, ← exec_refines, Outcome.toOption_bind, Option.map_bind, Option.bind_map]
    congr 1
    funext t
    exact ih t

theorem revertToSnapshot_run {keccak256 : Bytes → Hash} {s' : StateDB}
    {cmds : List (Checkpointed.Cmd Op)} (hcmds : ∀ id : ℤ, .restore id ∈ cmds → s.snapshot.1 < id)
    (hrun : s.snapshot.2.run keccak256 cmds = .ok s') :
    ∃ t, s'.revertToSnapshot s.snapshot.1 = .ok t ∧ t.abs = s.abs := by
  have hlen : s.snapshot.1 = s.abs.saved.length := by
    rw [abs, List.length_map]
    rfl
  have habs : Checkpointed.run (viewStep keccak256) s.abs.save cmds = some s'.abs := by
    rw [← abs_snapshot, ← run_refines, hrun]
    rfl
  rw [hlen] at hcmds ⊢
  have hrestore := Checkpointed.restore_run hcmds habs
  rw [← revert_refines] at hrestore
  obtain ⟨t, ht, hts⟩ := Option.map_eq_some_iff.mp hrestore
  exact ⟨t, Outcome.toOption_eq_some.mp ht, hts⟩

/-- **Snapshots are exact.** Take a snapshot, run any commands that complete and revert to later
snapshots only, and revert to it: this succeeds, and every read answers, or panics, as when the
snapshot was taken. -/
theorem revertToSnapshot_exact (keccak256 : Bytes → Hash) (s s' : StateDB)
    (cmds : List (Checkpointed.Cmd Op)) (hcmds : ∀ id : ℤ, .restore id ∈ cmds → s.snapshot.1 < id)
    (hrun : s.snapshot.2.run keccak256 cmds = .ok s') :
    ∃ t, s'.revertToSnapshot s.snapshot.1 = .ok t ∧ ∀ r : Read, t.answer r = s.answer r := by
  obtain ⟨t, ht, habs⟩ := revertToSnapshot_run hcmds hrun
  exact ⟨t, ht, answer_eq_of_abs habs⟩

/-- An account, a slot and a value for the run below. -/
def sampleAddress : Address := bytesToAddress [1]

def sampleKey : Hash := bytesToHash [2]

def sampleLog : StorageLog := { Address := sampleAddress, Topics := [sampleKey], Data := [3] }

/-- A run with a write, a nested snapshot that is reverted to, and a later call. -/
def sampleRun : List (Checkpointed.Cmd Op) :=
  [.call (.setState (fun _ => 0) sampleAddress sampleKey sampleKey), .save,
    .call (.addLog sampleLog), .restore 1, .call (.addRefund 7), .call (.addLog sampleLog)]

theorem revertToSnapshot_exact_sampleRun :
    let s := newStateDB (newCacheDB (newOverlayDB fun _ => none))
    ∃ s' t, s.snapshot.2.run (fun _ => Hash.zero) sampleRun = .ok s' ∧
      s'.revertToSnapshot 0 = .ok t ∧ ∀ r : Read, t.answer r = s.answer r := by
  intro s
  obtain ⟨s', hs'⟩ : ∃ s', s.snapshot.2.run (fun _ => Hash.zero) sampleRun = .ok s' := ⟨_, rfl⟩
  have hcmds : ∀ id : ℤ, .restore id ∈ sampleRun → s.snapshot.1 < id := by
    intro id hid
    simp only [sampleRun, List.mem_cons, reduceCtorEq, Checkpointed.Cmd.restore.injEq, false_or,
      or_false, List.not_mem_nil] at hid
    rw [hid]
    exact Int.one_pos
  obtain ⟨t, ht, hread⟩ := revertToSnapshot_exact (fun _ => Hash.zero) s s' sampleRun hcmds hs'
  exact ⟨s', t, hs', ht, hread⟩

end StateDB
end Web3.Storage
