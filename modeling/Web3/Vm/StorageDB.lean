import Web3.Storage.Snapshots
import Web3.Vm.State

/-! # The database of the EVM

The `StateDB` of `statedb.go`, with its cache, overlay and store, behind the interface that the EVM
works on. Every insertion into the cache takes a value of the generator, so a state also has the values
that are to come. The state is seen from outside as a view with checkpoints, and a method changes the
current view only (`wp_call`). -/

namespace Web3.Vm
open Storage (Rand World View Op Query Framed)

/-- The object, and what the generator gives to the methods to come. -/
structure Seeded where
  db : Storage.StateDB
  rand : ℕ → Rand

/-- A method, on what is behind the live pointers. -/
structure Method (α : Type) where
  run : Rand → World → Outcome (α × World)
  framed : ∀ rnd w, (run rnd w).Ensures fun r => Framed w r.2

namespace Method
variable {α : Type}

def ofQuery (q : Query α) : Method α :=
  ⟨fun _ => q.run, fun _ w r hr => Framed.of_view (q.view w r hr)⟩

def ofOp (keccak256 : Bytes → Hash) (op : Rand → Op) : Method Unit where
  run rnd w := do
    let w ← (op rnd).run keccak256 w
    .ok ((), w)
  framed rnd w := by
    refine ((op rnd).run_framed keccak256 w).bind ?_
    intro w' hw
    exact Outcome.ensures_ok hw

def suicide (addr : Address) : Method Bool :=
  ⟨fun rnd w => w.suicide rnd addr, fun rnd w => w.suicide_framed rnd addr⟩

end Method

namespace Seeded
variable {α : Type}

def world (s : Seeded) : World := s.db.world

def abs (s : Seeded) : Checkpointed View := s.db.abs

/-- Call a method; an error that is not kept in the overlay would stop the program. -/
def call (m : Method α) : DbM Seeded α := fun s =>
  match h : m.run (s.rand 0) s.db.world with
  | .ok r => .ok r.1 ⟨s.db.setWorld r.2 (m.framed _ _ _ h).logs, fun n => s.rand (n + 1)⟩
  | .err e => .stop e
  | .panic p => .stop p

def snapshot : DbM Seeded ℤ := fun s => .ok s.db.snapshot.1 { s with db := s.db.snapshot.2 }

def revertToSnapshot (idx : ℤ) : DbM Seeded Unit := fun s =>
  match s.db.revertToSnapshot idx with
  | .ok db => .ok () { s with db }
  | .err e => .stop e
  | .panic p => .stop p

end Seeded

open Seeded in
def storageDB (keccak256 : Bytes → Hash) : StateDB Seeded where
  createAccount _ := pure ()
  subBalance addr val := call (.ofOp keccak256 (.subBalance · addr val))
  addBalance addr val := call (.ofOp keccak256 (.addBalance · addr val))
  getBalance addr := call (.ofQuery ((Query.getBalance addr).map Nat.cast))
  getNonce addr := call (.ofQuery (Query.getNonce addr))
  setNonce addr nonce := call (.ofOp keccak256 (.setNonce · addr nonce))
  getCodeHash addr := call (.ofQuery (Query.getCodeHash addr))
  getCode addr := call (.ofQuery (Query.getCode addr))
  setCode addr code := call (.ofOp keccak256 (.setCode · addr code))
  getCodeSize addr := call (.ofQuery ((Query.getCode addr).map List.length))
  addRefund gas := call (.ofOp keccak256 fun _ => .addRefund gas)
  subRefund gas := call (.ofOp keccak256 fun _ => .subRefund gas)
  getRefund := .read fun s => s.world.getRefund
  getCommittedState addr key := .read fun s => s.world.getCommittedState addr key
  getState contract key := .read fun s => s.world.getState contract key
  setState contract key value := call (.ofOp keccak256 (.setState · contract key value))
  suicide addr := call (.suicide addr)
  HasSuicided addr := .read fun s => s.world.hasSuicided addr
  exist addr := call (.ofQuery (Query.exist addr))
  empty addr := call (.ofQuery (Query.empty addr))
  revertToSnapshot := revertToSnapshot
  snapshot := snapshot
  addLog log := call (.ofOp keccak256 fun _ => .addLog log)
  addPreimage _ _ := pure ()

/-! ## Rules -/

namespace Seeded
variable {α : Type} {s s' : Seeded} {Q : α → Seeded → Prop} {R : Empty → Seeded → Prop}
  {X : String → Prop}

/-- **A call changes the current view only**, as the method says. -/
theorem wp_call {m : Method α} (hok : ∀ a w s', m.run (s.rand 0) s.world = .ok (a, w) → s'.world = w →
      s'.abs = { s.abs with current := w.view } → Q a s') 
    (hstop : ∀ e, m.run (s.rand 0) s.world = .err e ∨ m.run (s.rand 0) s.world = .panic e → X e) :
    Prog.wp (call m) Q R X s := by
  unfold Prog.wp call
  split
  · next a s' hs =>
    split at hs
    · next r hr =>
      cases hs
      have hframed := m.framed _ _ _ hr
      exact hok r.1 r.2 _ hr (s.db.world_setWorld r.2 hframed.logs) (s.db.abs_setWorld hframed)
    · cases hs
    · cases hs
  · next e s' hs => exact e.elim
  · next p hp =>
    split at hp
    · cases hp
    · next e he =>
      cases hp
      exact hstop _ (.inl he)
    · next e he =>
      cases hp
      exact hstop _ (.inr he)

theorem wp_query {q : Query α}
    (hok : ∀ a w s', q.run s.world = .ok (a, w) → s'.abs = s.abs → Q a s') (hX : ∀ e, X e) :
    Prog.wp (call (.ofQuery q)) Q R X s := by
  refine wp_call (fun a w s' hrun _ habs => hok a w s' hrun ?_) fun e _ => hX e
  rw [habs, show w.view = s.abs.current from q.view s.world (a, w) hrun]

theorem abs_snapshot (s : Seeded) : ({ s with db := s.db.snapshot.2 } : Seeded).abs = s.abs.save :=
  s.db.abs_snapshot

theorem revertToSnapshot_eq_ok {idx : ℤ} (h : revertToSnapshot idx s = .ok () s') :
    s.abs.restore idx = some s'.abs := by
  have hrefines := s.db.revert_refines idx
  unfold revertToSnapshot at h
  split at h
  · next db hdb =>
    cases h
    rw [hdb] at hrefines
    exact hrefines.symm
  · cases h
  · cases h

end Seeded

end Web3.Vm
