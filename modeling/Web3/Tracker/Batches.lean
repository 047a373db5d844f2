import Web3.Tracker.Sync

/-! # Syncing in batches

`syncBatch` queries the logs of a range of blocks piece by piece. A piece for which the node has too many
logs is cut in half; after a success the pieces grow again. Here the loop is modelled with the `uint64`
variables of the source and with whatever the calls of a run answer, call by call. A turn of it is a
section of `Sync`, whose numbers are natural numbers. -/

namespace Web3.Tracker.Batches

/-- An error: an object sent by the node, or any other. -/
inductive CallError where
  | errorObject (Message : String)
  | other (text : String)
  deriving DecidableEq

def tooMuchDataRequestedError : CallError → Bool
  | .errorObject Message => Message = "query returned more than 10000 results"
  | .other _ => false

/-- `web3.BlockNumber(n)`, which is an `int`. -/
def blockNumber (n : UInt64) : ℤ := n.toBitVec.toInt

/-- What the calls of a run answer, after a number of earlier queries of logs. -/
structure Answers where
  getLogs : ℕ → UInt64 → UInt64 → Except CallError (List Log)
  storeLogs : ℕ → Option CallError
  getBlockByNumber : ℕ → ℤ → Except CallError Block
  storeLastBlock : ℕ → Option CallError
  /-- `ctx.Err()` -/
  ctxErr : ℕ → Option CallError

/-- The calls that a run has made: queries of logs with their answers, and what was stored and emitted. -/
inductive Call where
  | getLogs (i dst : UInt64) (answer : Except CallError (List Log))
  | storeLogs (logs : List Log)
  | emitLogs (logs : List Log)
  | storeLastBlock (block : Block)

/-- The variables of `syncBatch`, the number of its queries of logs, and its calls. -/
structure Batch where
  i : UInt64
  batchSize : UInt64
  queries : ℕ
  calls : List Call

/-- What a turn of the loop leads to: the label `START`, or a return. -/
inductive Turn where
  | start (b : Batch)
  | returns (err : Option CallError) (b : Batch)

def min (i j : UInt64) : UInt64 := if i < j then i else j

/-- What a run is given: the configured size, the tenth of it (a floating point product in the source), the
last block, and the answers. -/
structure Job where
  BatchSize : UInt64
  additiveFactor : UInt64
  limit : UInt64
  answers : Answers

section Loop
variable (j : Job)

def Batch.dst (b : Batch) : UInt64 := min j.limit (b.i + b.batchSize)

def Batch.answer (b : Batch) : Except CallError (List Log) := j.answers.getLogs b.queries b.i (b.dst j)

def Batch.queried (b : Batch) : Batch :=
  { b with queries := b.queries + 1, calls := b.calls ++ [.getLogs b.i (b.dst j) (b.answer j)] }

def Batch.moved (b : Batch) : Batch :=
  { b with
    i := b.i + (b.batchSize + 1)
    batchSize := if b.batchSize < j.BatchSize then min j.BatchSize (b.batchSize + j.additiveFactor) else b.batchSize }

def Batch.record (b : Batch) (call : Call) : Batch := { b with calls := b.calls ++ [call] }

def turn (b : Batch) : Turn :=
  match b.answer j with
  | .error e =>
    if tooMuchDataRequestedError e then .start { b.queried j with batchSize := b.batchSize / 2 }
    else .returns (some e) (b.queried j)
  | .ok logs =>
    match j.answers.storeLogs b.queries with
    | some e => .returns (some e) (b.queried j)
    | none =>
      let stored := ((b.queried j).record (.storeLogs logs)).record (.emitLogs logs)
      match j.answers.getBlockByNumber b.queries (blockNumber (b.dst j)) with
      | .error e => .returns (some e) stored
      | .ok block =>
        match j.answers.storeLastBlock b.queries with
        | some e => .returns (some e) stored
        | none =>
          let stored := stored.record (.storeLastBlock block)
          match j.answers.ctxErr b.queries with
          | some e => .returns (some e) stored
          | none =>
            let next := stored.moved j
            if next.i ≤ j.limit then .start next else .returns none next

def loop : ℕ → Batch → Option (Option CallError × Batch)
  | 0, _ => none
  | fuel + 1, b =>
    match turn j b with
    | .start b => loop fuel b
    | .returns err b => some (err, b)

def initial (start : UInt64) : Batch := { i := start, batchSize := j.BatchSize, queries := 0, calls := [] }

def syncBatch (start : UInt64) (fuel : ℕ) : Option (Option CallError × Batch) :=
  loop j fuel (initial j start)

/-- The states at the label `START` in a run. -/
inductive Reached (start : UInt64) : Batch → Prop
  | first : Reached start (initial j start)
  | next {b b' : Batch} (h : Reached start b) (hturn : turn j b = .start b') : Reached start b'

end Loop

/-! ## One turn -/

section Turns
variable {j : Job} {start : UInt64} {b b' : Batch}

/-- A turn in which all calls succeed and the context is not cancelled. -/
structure Succeeds (j : Job) (b : Batch) (logs : List Log) (block : Block) : Prop where
  getLogs : b.answer j = .ok logs
  storeLogs : j.answers.storeLogs b.queries = none
  getBlockByNumber : j.answers.getBlockByNumber b.queries (blockNumber (b.dst j)) = .ok block
  storeLastBlock : j.answers.storeLastBlock b.queries = none
  ctxErr : j.answers.ctxErr b.queries = none

def Batch.after (j : Job) (logs : List Log) (block : Block) (b : Batch) : Batch :=
  ((((b.queried j).record (.storeLogs logs)).record (.emitLogs logs)).record (.storeLastBlock block)).moved j

/-- **What a turn can do**: cut the piece, succeed, or return an error. -/
theorem turn_cases (j : Job) (b : Batch) :
    (∃ e, b.answer j = .error e ∧ tooMuchDataRequestedError e = true ∧
      turn j b = .start { b.queried j with batchSize := b.batchSize / 2 }) ∨
    (∃ logs block, Succeeds j b logs block ∧ turn j b =
        if (b.after j logs block).i ≤ j.limit then .start (b.after j logs block)
        else .returns none (b.after j logs block)) ∨
    ∃ e b', turn j b = .returns (some e) b' := by
  rw [turn]
  cases hlogs : b.answer j with
  | error e =>
    dsimp only
    by_cases he : tooMuchDataRequestedError e = true
    · rw [if_pos he]
      exact .inl ⟨e, rfl, he, rfl⟩
    · rw [if_neg he]
      exact .inr (.inr ⟨e, _, rfl⟩)
  | ok logs =>
    cases hstore : j.answers.storeLogs b.queries with
    | some e => exact .inr (.inr ⟨e, _, rfl⟩)
    | none =>
      cases hblock : j.answers.getBlockByNumber b.queries (blockNumber (b.dst j)) with
      | error e => exact .inr (.inr ⟨e, _, rfl⟩)
      | ok block =>
        cases hlast : j.answers.storeLastBlock b.queries with
        | some e => exact .inr (.inr ⟨e, _, rfl⟩)
        | none =>
          cases hctx : j.answers.ctxErr b.queries with
          | some e => exact .inr (.inr ⟨e, _, rfl⟩)
          | none => exact .inr (.inl ⟨logs, block, ⟨hlogs, hstore, hblock, hlast, hctx⟩, rfl⟩)

theorem turn_start (h : turn j b = .start b') :
    (∃ e, b.answer j = .error e ∧ tooMuchDataRequestedError e = true ∧
      b' = { b.queried j with batchSize := b.batchSize / 2 }) ∨
    ∃ logs block, Succeeds j b logs block ∧ b' = b.after j logs block ∧ b'.i ≤ j.limit := by
  obtain ⟨e, he, hmuch, hturn⟩ | ⟨logs, block, hsucc, hturn⟩ | ⟨e, b'', hturn⟩ := turn_cases j b
  · rw [hturn] at h
    cases h
    exact .inl ⟨e, he, hmuch, rfl⟩
  · rw [hturn] at h
    split at h
    · next hnext =>
      cases h
      exact .inr ⟨logs, block, hsucc, rfl, hnext⟩
    · cases h
  · rw [hturn] at h
    cases h

theorem turn_returns_none (h : turn j b = .returns none b') :
    ∃ logs block, Succeeds j b logs block ∧ b' = b.after j logs block ∧ ¬b'.i ≤ j.limit := by
  obtain ⟨e, he, hmuch, hturn⟩ | ⟨logs, block, hsucc, hturn⟩ | ⟨e, b'', hturn⟩ := turn_cases j b
  · rw [hturn] at h
    cases h
  · rw [hturn] at h
    split at h
    · cases h
    · next hlast =>
      cases h
      exact ⟨logs, block, hsucc, rfl, hlast⟩
  · rw [hturn] at h
    cases h

theorem queries_of_start (h : turn j b = .start b') : b'.queries = b.queries + 1 := by
  obtain ⟨_, -, -, rfl⟩ | ⟨_, _, -, rfl, -⟩ := turn_start h <;> rfl

theorem toNat_min (i j : UInt64) : (min i j).toNat = Min.min i.toNat j.toNat := by
  unfold min
  split
  · next h => exact (Nat.min_eq_left (UInt64.lt_iff_toNat_lt.mp h).le).symm
  · next h => exact (Nat.min_eq_right (UInt64.le_iff_toNat_le.mp (UInt64.not_lt.mp h))).symm

theorem after_i (logs : List Log) (block : Block) : (b.after j logs block).i = b.i + (b.batchSize + 1) := rfl

theorem after_batchSize_le (logs : List Log) (block : Block) (h : b.batchSize ≤ j.BatchSize) :
    (b.after j logs block).batchSize ≤ j.BatchSize := by
  change (if b.batchSize < j.BatchSize then min j.BatchSize (b.batchSize + j.additiveFactor) else b.batchSize) ≤ j.BatchSize
  split
  · rw [UInt64.le_iff_toNat_le, toNat_min]
    exact Nat.min_le_left _ _
  · exact h

theorem after_i_toNat (logs : List Log) (block : Block) (hfit : b.i.toNat + b.batchSize.toNat + 1 < 2 ^ 64) :
    (b.after j logs block).i.toNat = b.i.toNat + b.batchSize.toNat + 1 := by
  rw [after_i, UInt64.toNat_add, UInt64.toNat_add, UInt64.toNat_one]
  omega

theorem dst_toNat (hfit : b.i.toNat + b.batchSize.toNat < 2 ^ 64) :
    (b.dst j).toNat = Min.min j.limit.toNat (b.i.toNat + b.batchSize.toNat) := by
  rw [Batch.dst, toNat_min, UInt64.toNat_add, Nat.mod_eq_of_lt hfit]

theorem dst_of_zero (hle : b.i ≤ j.limit) (hzero : b.batchSize = 0) : b.dst j = b.i := by
  rw [Batch.dst, hzero, UInt64.add_zero, min]
  split
  · next h => exact absurd h (UInt64.not_lt.mpr hle)
  · rfl

end Turns

/-! ## Coverage -/

def ranges (calls : List Call) : List (UInt64 × UInt64) :=
  calls.filterMap fun
    | .getLogs i dst (.ok _) => some (i, dst)
    | _ => none

def answered (calls : List Call) : List (List Log) :=
  calls.filterMap fun
    | .getLogs _ _ (.ok logs) => some logs
    | _ => none

def storedLogs (calls : List Call) : List (List Log) :=
  calls.filterMap fun
    | .storeLogs logs => some logs
    | _ => none

def storedBlocks (calls : List Call) : List Block :=
  calls.filterMap fun
    | .storeLastBlock block => some block
    | _ => none

/-- The ranges follow each other without a gap, and together they are `[start, limit]`. -/
structure Covers (start limit : UInt64) (ranges : List (UInt64 × UInt64)) : Prop where
  nonempty : ∀ r ∈ ranges, r.1 ≤ r.2
  consecutive : ranges.IsChain fun r r' => r'.1.toNat = r.2.toNat + 1
  increasing : ranges.Pairwise fun r r' => r.2 < r'.1
  union : ∀ n : UInt64, (∃ r ∈ ranges, r.1 ≤ n ∧ n ≤ r.2) ↔ start ≤ n ∧ n ≤ limit

/-- Ranges that tile the numbers from `a` up to, and without, the given one. -/
inductive Tiles (a : ℕ) : ℕ → List (UInt64 × UInt64) → Prop
  | nil : Tiles a a []
  | concat {n : ℕ} {ranges : List (UInt64 × UInt64)} {r : UInt64 × UInt64} (h : Tiles a n ranges)
      (hfirst : r.1.toNat = n) (hle : r.1 ≤ r.2) : Tiles a (r.2.toNat + 1) (ranges ++ [r])

namespace Tiles
variable {a n : ℕ} {ranges : List (UInt64 × UInt64)}

section
variable (h : Tiles a n ranges)
include h

theorem mem_le : ∀ r ∈ ranges, r.1 ≤ r.2 ∧ r.2.toNat < n := by
  induction h with
  | nil => simp
  | @concat n ranges r _ hfirst hle ih =>
    intro r' hr'
    rw [UInt64.le_iff_toNat_le] at hle
    rcases List.mem_append.mp hr' with hold | hnew
    · exact ⟨(ih r' hold).1, by have := (ih r' hold).2; omega⟩
    · rw [List.mem_singleton.mp hnew]
      exact ⟨UInt64.le_iff_toNat_le.mpr hle, by omega⟩

theorem last_next : ∀ r ∈ ranges.getLast?, r.2.toNat + 1 = n := by
  cases h with
  | nil | concat => simp

theorem le : a ≤ n := by
  induction h with
  | nil => exact le_rfl
  | concat _ hfirst hle ih =>
    rw [UInt64.le_iff_toNat_le] at hle
    omega

theorem union (m : UInt64) : (∃ r ∈ ranges, r.1 ≤ m ∧ m ≤ r.2) ↔ a ≤ m.toNat ∧ m.toNat < n := by
  induction h with
  | nil =>
    simp only [List.not_mem_nil, false_and, exists_false, false_iff]
    omega
  | @concat n ranges r h hfirst hle ih =>
    have hbounds := h.le
    simp only [List.mem_append, List.mem_singleton, or_and_right, exists_or, exists_eq_left, ih]
    rw [UInt64.le_iff_toNat_le] at hle
    rw [UInt64.le_iff_toNat_le, UInt64.le_iff_toNat_le]
    omega

theorem consecutive : ranges.IsChain fun r r' => r'.1.toNat = r.2.toNat + 1 := by
  induction h with
  | nil => exact .nil
  | @concat n ranges r h hfirst hle ih =>
    refine List.isChain_append.mpr ⟨ih, .singleton r, fun x hx y hy => ?_⟩
    obtain rfl : r = y := by simpa using hy
    rw [hfirst, h.last_next x hx]

theorem increasing : ranges.Pairwise fun r r' => r.2 < r'.1 := by
  induction h with
  | nil => exact .nil
  | @concat n ranges r h hfirst hle ih =>
    refine List.pairwise_append.mpr ⟨ih, List.pairwise_singleton _ _, fun x hx y hy => ?_⟩
    rw [List.mem_singleton.mp hy, UInt64.lt_iff_toNat_lt, hfirst]
    exact (h.mem_le x hx).2

end

theorem covers {start limit : UInt64} (h : Tiles start.toNat (limit.toNat + 1) ranges) : Covers start limit ranges where
  nonempty r hr := (h.mem_le r hr).1
  consecutive := h.consecutive
  increasing := h.increasing
  union m := by rw [h.union, UInt64.le_iff_toNat_le, UInt64.le_iff_toNat_le, Nat.lt_succ_iff]

end Tiles

/-! ## The invariant of the loop -/

section Runs
variable {j : Job} {start : UInt64} {b b' : Batch}

/-- At `START`: the successes so far tile the numbers before the cursor, and their logs are stored. -/
structure Sound (j : Job) (start : UInt64) (b : Batch) : Prop where
  le : b.i ≤ j.limit
  size : b.batchSize ≤ j.BatchSize
  tiles : Tiles start.toNat b.i.toNat (ranges b.calls)
  stored : storedLogs b.calls = answered b.calls

theorem sound_initial (hle : start ≤ j.limit) : Sound j start (initial j start) where
  le := hle
  size := UInt64.le_refl _
  tiles := .nil
  stored := rfl

/-- Cutting the piece keeps the invariant: the failed query leaves no trace in what is counted. -/
theorem Sound.halved {e : CallError} (h : Sound j start b) (he : b.answer j = .error e) :
    Sound j start { b.queried j with batchSize := b.batchSize / 2 } where
  le := h.le
  size := by
    have hsize := UInt64.le_iff_toNat_le.mp h.size
    rw [UInt64.le_iff_toNat_le]
    change (b.batchSize / 2).toNat ≤ _
    rw [UInt64.toNat_div]
    exact (Nat.div_le_self _ _).trans hsize
  tiles := by simpa [Batch.queried, ranges, he] using h.tiles
  stored := by simpa [Batch.queried, storedLogs, answered, he] using h.stored

section After
variable {logs : List Log} {block : Block}

theorem ranges_after (h : b.answer j = .ok logs) :
    ranges (b.after j logs block).calls =
      ranges b.calls ++ [(b.i, b.dst j)] := by
  simp [Batch.after, Batch.moved, Batch.record, Batch.queried, ranges, h]

theorem stored_after (hstored : storedLogs b.calls = answered b.calls) (h : b.answer j = .ok logs) :
    storedLogs (b.after j logs block).calls = answered (b.after j logs block).calls := by
  simpa [Batch.after, Batch.moved, Batch.record, Batch.queried, storedLogs, answered, h] using hstored

theorem storedBlocks_after : storedBlocks (b.after j logs block).calls = storedBlocks b.calls ++ [block] := by
  simp [Batch.after, Batch.moved, Batch.record, Batch.queried, storedBlocks]

variable (h : Sound j start b) (hfit : j.limit.toNat + j.BatchSize.toNat + 1 < 2 ^ 64)
include h hfit

theorem Sound.fits : b.i.toNat + b.batchSize.toNat + 1 < 2 ^ 64 := by
  have hi := UInt64.le_iff_toNat_le.mp h.le
  have hsize := UInt64.le_iff_toNat_le.mp h.size
  omega

theorem Sound.tiles_after (hlogs : b.answer j = .ok logs) :
    Tiles start.toNat ((b.dst j).toNat + 1) (ranges (b.after j logs block).calls) := by
  have hsum := h.fits hfit
  have hi := UInt64.le_iff_toNat_le.mp h.le
  rw [ranges_after hlogs]
  refine Tiles.concat (r := (b.i, b.dst j)) h.tiles rfl ?_
  change b.i ≤ b.dst j
  rw [UInt64.le_iff_toNat_le, dst_toNat (by omega)]
  exact le_min hi (by omega)

theorem Sound.after (hlogs : b.answer j = .ok logs) (hnext : (b.after j logs block).i ≤ j.limit) :
    Sound j start (b.after j logs block) where
  le := hnext
  size := after_batchSize_le logs block h.size
  tiles := by
    have hsum := h.fits hfit
    have hle := UInt64.le_iff_toNat_le.mp hnext
    rw [after_i_toNat logs block hsum] at hle ⊢
    have hdst : (b.dst j).toNat = b.i.toNat + b.batchSize.toNat := by
      rw [dst_toNat (by omega)]
      exact Nat.min_eq_right (by omega)
    rw [← hdst]
    exact h.tiles_after hfit hlogs
  stored := stored_after h.stored hlogs

theorem Sound.dst_last (hlast : ¬(b.after j logs block).i ≤ j.limit) : b.dst j = j.limit := by
  have hsum := h.fits hfit
  rw [UInt64.le_iff_toNat_le, after_i_toNat logs block hsum] at hlast
  rw [← UInt64.toNat_inj, dst_toNat (by omega)]
  exact Nat.min_eq_left (by omega)

end After

theorem Reached.sound (hle : start ≤ j.limit) (hfit : j.limit.toNat + j.BatchSize.toNat + 1 < 2 ^ 64)
    (h : Reached j start b) : Sound j start b := by
  induction h with
  | first => exact sound_initial hle
  | next _ hturn ih =>
    obtain ⟨e, he, -, rfl⟩ | ⟨logs, block, hsucc, rfl, hnext⟩ := turn_start hturn
    · exact ih.halved he
    · exact ih.after hfit hsucc.getLogs hnext

variable {fuel : ℕ}

theorem Reached.loop_none (hb : Reached j start b) (hrun : loop j fuel b = some (none, b')) :
    ∃ b, Reached j start b ∧ turn j b = .returns none b' := by
  induction fuel generalizing b with
  | zero => cases hrun
  | succ fuel ih =>
    rw [loop] at hrun
    cases hturn : turn j b with
    | start b'' =>
      rw [hturn] at hrun
      exact ih (hb.next hturn) hrun
    | returns err b'' =>
      rw [hturn] at hrun
      cases hrun
      exact ⟨b, hb, hturn⟩

theorem syncBatch_none (hrun : syncBatch j start fuel = some (none, b')) :
    ∃ b logs block, Reached j start b ∧ Succeeds j b logs block ∧ b' = b.after j logs block ∧ ¬b'.i ≤ j.limit := by
  obtain ⟨b, hb, hturn⟩ := Reached.first.loop_none hrun
  obtain ⟨logs, block, hsucc, hafter, hlast⟩ := turn_returns_none hturn
  exact ⟨b, logs, block, hb, hsucc, hafter, hlast⟩

theorem tiles_of_none (hle : start ≤ j.limit) (hfit : j.limit.toNat + j.BatchSize.toNat + 1 < 2 ^ 64)
    (hrun : syncBatch j start fuel = some (none, b)) : Tiles start.toNat (j.limit.toNat + 1) (ranges b.calls) := by
  obtain ⟨b, logs, block, hb, hsucc, rfl, hlast⟩ := syncBatch_none hrun
  have hsound := hb.sound hle hfit
  have hdst := hsound.dst_last hfit hlast
  have htiles : Tiles start.toNat ((b.dst j).toNat + 1) (ranges (b.after j logs block).calls) :=
    hsound.tiles_after hfit hsucc.getLogs
  rw [hdst] at htiles
  exact htiles

/-- **A batch sync that returns without an error has queried each block once.** The ranges of the successful
queries make up the whole range, in order; their logs are stored once each, in that order; and the last
block that is stored is the one that the node has for the end of the range. -/
theorem syncBatch_covers_once (hle : start ≤ j.limit) (hfit : j.limit.toNat + j.BatchSize.toNat + 1 < 2 ^ 64)
    (fuel : ℕ) (hrun : syncBatch j start fuel = some (none, b)) :
    Covers start j.limit (ranges b.calls) ∧ storedLogs b.calls = answered b.calls ∧
      ∃ k block, (storedBlocks b.calls).getLast? = some block ∧
        j.answers.getBlockByNumber k (blockNumber j.limit) = .ok block ∧
        ((∀ k block, j.answers.getBlockByNumber k (blockNumber j.limit) = .ok block → block.Number = j.limit.toNat) →
          block.Number = j.limit.toNat) := by
  refine ⟨(tiles_of_none hle hfit hrun).covers, ?_⟩
  obtain ⟨b, logs, block, hb, hsucc, rfl, hlast⟩ := syncBatch_none hrun
  have hsound := hb.sound hle hfit
  have hblock := hsucc.getBlockByNumber
  rw [hsound.dst_last hfit hlast] at hblock
  refine ⟨stored_after hsound.stored hsucc.getLogs, b.queries, block, ?_, hblock, fun hserves => ?_⟩
  · rw [storedBlocks_after, List.getLast?_concat]
  · exact hserves b.queries block hblock

def pairs : Answers where
  getLogs _ i dst :=
    if dst - i ≤ 1 then .ok [] else .error (.errorObject "query returned more than 10000 results")
  storeLogs _ := none
  getBlockByNumber _ n := .ok { Number := n.toNat, Hash := Hash.zero, ParentHash := Hash.zero }
  storeLastBlock _ := none
  ctxErr _ := none

def pairsJob : Job := { BatchSize := 3, additiveFactor := 0, limit := 7, answers := pairs }

/-- A first query for four blocks is cut. -/
theorem syncBatch_covers_once_cut :
    ∃ b, syncBatch pairsJob 2 4 = some (none, b) ∧ ranges b.calls = [(2, 3), (4, 5), (6, 7)] ∧
      Covers 2 7 (ranges b.calls) ∧ storedLogs b.calls = answered b.calls ∧
      ∃ block, (storedBlocks b.calls).getLast? = some block ∧ block.Number = 7 := by
  refine ⟨_, rfl, rfl, ?_⟩
  obtain ⟨hcovers, hstored, k, block, hlast, -, hnumber⟩ :=
    @syncBatch_covers_once pairsJob 2 _ (by decide) (by decide) 4 rfl
  refine ⟨hcovers, hstored, block, hlast, hnumber fun _ block hblock => ?_⟩
  cases hblock
  rfl

end Runs

/-! ## Termination -/

section Termination
variable {j : Job} {start : UInt64} {b b' : Batch}

theorem Reached.le (hle : start ≤ j.limit) (h : Reached j start b) : b.i ≤ j.limit := by
  induction h with
  | first => exact hle
  | next _ hturn ih =>
    obtain ⟨e, -, -, rfl⟩ | ⟨logs, block, -, rfl, hnext⟩ := turn_start hturn
    · exact ih
    · exact hnext

theorem Reached.goes_on (h : Reached j start b) : ∀ fuel, syncBatch j start (b.queries + fuel) = loop j fuel b := by
  induction h with
  | first =>
    intro fuel
    rw [syncBatch, initial, Nat.zero_add]
  | @next b b' _ hturn ih =>
    intro fuel
    rw [queries_of_start hturn, Nat.add_right_comm, Nat.add_assoc, ih (fuel + 1), loop, hturn]

variable {fuel : ℕ} {result : Option CallError × Batch}

theorem loop_add (extra : ℕ) (h : loop j fuel b = some result) : loop j (fuel + extra) b = some result := by
  induction fuel generalizing b with
  | zero => cases h
  | succ fuel ih =>
    rw [Nat.add_right_comm, loop]
    rw [loop] at h
    cases hturn : turn j b with
    | start b' =>
      rw [hturn] at h
      exact ih h
    | returns err b' =>
      rw [hturn] at h
      exact h

theorem Reached.queries_lt (h : Reached j start b) (hrun : syncBatch j start fuel = some result) :
    b.queries < fuel := by
  by_contra hge
  have hmore := loop_add (b.queries - fuel) hrun
  rw [Nat.add_sub_cancel' (by omega)] at hmore
  have hend := h.goes_on 0
  rw [Nat.add_zero, syncBatch, hmore] at hend
  cases hend

theorem reached_or_returned (n : ℕ) :
    (∃ err b, syncBatch j start n = some (err, b)) ∨ ∃ b, Reached j start b ∧ b.queries = n := by
  induction n with
  | zero => exact .inr ⟨_, .first, rfl⟩
  | succ n ih =>
    obtain ⟨err, b, hrun⟩ | ⟨b, hb, hn⟩ := ih
    · exact .inl ⟨err, b, loop_add 1 hrun⟩
    · cases hturn : turn j b with
      | start b' => exact .inr ⟨b', hb.next hturn, by rw [queries_of_start hturn, hn]⟩
      | returns err b' =>
        refine .inl ⟨err, b', ?_⟩
        rw [← hn, hb.goes_on 1, loop, hturn]

/-- The node refuses the queries for certain ranges, and no others. -/
def Answers.Refuses (answers : Answers) (refused : UInt64 → UInt64 → Bool) : Prop :=
  ∀ k i dst, refused i dst = true ↔ ∃ e, answers.getLogs k i dst = .error e ∧ tooMuchDataRequestedError e = true

section Refusals
variable {refused : UInt64 → UInt64 → Bool}

section
variable (hrefuses : j.answers.Refuses refused)
include hrefuses

theorem loop_stuck (hle : b.i ≤ j.limit) (hzero : b.batchSize = 0) (hrefused : refused b.i b.i = true) (fuel : ℕ) :
    loop j fuel b = none := by
  induction fuel generalizing b with
  | zero => rfl
  | succ fuel ih =>
    obtain ⟨e, he, hmuch⟩ := (hrefuses b.queries b.i b.i).mp hrefused
    have hanswer : b.answer j = .error e := by rw [Batch.answer, dst_of_zero hle hzero, he]
    rw [loop, turn, hanswer]
    dsimp only
    rw [if_pos hmuch]
    refine ih hle ?_ hrefused
    change b.batchSize / 2 = 0
    rw [hzero]
    rfl

def Batch.left (j : Job) (b : Batch) : ℕ := (j.limit.toNat + 1 - b.i.toNat) * 2 ^ 64 + b.batchSize.toNat

/-- While the cursor does not wrap around and no single block is refused, a turn that goes on leaves less
to do: the cursor moves, or it stays and the piece gets smaller. -/
theorem left_decreases (hle : b.i ≤ j.limit)
    (hfit : b.i.toNat + b.batchSize.toNat + 1 < 2 ^ 64) (hsingle : b.batchSize = 0 → refused b.i b.i = false)
    (hturn : turn j b = .start b') : b'.left j < b.left j := by
  have hi := UInt64.le_iff_toNat_le.mp hle
  obtain ⟨e, he, hmuch, rfl⟩ | ⟨logs, block, -, rfl, hin⟩ := turn_start hturn
  · have hpos : b.batchSize.toNat ≠ 0 := by
      intro hzero
      have hsize : b.batchSize = 0 := UInt64.toNat_inj.mp hzero
      rw [Batch.answer, dst_of_zero hle hsize] at he
      have hrefused := (hrefuses b.queries b.i b.i).mpr ⟨e, he, hmuch⟩
      rw [hsingle hsize] at hrefused
      cases hrefused
    change (j.limit.toNat + 1 - b.i.toNat) * 2 ^ 64 + (b.batchSize / 2).toNat < b.left j
    rw [Batch.left, UInt64.toNat_div]
    exact Nat.add_lt_add_left (Nat.div_lt_self (by omega) (by decide)) _
  · have hnext : (b.after j logs block).i.toNat =
        b.i.toNat + b.batchSize.toNat + 1 := after_i_toNat logs block hfit
    have hin := UInt64.le_iff_toNat_le.mp hin
    generalize b.after j logs block = b' at hnext hin ⊢
    have hsize := b'.batchSize.toNat_lt
    rw [Batch.left, Batch.left]
    calc (j.limit.toNat + 1 - b'.i.toNat) * 2 ^ 64 + b'.batchSize.toNat
        < (j.limit.toNat + 1 - b'.i.toNat + 1) * 2 ^ 64 := by omega
      _ ≤ (j.limit.toNat + 1 - b.i.toNat) * 2 ^ 64 := Nat.mul_le_mul_right _ (by omega)
      _ ≤ (j.limit.toNat + 1 - b.i.toNat) * 2 ^ 64 + b.batchSize.toNat := Nat.le_add_right _ _

variable (hle : start ≤ j.limit) (hsingle : ∀ b, Reached j start b → b.batchSize = 0 → refused b.i b.i = false)
include hle hsingle

theorem Reached.returns {n : ℕ}
    (hfit : ∀ b, Reached j start b → n ≤ b.queries → b.i.toNat + b.batchSize.toNat + 1 < 2 ^ 64) :
    ∀ (left : ℕ) (b : Batch), b.left j = left → Reached j start b →
      n ≤ b.queries → ∃ fuel err b', loop j fuel b = some (err, b') := by
  intro left
  induction left using Nat.strong_induction_on with
  | _ left ih =>
    intro b hleft hb hn
    cases hturn : turn j b with
    | start b' =>
      have hless := left_decreases hrefuses (hb.le hle) (hfit b hb hn) (hsingle b hb) hturn
      rw [hleft] at hless
      obtain ⟨fuel, err, b'', hrun⟩ := ih _ hless b' rfl (hb.next hturn) (by rw [queries_of_start hturn]; omega)
      exact ⟨fuel + 1, err, b'', by rw [loop, hturn, ← hrun]⟩
    | returns err b' => exact ⟨1, err, b', by rw [loop, hturn]⟩

theorem returns_of_unrefused
    (hfit : ∃ n, ∀ b, Reached j start b → n ≤ b.queries → b.i.toNat + b.batchSize.toNat + 1 < 2 ^ 64) :
    ∃ fuel err b, syncBatch j start fuel = some (err, b) := by
  obtain ⟨n, hn⟩ := hfit
  obtain ⟨err, b, hrun⟩ | ⟨b, hb, hq⟩ := reached_or_returned n
  · exact ⟨n, err, b, hrun⟩
  · obtain ⟨fuel, err, b', hrun⟩ := Reached.returns hrefuses hle hsingle hn _ b rfl hb hq.ge
    exact ⟨b.queries + fuel, err, b', by rw [hb.goes_on, hrun]⟩

end

/-- **When a batch sync returns**: no single block that it asks for on its own is refused, and its cursor
wraps around only finitely often. The second holds if the numbers are far from the end of `uint64`; then
an answer without an error means that each block was in a query that succeeded. A context that is
cancelled at the last query makes it an error. -/
theorem syncBatch_returns_iff (hrefuses : j.answers.Refuses refused) (hle : start ≤ j.limit) :
    ((∃ fuel err b, syncBatch j start fuel = some (err, b)) ↔
      (∀ b, Reached j start b → b.batchSize = 0 → refused b.i b.i = false) ∧
      ∃ n, ∀ b, Reached j start b → n ≤ b.queries →
        b.i.toNat + b.batchSize.toNat + 1 < 2 ^ 64) ∧
    (j.limit.toNat + j.BatchSize.toNat + 1 < 2 ^ 64 →
      (∀ b, Reached j start b → b.i.toNat + b.batchSize.toNat + 1 < 2 ^ 64) ∧
      ∀ fuel b, syncBatch j start fuel = some (none, b) →
        ∀ n, start ≤ n → n ≤ j.limit → ∃ r ∈ ranges b.calls, r.1 ≤ n ∧ n ≤ r.2) ∧
    ∀ fuel b, syncBatch j start fuel = some (none, b) →
      j.answers.ctxErr (b.queries - 1) = none := by
  refine ⟨⟨?_, fun h => returns_of_unrefused hrefuses hle h.1 h.2⟩, fun hfit => ⟨?_, ?_⟩, ?_⟩
  · rintro ⟨fuel, err, b, hrun⟩
    refine ⟨fun b hb hzero => ?_, fuel, fun b hb hn => ?_⟩
    · by_contra hrefused
      have hmore := loop_add b.queries hrun
      rw [Nat.add_comm] at hmore
      have hstuck := hb.goes_on fuel
      rw [loop_stuck hrefuses (hb.le hle) hzero (Bool.of_not_eq_false hrefused), syncBatch, hmore] at hstuck
      cases hstuck
    · exact absurd (hb.queries_lt hrun) (by omega)
  · exact fun b hb => (hb.sound hle hfit).fits hfit
  · intro fuel b hrun n hfirst hlast
    exact ((tiles_of_none hle hfit hrun).covers.union n).mpr ⟨hfirst, hlast⟩
  · intro fuel b hrun
    obtain ⟨b, logs, block, -, hsucc, rfl, -⟩ := syncBatch_none hrun
    exact hsucc.ctxErr

end Refusals

theorem pairs_refuses : pairs.Refuses fun i dst => decide (¬dst - i ≤ 1) := by
  intro k i dst
  by_cases h : dst - i ≤ 1
  · simp [pairs, h]
  · simp [pairs, h, tooMuchDataRequestedError]

theorem pairs_reached (h : Reached pairsJob 2 b) :
    (b.i, b.batchSize) ∈ [(2, 3), (2, 1), (4, 1), ((6, 1) : UInt64 × UInt64)] := by
  induction h with
  | first => decide
  | @next b b' _ hturn ih =>
    obtain ⟨i, batchSize, queries, calls⟩ := b
    simp only [List.mem_cons, List.not_mem_nil, or_false, Prod.mk.injEq] at ih
    obtain ⟨rfl, rfl⟩ | ⟨rfl, rfl⟩ | ⟨rfl, rfl⟩ | ⟨rfl, rfl⟩ := ih
    all_goals simp [turn, pairsJob, pairs, Batch.answer, Batch.dst, min, tooMuchDataRequestedError, Batch.queried, Batch.moved,
      Batch.record] at hturn
    all_goals subst hturn
    all_goals simp

/-- A first query for four blocks is refused, and those for two blocks are not. -/
theorem syncBatch_returns_pairs :
    pairs.getLogs 0 2 5 = .error (.errorObject "query returned more than 10000 results") ∧
      ∃ fuel err b, syncBatch pairsJob 2 fuel = some (err, b) := by
  refine ⟨rfl, (@syncBatch_returns_iff pairsJob 2 _ pairs_refuses (by decide)).1.mpr ⟨?_, 0, ?_⟩⟩
  · intro b hb hzero
    have hreached := pairs_reached hb
    rw [hzero] at hreached
    simp at hreached
  · intro b hb _
    have hsmall : ∀ r ∈ [(2, 3), (2, 1), (4, 1), ((6, 1) : UInt64 × UInt64)],
        r.1.toNat + r.2.toNat + 1 < 2 ^ 64 := by simp
    exact hsmall _ (pairs_reached hb)

def crowded : Answers where
  getLogs _ _ _ := .error (.errorObject "query returned more than 10000 results")
  storeLogs _ := none
  getBlockByNumber _ _ := .error (.other "not found")
  storeLastBlock _ := none
  ctxErr _ := some (.other "context canceled")

def crowdedJob : Job := { BatchSize := 1, additiveFactor := 0, limit := 5, answers := crowded }

theorem crowded_refuses : crowded.Refuses fun _ _ => true := by
  intro k i dst
  simp [crowded, tooMuchDataRequestedError]

/-- The size of the piece drops to zero, and the sync never returns. -/
theorem syncBatch_crowded_never_returns : ¬∃ fuel err b, syncBatch crowdedJob 5 fuel = some (err, b) := by
  rintro ⟨fuel, err, b, hrun⟩
  cases fuel with
  | zero => cases hrun
  | succ fuel =>
    have hstuck : syncBatch crowdedJob 5 (fuel + 1) = none :=
      loop_stuck crowded_refuses (by decide) rfl rfl fuel
    rw [hstuck] at hrun
    cases hrun

end Termination

/-! ## The section of `Sync` -/

section Section

/-- The answers of a provider. Every call of a store succeeds, and the context is not cancelled. -/
def Answers.of (provider : Provider) (config : FilterConfig) : Answers where
  getLogs _ i dst :=
    (provider.getLogs { config.getFilterSearch with From := some i.toNat, To := some dst.toNat }).mapError .errorObject
  storeLogs _ := none
  getBlockByNumber _ n := (provider.getBlockByNumber n.toNat).mapError .other
  storeLastBlock _ := none
  ctxErr _ := none

def CallError.text : CallError → String
  | .errorObject Message => Message
  | .other text => text

/-- What a call does to the store. -/
def Call.stores (hash : String) (s : Store) : Call → Store
  | .storeLogs logs => s.storeLogs hash logs
  | .storeLastBlock block => s.storeLastBlock hash block
  | _ => s

/-- Where `Sync` is after a turn, and what is stored. -/
def Turn.point (config : FilterConfig) (limit : UInt64) (s : Store) : Turn → SyncPoint × Store
  | .start b => (.batch b.i.toNat b.batchSize.toNat limit.toNat, b.calls.foldl (Call.stores config.Hash) s)
  | .returns none b => (.relock (limit.toNat + 1), b.calls.foldl (Call.stores config.Hash) s)
  | .returns (some e) b => (.failed e.text, b.calls.foldl (Call.stores config.Hash) s)

theorem tooMuch_ErrorObject (e : String) :
    tooMuchDataRequestedError (.errorObject e) = Tracker.tooMuchDataRequestedError e := rfl

theorem blockNumber_toNat {n : UInt64} (h : n.toNat < 2 ^ 63) : (blockNumber n).toNat = n.toNat := by
  have hn : blockNumber n = n.toNat := by
    rw [blockNumber, BitVec.toInt_eq_toNat_of_lt (by rw [UInt64.toNat_toBitVec]; omega), UInt64.toNat_toBitVec]
  rw [hn, Int.toNat_natCast]

variable {j : Job} {b : Batch}

theorem after_batchSize_toNat (logs : List Log) (block : Block) :
    (b.after j logs block).batchSize.toNat =
      if b.batchSize.toNat < j.BatchSize.toNat then
        Min.min j.BatchSize.toNat ((b.batchSize.toNat + j.additiveFactor.toNat) % 2 ^ 64)
      else b.batchSize.toNat := by
  change (if b.batchSize < j.BatchSize then min j.BatchSize (b.batchSize + j.additiveFactor) else b.batchSize).toNat = _
  by_cases h : b.batchSize < j.BatchSize
  · rw [if_pos h, if_pos (UInt64.lt_iff_toNat_lt.mp h), toNat_min, UInt64.toNat_add]
  · rw [if_neg h, if_neg (fun hlt => h (UInt64.lt_iff_toNat_lt.mpr hlt))]

/-- **A turn is a section of `Sync`**, for a last block whose number fits in an `int`. -/
theorem syncBatch_eq_turn (t : Tracker) (provider : Provider) (config : FilterConfig) (s : Store)
    (b : Batch) (hsize : t.config.BatchSize = j.BatchSize.toNat)
    (hfactor : t.config.additiveFactor = j.additiveFactor.toNat) (hlimit : j.limit.toNat < 2 ^ 63)
    (hof : j.answers = .of provider config) :
    Tracker.syncBatch t provider config (b.calls.foldl (Call.stores config.Hash) s) b.i.toNat b.batchSize.toNat
        j.limit.toNat =
      (turn j b).point config j.limit s := by
  have hdst : (b.dst j).toNat = Min.min j.limit.toNat ((b.i.toNat + b.batchSize.toNat) % 2 ^ 64) := by
    rw [Batch.dst, toNat_min, UInt64.toNat_add]
  have hnumber : (blockNumber (b.dst j)).toNat = (b.dst j).toNat := blockNumber_toNat (by omega)
  have hanswer : b.answer j = (provider.getLogs { config.getFilterSearch with
      From := some b.i.toNat, To := some (b.dst j).toNat }).mapError .errorObject := by
    rw [Batch.answer, hof]
    rfl
  have hblock : (Answers.of provider config).getBlockByNumber b.queries (blockNumber (b.dst j)) =
      (provider.getBlockByNumber (b.dst j).toNat).mapError .other := by
    rw [← hnumber]
    rfl
  rw [Tracker.syncBatch, turn, hanswer, hof, ← hdst]
  cases provider.getLogs _ with
  | error e =>
    dsimp only [Except.mapError]
    rw [tooMuch_ErrorObject]
    by_cases hmuch : Tracker.tooMuchDataRequestedError e = true
    · rw [if_pos hmuch, if_pos hmuch]
      simp [Turn.point, Batch.queried, Call.stores]
    · rw [if_neg hmuch, if_neg hmuch]
      simp [Turn.point, Batch.queried, Call.stores, CallError.text]
  | ok logs =>
    dsimp only [Except.mapError, Answers.of] at hblock ⊢
    rw [hblock]
    cases provider.getBlockByNumber _ with
    | error e => simp [Turn.point, Batch.queried, Batch.record, Call.stores, CallError.text]
    | ok block =>
      change _ = Turn.point config j.limit s
        (if (b.after j logs block).i ≤ j.limit then .start (b.after j logs block)
          else .returns none (b.after j logs block))
      have hi : (b.after j logs block).i.toNat = (b.i.toNat + b.batchSize.toNat + 1) % 2 ^ 64 := by
        rw [after_i, UInt64.toNat_add, UInt64.toNat_add, UInt64.toNat_one]
        omega
      have hgrown : (b.after j logs block).batchSize.toNat = _ := after_batchSize_toNat logs block
      have hstore : (b.after j logs block).calls.foldl (Call.stores config.Hash) s =
          ((b.calls.foldl (Call.stores config.Hash) s).storeLogs config.Hash logs).storeLastBlock config.Hash block := by
        simp [Batch.after, Batch.moved, Batch.record, Batch.queried, Call.stores]
      dsimp only
      by_cases hmore : (b.after j logs block).i ≤ j.limit
      · rw [if_pos hmore, if_pos (hi.symm.trans_le (UInt64.le_iff_toNat_le.mp hmore)), Turn.point, hi, hgrown, hstore,
          hsize, hfactor]
      · rw [if_neg hmore, if_neg (fun hle => hmore (UInt64.le_iff_toNat_le.mpr (hi.trans_le hle))), Turn.point, hstore]

end Section

end Web3.Tracker.Batches
