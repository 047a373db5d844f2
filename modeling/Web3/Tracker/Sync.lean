import Web3.Tracker.Filters

/-! # Syncing a filter next to the live tracker

`Sync` brings the entry of a filter to the head of the window, and then sets its flag. It holds the lock
on the window while it looks at it, and gives it up during bulk queries and before it sets the flag.
`handleReconcile` holds the lock only while it moves the window. So both are sequences of atomic steps,
which other steps may come between.

Not in the model: the check of the genesis block, which comes before all this; the cancelling of a
context (see `Batches`); Etherscan, which by default is not used (see `FastTrack`). Block numbers are natural
numbers; the sums of `syncBatch` are those of a `uint64`. -/

namespace Web3.Tracker

/-! ## The sections of `Sync` -/

/-- Where a call of `Sync` is. -/
inductive SyncPoint where
  /-- It has not taken the lock yet. -/
  | start
  /-- In `syncBatch`, without the lock: the next query starts at `i`, and `limit` is the last block. -/
  | batch (i batchSize limit : ℕ)
  /-- After `syncBatch`, about to take the lock again. -/
  | relock (origin : ℕ)
  /-- `syncImpl` has returned, and the flag is not set yet. -/
  | unlocked
  | done
  | failed (err : String)
  | panicked (err : String)
  deriving DecidableEq

/-- The number of a common ancestor, with the number of rounds that may still be made. -/
def findAncestor (MaxBlockBacklog : ℕ) (provider : Provider) : ℕ → Block → Block → Except String ℕ
  | 0, _, _ => .error ("the reorg is bigger than maxBlockBacklog " ++ toString MaxBlockBacklog)
  | rounds + 1, block, pivot =>
    if block.Number ≠ pivot.Number then .error "block numbers do not match"
    else if block.Hash = pivot.Hash then .ok block.Number
    else do
      let block ← provider.getBlockByHash block.ParentHash
      let pivot ← provider.getBlockByHash pivot.ParentHash
      findAncestor MaxBlockBacklog provider rounds block pivot

/-- The block to start from, if the configuration has one. -/
def fastTrack (provider : Provider) (config : FilterConfig) : Except String (Option Block) :=
  if config.Start ≠ 0 then do
    let bb ← provider.getBlockByNumber config.Start
    .ok (some bb)
  else .ok none

section Sections
variable (t : Tracker) (provider : Provider) (config : FilterConfig)

variable (s : Store) (targetNum origin : ℕ)

/-- The end of `syncImpl`: process the blocks of the window from `origin` on. -/
def syncHead : SyncPoint × Store :=
  if t.blocks.length < targetNum + 1 - origin then
    (.panicked "runtime error: slice bounds out of range", s)
  else
    let added := t.blocks.drop (t.blocks.length - (targetNum + 1 - origin))
    match doFilter provider config s added [] with
    | (.ok _, s) => (.unlocked, s)
    | (.err e, s) => (.failed e, s)
    | (.panic p, s) => (.panicked p, s)

def syncLoop : SyncPoint × Store :=
  if origin > targetNum then
    (.failed ("from (" ++ toString origin ++ ") higher than to (" ++ toString targetNum ++ ")"), s)
  else if targetNum - origin + 1 ≤ t.config.MaxBlockBacklog then
    syncHead t provider config s targetNum origin
  else (.batch origin t.config.BatchSize (targetNum - t.config.MaxBlockBacklog), s)

def syncFrom : SyncPoint × Store :=
  if targetNum + 1 - origin > t.config.MaxBlockBacklog then
    syncLoop t provider config s targetNum origin
  else syncHead t provider config s targetNum origin

/-- Go on after the last block that was processed, or after an ancestor of it on the chain. -/
def syncAfter (s : Store) (targetNum : ℕ) (last : Block) : SyncPoint × Store :=
  if last.Number > targetNum then (.failed "store is more advanced than the chain", s)
  else
    match provider.getBlockByNumber last.Number with
    | .error e => (.failed e, s)
    | .ok pivot =>
      if pivot.Hash ≠ last.Hash then
        match findAncestor t.config.MaxBlockBacklog provider t.config.MaxBlockBacklog last pivot with
        | .error e => (.failed e, s)
        | .ok ancestor =>
          let (_, s) := removeLogs config s (ancestor + 1) none
          match provider.getBlockByNumber ancestor with
          | .error e => (.failed e, s)
          | .ok _ => syncFrom t provider config s targetNum (ancestor + 1)
      else
        syncFrom t provider config s targetNum
          (if last.Number = targetNum then last.Number else last.Number + 1)

/-- `syncImpl` up to where it first gives up the lock. -/
def syncImpl : SyncPoint × Store :=
  match t.blocks.getLast? with
  | none => (.unlocked, t.store)
  | some target =>
    match t.store.lastBlock config.Hash with
    | some last =>
      if last.Hash = target.Hash then (.unlocked, t.store)
      else syncAfter t provider config t.store target.Number last
    | none =>
      match fastTrack provider config with
      | .error e => (.failed ("failed to fasttrack: " ++ e), t.store)
      | .ok none => syncFrom t provider config t.store target.Number 0
      | .ok (some last) =>
        syncAfter t provider config (t.store.storeLastBlock config.Hash last) target.Number last

def tooMuchDataRequestedError (err : String) : Bool := err = "query returned more than 10000 results"

/-- One query of `syncBatch`. -/
def syncBatch (s : Store) (i batchSize limit : ℕ) : SyncPoint × Store :=
  let dst := min limit ((i + batchSize) % 2 ^ 64)
  match provider.getLogs { config.getFilterSearch with From := some i, To := some dst } with
  | .error e =>
    if tooMuchDataRequestedError e then (.batch i (batchSize / 2) limit, s) else (.failed e, s)
  | .ok logs =>
    let s := s.storeLogs config.Hash logs
    match provider.getBlockByNumber dst with
    | .error e => (.failed e, s)
    | .ok block =>
      let s := s.storeLastBlock config.Hash block
      let i := (i + batchSize + 1) % 2 ^ 64
      if i ≤ limit then
        -- after a decrease the size grows again
        (.batch i (if batchSize < t.config.BatchSize then
          min t.config.BatchSize ((batchSize + t.config.additiveFactor) % 2 ^ 64) else batchSize) limit, s)
      else (.relock (limit + 1), s)

def syncRelock (origin : ℕ) : SyncPoint × Store :=
  match t.blocks.getLast? with
  | none => (.panicked "runtime error: index out of range", t.store)
  | some target => syncLoop t provider config t.store target.Number origin

/-- The next section of `Sync`; `none` if the next thing it does is to set the flag, or it is over. -/
def syncSection : SyncPoint → Option (SyncPoint × Store)
  | .start => some (syncImpl t provider config)
  | .batch i batchSize limit => some (syncBatch t provider config t.store i batchSize limit)
  | .relock origin => some (syncRelock t provider config origin)
  | _ => none

end Sections

/-! ## Steps -/

/-- A tracker, a call of `Sync` for one filter, and a sequence of calls of `handleReconcile`. The node's
chain ends with block number `top`, and `pending` is the event between the two steps of a call. -/
structure System where
  tracker : Tracker
  top : ℕ
  sync : SyncPoint
  pending : Option BlockEvent

inductive Action where
  /-- The node gets a block. -/
  | grow
  /-- `handleReconcile` moves the window. -/
  | head (provider : Provider) (block : Block)
  /-- `handleReconcile` passes the event to the synced filters. -/
  | dispatch (provider : Provider)
  /-- The next section of `Sync`. -/
  | sync (provider : Provider)
  /-- `Sync` sets the flag. -/
  | setSynced

/-- A step, for a `Sync` of the filter with number `i`. An action whose turn it is not does nothing. -/
def System.step (i : ℕ) (s : System) : Action → System
  | .grow => { s with top := s.top + 1 }
  | .head provider block =>
    match s.pending with
    | some _ => s
    | none =>
      match handleBlockEvent s.tracker.config.MaxBlockBacklog provider s.tracker.blocks block with
      | (.ok event, blocks) => { s with tracker := { s.tracker with blocks }, pending := event }
      | (_, blocks) => { s with tracker := { s.tracker with blocks } }
  | .dispatch provider =>
    match s.pending with
    | none => s
    | some event =>
      let (_, store) := Tracker.dispatch provider event 0 s.tracker.filters s.tracker.store
      { s with tracker := { s.tracker with store }, pending := none }
  | .sync provider =>
    match s.tracker.filters[i]? with
    | none => s
    | some filter =>
      match syncSection s.tracker provider filter.config s.sync with
      | none => s
      | some (sync, store) => { s with tracker := { s.tracker with store }, sync }
  | .setSynced =>
    match s.sync with
    | .unlocked =>
      { s with
        tracker := { s.tracker with
          filters := s.tracker.filters.modify i fun f => { f with synced := true } }
        sync := .done }
    | _ => s

def System.run (i : ℕ) (s : System) (actions : List Action) : System := actions.foldl (System.step i) s

end Web3.Tracker
