import Web3.Tracker.Blocks

/-! # The filters of a tracker

Every filter has an entry of logs in the store, under the hash of its configuration, and next to it the
last block that was processed. `handleReconcile` moves the window and brings the entries of the
synced filters up to date. What a call has stored before an error stays stored. Sending on the
channels is not part of the model: the events given to `emitEvent` are returned. The repeated attempts
of a query of logs are one attempt, since the node does not change during a call. -/

namespace Web3.Tracker
set_option linter.dupNamespace false

/-! ## Data -/

structure FilterConfig where
  Address : List Web3.Address
  Topics : List (Option Hash)
  Start : ℕ
  Hash : String

structure Filter where
  synced : Bool
  config : FilterConfig

structure Event where
  Added : List Log
  Removed : List Log

/-- Entries of logs by hash, and the last block of each. -/
structure Store where
  entries : String → List Log
  lastBlock : String → Option Block

/-- The configuration. `syncBatch` computes `additiveFactor` from `BatchSize` with a product of floating
point numbers; here it is any number. -/
structure Config where
  BatchSize : ℕ
  MaxBlockBacklog : ℕ
  additiveFactor : ℕ := BatchSize / 10

structure Tracker where
  config : Config
  blocks : List Block
  filters : List Filter
  store : Store

namespace Store

def storeLogs (s : Store) (hash : String) (logs : List Log) : Store :=
  { s with entries := Function.update s.entries hash (s.entries hash ++ logs) }

/-- Remove all the logs starting at an index. -/
def removeLogs (s : Store) (hash : String) (indx : ℕ) : Store :=
  { s with entries := Function.update s.entries hash ((s.entries hash).take indx) }

def storeLastBlock (s : Store) (hash : String) (b : Block) : Store :=
  { s with lastBlock := Function.update s.lastBlock hash (some b) }

end Store

def parseTopic (topic : List (Option Hash)) : List (List Hash) := topic.map Option.toList

def FilterConfig.getFilterSearch (f : FilterConfig) : LogFilter :=
  { BlockHash := none
    From := none
    To := none
    Address := f.Address
    Topics := parseTopic f.Topics }

/-! ## Removing logs -/

def logStays (number : ℕ) (hash : Option Hash) (log : Log) : Bool :=
  (log.BlockNumber = number && hash.any (log.BlockHash ≠ ·)) || log.BlockNumber < number

/-- The loop of `removeLogs`, down from an index: the index from which logs are removed, and these logs,
last one first. -/
def removeLoop (entry : List Log) (number : ℕ) (hash : Option Hash) : ℕ → List Log → ℕ × List Log
  | 0, remove => (0, remove)
  | elemIndex + 1, remove =>
    match entry[elemIndex]? with
    | none => (elemIndex + 1, remove)
    | some log =>
      if logStays number hash log then (elemIndex + 1, remove)
      else removeLoop entry number hash elemIndex (remove ++ [log])

def removeLogs (config : FilterConfig) (s : Store) (number : ℕ) (hash : Option Hash) : List Log × Store :=
  let entry := s.entries config.Hash
  let (index, remove) := removeLoop entry number hash entry.length []
  (remove, s.removeLogs config.Hash index)

def revertLogs (logs : List Log) : List Log := logs.reverse

/-! ## Processing blocks -/

def storeAdded (provider : Provider) (config : FilterConfig) : Store → List Block → Except String (List Log) × Store
  | s, [] => (.ok [], s)
  | s, block :: rest =>
    match provider.getLogs { config.getFilterSearch with BlockHash := some block.Hash } with
    | .error e => (.error e, s)
    | .ok logs =>
      match storeAdded provider config (s.storeLogs config.Hash logs) rest with
      | (.error e, s) => (.error e, s)
      | (.ok more, s) => (.ok (logs ++ more), s)

/-- The event for a filter, and the store afterwards. -/
def doFilter (provider : Provider) (config : FilterConfig) (s : Store) (added removed : List Block) :
    Outcome Event × Store :=
  let (removedLogs, s) := match removed with
    | [] => ([], s)
    | pivot :: _ =>
      let (logs, s) := removeLogs config s pivot.Number (some pivot.Hash)
      (revertLogs logs, s)
  match storeAdded provider config s added with
  | (.error e, s) => (.err e, s)
  | (.ok logs, s) =>
    match added.getLast? with
    | none => (.panic "runtime error: index out of range", s)
    | some b => (.ok { Added := logs, Removed := removedLogs }, s.storeLastBlock config.Hash b)

/-- Process an event for the synced ones of the filters, whose first one has the given number. -/
def dispatch (provider : Provider) (event : BlockEvent) : ℕ → List Filter → Store → Outcome (List (ℕ × Event)) × Store
  | _, [], s => (.ok [], s)
  | i, filter :: filters, s =>
    if filter.synced then
      match doFilter provider filter.config s event.Added event.Removed with
      | (.ok evnt, s) =>
        match dispatch provider event (i + 1) filters s with
        | (.ok evnts, s) => (.ok ((i, evnt) :: evnts), s)
        | (.err e, s) => (.err e, s)
        | (.panic p, s) => (.panic p, s)
      | (.err e, s) => (.err e, s)
      | (.panic p, s) => (.panic p, s)
    else dispatch provider event (i + 1) filters s

/-- The events that are emitted, each with the number of its filter, and the tracker afterwards. -/
def handleReconcile (t : Tracker) (provider : Provider) (block : Block) : Outcome (List (ℕ × Event)) × Tracker :=
  match handleBlockEvent t.config.MaxBlockBacklog provider t.blocks block with
  | (.err e, blocks) => (.err e, { t with blocks })
  | (.panic p, blocks) => (.panic p, { t with blocks })
  | (.ok none, blocks) => (.ok [], { t with blocks })
  | (.ok (some event), blocks) =>
    match dispatch provider event 0 t.filters t.store with
    | (evnts, store) => (evnts, { t with blocks, store })

end Web3.Tracker
