import Web3.Foundations.Outcome
import Web3.Primitives

/-! # The blocks of a tracker

The part of `tracker.go` that follows the head of the chain: `t.blocks` is a window of its last blocks,
and `handleBlockEvent` moves it to a new head. An error does not undo what was done before it, so
functions that change the window return it next to their result. Block numbers are natural numbers:
they stay far below `2 ^ 64`. -/

namespace Web3.Tracker

structure Block where
  Number : ℕ
  Hash : Web3.Hash
  ParentHash : Web3.Hash
  deriving DecidableEq

structure Log where
  BlockHash : Hash
  BlockNumber : ℕ
  LogIndex : ℕ
  Address : Web3.Address
  Topics : List Hash
  Data : Bytes
  deriving DecidableEq

structure LogFilter where
  BlockHash : Option Hash
  From : Option ℕ
  To : Option ℕ
  Address : List Web3.Address
  Topics : List (List Hash)

/-- The calls that a tracker makes on a node. -/
structure Provider where
  getBlockByHash : Hash → Except String Block
  getBlockByNumber : ℕ → Except String Block
  getLogs : LogFilter → Except String (List Log)

structure BlockEvent where
  Added : List Block
  Removed : List Block

/-! ## Reconciling -/

def blockAtIndex (blocks : List Block) (hash : Hash) : Option ℕ := blocks.findIdx? (·.Hash = hash)

/-- The loop that looks for a known ancestor, with the number of rounds it may still make. -/
def backfill (provider : Provider) (blocks : List Block) : ℕ → Block → List Block → Except String (List Block × ℕ)
  | 0, _, _ => .error "cannot reconcile more than max backlog values"
  | rounds + 1, block, added =>
    match provider.getBlockByHash block.ParentHash with
    | .error _ => .error ("parent with hash " ++ block.ParentHash.string ++ " not found")
    | .ok parent =>
      let added := added ++ [parent]
      match blockAtIndex blocks parent.ParentHash with
      | some indx => .ok (added, indx)
      | none => backfill provider blocks rounds parent added

/-- The blocks to add, and the index of the block after which they come if blocks must be removed. -/
def handleReconcileImpl (MaxBlockBacklog : ℕ) (provider : Provider) (blocks : List Block)
    (block : Block) : Except String (List Block × Option ℕ) :=
  if (blockAtIndex blocks block.Hash).isSome then .ok ([], none)
  else
    match blocks.getLast? with
    | none => .ok ([block], none)
    | some last =>
      if last.Hash = block.ParentHash then .ok ([block], none)
      else
        match blockAtIndex blocks block.ParentHash with
        | some indx => .ok ([block], some indx)
        | none => do
          -- the loop ends when `count` exceeds the backlog, after one round more than that
          let (added, indx) ← backfill provider blocks (MaxBlockBacklog + 1) block [block]
          .ok (added.reverse, some indx)

/-! ## Moving the window -/

/-- Add a block at the end of the window. A full window loses its first block. -/
def addBlockLocked (MaxBlockBacklog : ℕ) (blocks : List Block) (block : Block) : Outcome Unit × List Block :=
  if blocks.length = MaxBlockBacklog ∧ blocks = [] then
    (.panic "runtime error: slice bounds out of range", blocks)
  else
    let blocks := if blocks.length = MaxBlockBacklog then blocks.drop 1 else blocks
    match blocks.getLast? with
    | none => (.ok (), blocks ++ [block])
    | some last =>
      if last.Number + 1 ≠ block.Number then
        (.err ("bad number sequence. " ++ toString last.Number ++ " and " ++ toString block.Number), blocks)
      else (.ok (), blocks ++ [block])

def addBlocks (MaxBlockBacklog : ℕ) : List Block → List Block → Outcome Unit × List Block
  | blocks, [] => (.ok (), blocks)
  | blocks, block :: rest =>
    match addBlockLocked MaxBlockBacklog blocks block with
    | (.ok _, blocks) => addBlocks MaxBlockBacklog blocks rest
    | stopped => stopped

def keptBlocks (blocks : List Block) : Option ℕ → List Block
  | some indx => blocks.take (indx + 1)
  | none => blocks

def removedBlocks (blocks : List Block) : Option ℕ → List Block
  | some indx => blocks.drop (indx + 1)
  | none => []

/-- The event, if the head has changed, and the window afterwards. -/
def handleBlockEvent (MaxBlockBacklog : ℕ) (provider : Provider) (blocks : List Block)
    (block : Block) : Outcome (Option BlockEvent) × List Block :=
  match handleReconcileImpl MaxBlockBacklog provider blocks block with
  | .error err => (.err err, blocks)
  | .ok ([], _) => (.ok none, blocks)
  | .ok (b :: added, indx) =>
    let event := { Added := b :: added, Removed := removedBlocks blocks indx }
    match addBlocks MaxBlockBacklog (keptBlocks blocks indx) (b :: added) with
    | (.ok _, blocks) => (.ok (some event), blocks)
    | (.err err, blocks) => (.err err, blocks)
    | (.panic p, blocks) => (.panic p, blocks)

end Web3.Tracker
