import Web3.Tracker.Reorgs
import Web3.Tracker.Sync

/-! # The order of removed logs

Two callers of `removeLogs` report what it took from an entry: `doFilter`, when the window has lost
blocks, and `syncImpl`, when the last block of the store is no longer on the chain. `removeLogs` walks down
from the end of the entry, so its result is in reverse order. `doFilter` turns it around and `syncImpl`
does not.

`Sync` only follows the store, so `syncImpl` is written once more here, with the events it emits. -/

namespace Web3.Tracker

/-! ## Events -/

inductive EventType where
  | eventAdd | eventDel

def emitLogs (typ : EventType) (logs : List Log) : Event :=
  match typ with
  | .eventAdd => { Added := logs, Removed := [] }
  | .eventDel => { Added := [], Removed := logs }

section Sections
variable (t : Tracker) (provider : Provider) (config : FilterConfig)

variable (s : Store) (targetNum origin : ℕ)

def syncHeadEvents : List Event × SyncPoint × Store :=
  if t.blocks.length < targetNum + 1 - origin then
    ([], .panicked "runtime error: slice bounds out of range", s)
  else
    let added := t.blocks.drop (t.blocks.length - (targetNum + 1 - origin))
    match doFilter provider config s added [] with
    | (.ok evnt, s) => ([evnt], .unlocked, s)
    | (.err e, s) => ([], .failed e, s)
    | (.panic p, s) => ([], .panicked p, s)

def syncLoopEvents : List Event × SyncPoint × Store :=
  if origin > targetNum then
    ([], .failed ("from (" ++ toString origin ++ ") higher than to (" ++ toString targetNum ++ ")"), s)
  else if targetNum - origin + 1 ≤ t.config.MaxBlockBacklog then
    syncHeadEvents t provider config s targetNum origin
  else ([], .batch origin t.config.BatchSize (targetNum - t.config.MaxBlockBacklog), s)

def syncFromEvents : List Event × SyncPoint × Store :=
  if targetNum + 1 - origin > t.config.MaxBlockBacklog then
    syncLoopEvents t provider config s targetNum origin
  else syncHeadEvents t provider config s targetNum origin

def syncAfterEvents (s : Store) (targetNum : ℕ) (last : Block) : List Event × SyncPoint × Store :=
  if last.Number > targetNum then ([], .failed "store is more advanced than the chain", s)
  else
    match provider.getBlockByNumber last.Number with
    | .error e => ([], .failed e, s)
    | .ok pivot =>
      if pivot.Hash ≠ last.Hash then
        match findAncestor t.config.MaxBlockBacklog provider t.config.MaxBlockBacklog last pivot with
        | .error e => ([], .failed e, s)
        | .ok ancestor =>
          let (logs, s) := removeLogs config s (ancestor + 1) none
          let evnt := emitLogs .eventDel logs
          match provider.getBlockByNumber ancestor with
          | .error e => ([evnt], .failed e, s)
          | .ok _ =>
            let (evnts, r) := syncFromEvents t provider config s targetNum (ancestor + 1)
            (evnt :: evnts, r)
      else
        syncFromEvents t provider config s targetNum
          (if last.Number = targetNum then last.Number else last.Number + 1)

/-- `syncImpl` up to where it first gives up the lock, with the events it emits. -/
def syncImplEvents : List Event × SyncPoint × Store :=
  match t.blocks.getLast? with
  | none => ([], .unlocked, t.store)
  | some target =>
    match t.store.lastBlock config.Hash with
    | some last =>
      if last.Hash = target.Hash then ([], .unlocked, t.store)
      else syncAfterEvents t provider config t.store target.Number last
    | none =>
      match fastTrack provider config with
      | .error e => ([], .failed ("failed to fasttrack: " ++ e), t.store)
      | .ok none => syncFromEvents t provider config t.store target.Number 0
      | .ok (some last) =>
        syncAfterEvents t provider config (t.store.storeLastBlock config.Hash last) target.Number last

end Sections

/-! ## The same steps as in `Sync` -/

section Same
variable {t : Tracker} {provider : Provider} {config : FilterConfig}

theorem syncHeadEvents_snd (s : Store) (targetNum origin : ℕ) :
    (syncHeadEvents t provider config s targetNum origin).2 = syncHead t provider config s targetNum origin := by
  unfold syncHeadEvents syncHead
  split
  · rfl
  · dsimp only
    rcases doFilter provider config s (t.blocks.drop (t.blocks.length - (targetNum + 1 - origin))) [] with
      ⟨_ | _ | _, s'⟩ <;> rfl

theorem syncFromEvents_snd (s : Store) (targetNum origin : ℕ) :
    (syncFromEvents t provider config s targetNum origin).2 = syncFrom t provider config s targetNum origin := by
  unfold syncFromEvents syncFrom
  split
  · unfold syncLoopEvents syncLoop
    split
    · rfl
    · split
      · exact syncHeadEvents_snd s targetNum origin
      · rfl
  · exact syncHeadEvents_snd s targetNum origin

theorem syncAfterEvents_snd (s : Store) (targetNum : ℕ) (last : Block) :
    (syncAfterEvents t provider config s targetNum last).2 = syncAfter t provider config s targetNum last := by
  unfold syncAfterEvents syncAfter
  split
  · rfl
  · cases provider.getBlockByNumber last.Number with
    | error e => rfl
    | ok pivot =>
      dsimp only
      split
      · cases findAncestor t.config.MaxBlockBacklog provider t.config.MaxBlockBacklog last pivot with
        | error e => rfl
        | ok ancestor =>
          dsimp only
          cases provider.getBlockByNumber ancestor with
          | error e => rfl
          | ok b => exact syncFromEvents_snd _ targetNum (ancestor + 1)
      · exact syncFromEvents_snd s targetNum _

theorem syncImplEvents_snd : (syncImplEvents t provider config).2 = syncImpl t provider config := by
  unfold syncImplEvents syncImpl
  cases t.blocks.getLast? with
  | none => rfl
  | some target =>
    dsimp only
    cases t.store.lastBlock config.Hash with
    | some last =>
      dsimp only
      split
      · rfl
      · exact syncAfterEvents_snd t.store target.Number last
    | none =>
      dsimp only
      cases fastTrack provider config with
      | error e => rfl
      | ok start =>
        cases start with
        | none => exact syncFromEvents_snd t.store target.Number 0
        | some last => exact syncAfterEvents_snd _ target.Number last

end Same

/-! ## What is removed -/

/-- The logs that a call of `removeLogs` takes from the end of an entry. -/
def removedSuffix (config : FilterConfig) (s : Store) (number : ℕ) (hash : Option Hash) : List Log :=
  (s.entries config.Hash).drop ((removeLogs config s number hash).2.entries config.Hash).length

theorem removeLoop_eq (entry : List Log) (number : ℕ) (hash : Option Hash) {n : ℕ} (hn : n ≤ entry.length)
    (remove : List Log) :
    ∃ i ≤ n, removeLoop entry number hash n remove = (i, remove ++ ((entry.take n).drop i).reverse) := by
  induction n generalizing remove with
  | zero => exact ⟨0, le_rfl, by rw [removeLoop, List.take_zero, List.drop_nil, List.reverse_nil, List.append_nil]⟩
  | succ n ih =>
    have hstop : removeLoop entry number hash (n + 1) remove = (n + 1, remove) →
        ∃ i ≤ n + 1, removeLoop entry number hash (n + 1) remove =
          (i, remove ++ ((entry.take (n + 1)).drop i).reverse) := fun h => by
      refine ⟨n + 1, le_rfl, ?_⟩
      rw [h, List.drop_of_length_le (List.length_take_le _ _), List.reverse_nil, List.append_nil]
    have hget : entry[n]? = some (entry.get ⟨n, hn⟩) := List.getElem?_eq_getElem hn
    by_cases hstays : logStays number hash (entry.get ⟨n, hn⟩) = true
    · refine hstop ?_
      rw [removeLoop, hget]
      exact if_pos hstays
    · obtain ⟨i, hi, hloop⟩ := ih (Nat.le_of_succ_le hn) (remove ++ [entry.get ⟨n, hn⟩])
      refine ⟨i, Nat.le_succ_of_le hi, ?_⟩
      have htake : entry.take (n + 1) = entry.take n ++ [entry.get ⟨n, hn⟩] := List.take_succ_eq_append_getElem hn
      rw [removeLoop, hget]
      dsimp only
      rw [if_neg hstays, hloop, htake, List.drop_append_of_le_length (by rw [List.length_take]; omega),
        List.reverse_append, List.reverse_singleton, List.append_assoc]

theorem removeLogs_fst (config : FilterConfig) (s : Store) (number : ℕ) (hash : Option Hash) :
    (removeLogs config s number hash).1 = (removedSuffix config s number hash).reverse := by
  obtain ⟨i, hi, hloop⟩ := removeLoop_eq (s.entries config.Hash) number hash le_rfl []
  rw [removedSuffix, removeLogs, hloop, List.take_length, List.nil_append]
  dsimp only
  rw [Store.entries_removeLogs, List.length_take_of_le hi]

/-- By block, and in a block by index. -/
def ChainOrder (entry : List Log) : Prop :=
  entry.Pairwise fun a b => a.BlockNumber < b.BlockNumber ∨ a.BlockNumber = b.BlockNumber ∧ a.LogIndex < b.LogIndex

variable {entry : List Log} {s : Store}

theorem ChainOrder.numbers (h : ChainOrder entry) : entry.Pairwise fun a b => a.BlockNumber ≤ b.BlockNumber :=
  h.imp fun hab => hab.elim le_of_lt fun heq => heq.1.le

theorem ChainOrder.nodup (h : ChainOrder entry) : entry.Nodup := by
  refine h.imp fun hab heq => ?_
  rw [heq] at hab
  rcases hab with hlt | ⟨-, hlt⟩
  · exact lt_irrefl _ hlt
  · exact lt_irrefl _ hlt

theorem removedSuffix_eq_filter {config : FilterConfig} (h : ChainOrder (s.entries config.Hash)) (number : ℕ) :
    removedSuffix config s number none = (s.entries config.Hash).filter fun log => number ≤ log.BlockNumber := by
  have hsplit := filter_lt_append_filter_le h.numbers number
  have hstay : ∀ log ∈ (s.entries config.Hash).filter (fun log => log.BlockNumber < number),
      logStays number none log = true := fun log hlog => logStays_of_lt (of_decide_eq_true (List.mem_filter.mp hlog).2)
  have hgo : ∀ log ∈ (s.entries config.Hash).filter (fun log => number ≤ log.BlockNumber),
      logStays number none log = false := by
    intro log hlog
    have hle := of_decide_eq_true (List.mem_filter.mp hlog).2
    rw [logStays, decide_eq_false (not_lt.mpr hle), Option.any_none, Bool.and_false, Bool.or_false]
  have hremove := removeLogs_ok hsplit.symm hstay hgo
  have hdrop : ((s.entries config.Hash).filter (fun log => log.BlockNumber < number) ++
      (s.entries config.Hash).filter fun log => number ≤ log.BlockNumber).drop
        ((s.entries config.Hash).filter fun log => log.BlockNumber < number).length =
      (s.entries config.Hash).filter fun log => number ≤ log.BlockNumber := List.drop_left
  rw [hsplit] at hdrop
  rw [removedSuffix, hremove]
  dsimp only
  rw [Store.entries_removeLogs, List.length_take_of_le (List.length_filter_le _ _), hdrop]

/-! ## Both paths -/

section Paths
variable {t : Tracker} {provider : Provider} {config : FilterConfig} {ancestor : ℕ}

/-- `syncImpl` finds that the last block of the store has left the chain at the given block. -/
structure RollsBack (t : Tracker) (provider : Provider) (config : FilterConfig) (ancestor : ℕ) : Prop where
  found : ∃ target last pivot, t.blocks.getLast? = some target ∧ t.store.lastBlock config.Hash = some last ∧
    last.Hash ≠ target.Hash ∧ last.Number ≤ target.Number ∧
    provider.getBlockByNumber last.Number = .ok pivot ∧ pivot.Hash ≠ last.Hash ∧
    findAncestor t.config.MaxBlockBacklog provider t.config.MaxBlockBacklog last pivot = .ok ancestor

theorem RollsBack.event (h : RollsBack t provider config ancestor) : ∃ evnts, (syncImplEvents t provider config).1 =
      { Added := [], Removed := (removeLogs config t.store (ancestor + 1) none).1 } :: evnts := by
  obtain ⟨target, last, pivot, htarget, hlast, hne, hle, hpivot, hhash, hancestor⟩ := h.found
  have hafter : syncImplEvents t provider config = syncAfterEvents t provider config t.store target.Number last := by
    rw [syncImplEvents, htarget, hlast]
    exact if_neg hne
  rw [hafter, syncAfterEvents, if_neg (Nat.not_lt.mpr hle), hpivot]
  dsimp only
  rw [if_pos hhash, hancestor]
  dsimp only
  cases provider.getBlockByNumber ancestor with
  | error | ok => exact ⟨_, rfl⟩

theorem doFilter_removed {s' : Store} {added rest : List Block} {pivot : Block} {evnt : Event}
    (h : doFilter provider config s added (pivot :: rest) = (.ok evnt, s')) :
    evnt.Removed = (removeLogs config s pivot.Number (some pivot.Hash)).1.reverse := by
  rw [doFilter] at h
  dsimp only at h
  rcases hstore : storeAdded provider config (removeLogs config s pivot.Number (some pivot.Hash)).2 added with
    ⟨_ | logs, s₁⟩
  · rw [hstore] at h
    cases h
  · rw [hstore] at h
    cases hlast : added.getLast? with
    | none =>
      rw [hlast] at h
      cases h
    | some b =>
      rw [hlast] at h
      cases h
      rfl

/-- The event of `syncImpl` and that of `doFilter` both report the removed end of an entry in the order of
the chain if and only if the entry has at most one log above the block where `syncImpl` goes on. -/
theorem removed_in_chain_order_iff (hroll : RollsBack t provider config ancestor)
    (horder : ChainOrder (t.store.entries config.Hash)) {added rest : List Block} {pivot : Block} {evnt : Event}
    {s' : Store} (hfilter : doFilter provider config t.store added (pivot :: rest) = (.ok evnt, s')) :
    ((∃ e ∈ (syncImplEvents t provider config).1.head?, e.Removed = removedSuffix config t.store (ancestor + 1) none) ∧
      evnt.Removed = removedSuffix config t.store pivot.Number (some pivot.Hash)) ↔
      ((t.store.entries config.Hash).filter fun log => ancestor < log.BlockNumber).length ≤ 1 := by
  have hevnt : evnt.Removed = removedSuffix config t.store pivot.Number (some pivot.Hash) := by
    rw [doFilter_removed hfilter, removeLogs_fst, List.reverse_reverse]
  have hsuffix := removedSuffix_eq_filter horder (ancestor + 1)
  obtain ⟨evnts, hevents⟩ := hroll.event
  rw [removeLogs_fst] at hevents
  have hshort := reverse_eq_self_iff_length_le (horder.nodup.filter fun log => ancestor + 1 ≤ log.BlockNumber)
  rw [← hsuffix] at hshort
  have hsync : (∃ e ∈ (syncImplEvents t provider config).1.head?,
      e.Removed = removedSuffix config t.store (ancestor + 1) none) ↔
        (removedSuffix config t.store (ancestor + 1) none).reverse =
          removedSuffix config t.store (ancestor + 1) none := by
    rw [hevents]
    simp
  rw [and_iff_left hevnt, hsync, hshort, hsuffix]
  rfl

end Paths

/-! ## A store that missed a reorganisation -/

/-- Two branches over one root: block `n` of a branch has the hash `10 * branch + n`. -/
def branchBlock (branch : UInt8) : ℕ → Block
  | 0 => { Number := 0, Hash := bytesToHash [], ParentHash := bytesToHash [] }
  | 1 => { Number := 1, Hash := bytesToHash [10 * branch + 1], ParentHash := bytesToHash [] }
  | n + 2 =>
    { Number := n + 2
      Hash := bytesToHash [10 * branch + UInt8.ofNat (n + 2)]
      ParentHash := bytesToHash [10 * branch + UInt8.ofNat (n + 1)] }

def branches : List Block := [1, 2].flatMap fun branch => (List.range 4).map (branchBlock branch)

def branchNode : Provider :=
  { getBlockByHash := byHash branches
    getBlockByNumber := fun n => .ok (branchBlock 2 n)
    getLogs := fun _ => .ok [] }

def branchLog (branch : UInt8) (n : ℕ) : Log :=
  { BlockHash := (branchBlock branch n).Hash
    BlockNumber := n
    LogIndex := 0
    Address := bytesToAddress []
    Topics := []
    Data := [] }

def branchConfig : FilterConfig := { Address := [], Topics := [], Start := 0, Hash := "" }

def staleTracker (logs : List Log) : Tracker :=
  { config := { BatchSize := 1, MaxBlockBacklog := 10 }
    blocks := [1, 2, 3].map (branchBlock 2)
    filters := []
    store := { entries := fun _ => logs, lastBlock := fun _ => some (branchBlock 1 2) } }

theorem staleTracker_rollsBack (logs : List Log) : RollsBack (staleTracker logs) branchNode branchConfig 0 where
  found := ⟨branchBlock 2 3, branchBlock 1 2, branchBlock 2 2, rfl, rfl, by decide, by decide, rfl, by decide, rfl⟩

/-- One log is above the root. -/
theorem removed_in_chain_order_one :
    (∃ e ∈ (syncImplEvents (staleTracker [branchLog 1 2]) branchNode branchConfig).1.head?,
        e.Removed = removedSuffix branchConfig (staleTracker [branchLog 1 2]).store 1 none) ∧
      [branchLog 1 2] = removedSuffix branchConfig (staleTracker [branchLog 1 2]).store 2
        (some (branchBlock 1 2).Hash) := by
  have horder : ChainOrder ((staleTracker [branchLog 1 2]).store.entries branchConfig.Hash) :=
    List.pairwise_singleton _ _
  have hfilter : doFilter branchNode branchConfig (staleTracker [branchLog 1 2]).store [branchBlock 2 1]
      [branchBlock 1 2] = (.ok { Added := [], Removed := [branchLog 1 2] }, _) := rfl
  exact (removed_in_chain_order_iff (staleTracker_rollsBack _) horder hfilter).mpr (by decide)

/-- With two logs, `syncImpl` reports the later one first. -/
theorem syncImpl_removes_backwards : RollsBack (staleTracker [branchLog 1 1, branchLog 1 2]) branchNode branchConfig 0 ∧
      ChainOrder [branchLog 1 1, branchLog 1 2] ∧
      (syncImplEvents (staleTracker [branchLog 1 1, branchLog 1 2]) branchNode branchConfig).1.head?.map
        Event.Removed = some [branchLog 1 2, branchLog 1 1] ∧
      removedSuffix branchConfig (staleTracker [branchLog 1 1, branchLog 1 2]).store 1 none =
        [branchLog 1 1, branchLog 1 2] ∧
      [branchLog 1 2, branchLog 1 1] ≠ [branchLog 1 1, branchLog 1 2] := by
  refine ⟨staleTracker_rollsBack _, ?_, rfl, rfl, by decide⟩
  exact List.pairwise_pair.mpr (.inl (by decide))

end Web3.Tracker
