import Web3.Tracker.Restart

/-! # The first `Sync` of a filter with a start block

A filter with `Start` and nothing stored begins at that block. If it is the head of the chain its own logs
are fetched; if it is not, only those of the blocks after it. What `Sync` fetches does not depend on the
logs that are stored already: these stay in front. -/

namespace Web3.Tracker

/-! ## Logs stored before -/

variable (s : Store)

def Store.prepend (hash : String) (logs : List Log) : Store :=
  { s with entries := Function.update s.entries hash (logs ++ s.entries hash) }

def System.prepend (s : System) (hash : String) (logs : List Log) : System :=
  { s with tracker := { s.tracker with store := s.tracker.store.prepend hash logs } }

section Frame
variable {t : Tracker} {provider : Provider} {config : FilterConfig} {logs : List Log}

namespace Store

theorem entries_prepend (hash : String) (logs : List Log) :
    (s.prepend hash logs).entries hash = logs ++ s.entries hash := Function.update_self ..

theorem storeLogs_prepend (hash : String) (logs new : List Log) :
    (s.prepend hash logs).storeLogs hash new = (s.storeLogs hash new).prepend hash logs := by
  rw [storeLogs, entries_prepend, prepend, prepend, entries_storeLogs, storeLogs, Function.update_idem,
    Function.update_idem, List.append_assoc]

end Store

theorem storeAdded_prepend (blocks : List Block) :
    storeAdded provider config (s.prepend config.Hash logs) blocks =
      (storeAdded provider config s blocks).map id (·.prepend config.Hash logs) := by
  induction blocks generalizing s with
  | nil => rfl
  | cons block rest ih =>
    rw [storeAdded, storeAdded]
    cases provider.getLogs _ with
    | error e => rfl
    | ok new =>
      dsimp only
      rw [Store.storeLogs_prepend, ih]
      rcases storeAdded provider config (s.storeLogs config.Hash new) rest with ⟨_ | _, _⟩ <;> rfl

theorem doFilter_prepend (added : List Block) :
    doFilter provider config (s.prepend config.Hash logs) added [] =
      (doFilter provider config s added []).map id (·.prepend config.Hash logs) := by
  rw [doFilter, doFilter, storeAdded_prepend]
  rcases storeAdded provider config s added with ⟨_ | _, _⟩
  · rfl
  · cases added.getLast? <;> rfl

variable (s : Store) (targetNum origin : ℕ)

theorem syncHead_prepend :
    syncHead t provider config (s.prepend config.Hash logs) targetNum origin =
      (syncHead t provider config s targetNum origin).map id (·.prepend config.Hash logs) := by
  rw [syncHead, syncHead]
  split
  · rfl
  · dsimp only
    rw [doFilter_prepend]
    rcases doFilter provider config s _ [] with ⟨_ | _ | _, _⟩ <;> rfl

theorem syncLoop_prepend :
    syncLoop t provider config (s.prepend config.Hash logs) targetNum origin =
      (syncLoop t provider config s targetNum origin).map id (·.prepend config.Hash logs) := by
  rw [syncLoop, syncLoop]
  split
  · rfl
  · split
    · exact syncHead_prepend s targetNum origin
    · rfl

theorem syncFrom_prepend :
    syncFrom t provider config (s.prepend config.Hash logs) targetNum origin =
      (syncFrom t provider config s targetNum origin).map id (·.prepend config.Hash logs) := by
  rw [syncFrom, syncFrom]
  split
  · exact syncLoop_prepend s targetNum origin
  · exact syncHead_prepend s targetNum origin

theorem syncBatch_prepend (i batchSize limit : ℕ) :
    syncBatch t provider config (s.prepend config.Hash logs) i batchSize limit =
      (syncBatch t provider config s i batchSize limit).map id (·.prepend config.Hash logs) := by
  rw [syncBatch, syncBatch]
  dsimp only
  cases provider.getLogs _ with
  | error e =>
    dsimp only
    split <;> rfl
  | ok new =>
    dsimp only
    rw [Store.storeLogs_prepend]
    cases provider.getBlockByNumber _ with
    | error e => rfl
    | ok block =>
      dsimp only
      split <;> rfl

/-! No section goes back to the beginning. -/

theorem syncHead_ne_start : (syncHead t provider config s targetNum origin).1 ≠ .start := by
  rw [syncHead]
  split
  · exact SyncPoint.noConfusion
  · dsimp only
    rcases doFilter provider config s _ [] with ⟨_ | _ | _, _⟩ <;> exact SyncPoint.noConfusion

theorem syncLoop_ne_start : (syncLoop t provider config s targetNum origin).1 ≠ .start := by
  rw [syncLoop]
  split
  · exact SyncPoint.noConfusion
  · split
    · exact syncHead_ne_start s targetNum origin
    · exact SyncPoint.noConfusion

theorem syncFrom_ne_start : (syncFrom t provider config s targetNum origin).1 ≠ .start := by
  rw [syncFrom]
  split
  · exact syncLoop_ne_start s targetNum origin
  · exact syncHead_ne_start s targetNum origin

theorem syncBatch_ne_start (i batchSize limit : ℕ) :
    (syncBatch t provider config s i batchSize limit).1 ≠ .start := by
  rw [syncBatch]
  dsimp only
  cases provider.getLogs _ with
  | error e =>
    dsimp only
    split <;> exact SyncPoint.noConfusion
  | ok new =>
    dsimp only
    cases provider.getBlockByNumber _ with
    | error e => exact SyncPoint.noConfusion
    | ok block =>
      dsimp only
      split <;> exact SyncPoint.noConfusion

theorem syncRelock_prepend (origin : ℕ) :
    syncRelock { t with store := t.store.prepend config.Hash logs } provider config origin =
      (syncRelock t provider config origin).map id (·.prepend config.Hash logs) := by
  rw [syncRelock, syncRelock]
  cases t.blocks.getLast? with
  | none => rfl
  | some target => exact syncLoop_prepend t.store target.Number origin

theorem syncRelock_ne_start (origin : ℕ) : (syncRelock t provider config origin).1 ≠ .start := by
  rw [syncRelock]
  cases t.blocks.getLast? with
  | none => exact SyncPoint.noConfusion
  | some target => exact syncLoop_ne_start t.store target.Number origin

theorem syncSection_prepend {point : SyncPoint} (hpoint : point ≠ .start) :
    syncSection { t with store := t.store.prepend config.Hash logs } provider config point =
        (syncSection t provider config point).map (Prod.map id (·.prepend config.Hash logs)) ∧
      ∀ r ∈ syncSection t provider config point, r.1 ≠ .start := by
  cases point with
  | start => exact absurd rfl hpoint
  | batch i batchSize limit =>
    refine ⟨congrArg some (syncBatch_prepend t.store i batchSize limit), fun r hr => ?_⟩
    cases hr
    exact syncBatch_ne_start t.store i batchSize limit
  | relock origin =>
    refine ⟨congrArg some (syncRelock_prepend origin), fun r hr => ?_⟩
    cases hr
    exact syncRelock_ne_start origin
  | unlocked | done | failed | panicked => exact ⟨rfl, fun r hr => by cases hr⟩

variable {i : ℕ} {filter : Filter} {s : System}

theorem step_prepend (provider : Provider) (logs : List Log) (hfilter : s.tracker.filters[i]? = some filter)
    (hsync : s.sync ≠ .start) :
    (s.prepend filter.config.Hash logs).step i (.sync provider) =
        (s.step i (.sync provider)).prepend filter.config.Hash logs ∧
      (s.step i (.sync provider)).sync ≠ .start ∧
      (s.step i (.sync provider)).tracker.filters = s.tracker.filters := by
  obtain ⟨hframe, hstart⟩ := @syncSection_prepend s.tracker provider filter.config logs s.sync hsync
  cases hsection : syncSection s.tracker provider filter.config s.sync with
  | none =>
    rw [hsection] at hframe
    rw [System.step_sync_idle (s := s) hfilter hsection,
      System.step_sync_idle (s := s.prepend filter.config.Hash logs) hfilter hframe]
    exact ⟨rfl, hsync, rfl⟩
  | some r =>
    rw [hsection] at hframe hstart
    rw [System.step_sync_moves (s := s) hfilter hsection,
      System.step_sync_moves (s := s.prepend filter.config.Hash logs) hfilter hframe]
    exact ⟨rfl, hstart r rfl, rfl⟩

/-- **Logs stored before stay in front**, and change nothing else. -/
theorem run_prepend (providers : List Provider) (logs : List Log) (hfilter : s.tracker.filters[i]? = some filter)
    (hsync : s.sync ≠ .start) :
    (s.prepend filter.config.Hash logs).run i (providers.map .sync) =
      (s.run i (providers.map .sync)).prepend filter.config.Hash logs := by
  induction providers generalizing s with
  | nil => rfl
  | cons provider providers ih =>
    obtain ⟨hstep, hnext, hfilters⟩ := step_prepend provider logs hfilter hsync
    change ((s.prepend filter.config.Hash logs).step i (.sync provider)).run i (providers.map .sync) = _
    rw [hstep]
    exact ih (by rw [hfilters, hfilter]) hnext

end Frame

/-! ## One first run -/

/-- A first `Sync` with the last block of a chain as head: nothing is stored for the filter, the window is as
`populateBlocks` leaves it, no sum of `syncBatch` overflows, and the node serves the chain for as long as the
call needs. -/
structure FirstSync (tree : LogTree) (chain : List Block) (t : Tracker) (i : ℕ) (filter : Filter)
    (providers : List Provider) : Prop where
  window : ∃ head provider, chain.getLast? = some head ∧ provider.Finds chain ∧
    populateBlocks t.config.MaxBlockBacklog provider (.ok head) = .ok (t.blocks.map some)
  fits : chain.length + t.config.BatchSize ≤ 2 ^ 64
  listed : t.filters[i]? = some filter
  empty : t.store.entries filter.config.Hash = [] ∧ t.store.lastBlock filter.config.Hash = none
  serves : ∀ p ∈ providers, p.ServesChain tree chain
  enough : sectionsLeft t.config.BatchSize chain.length .start ≤ providers.length

/-- The call, section by section, up to setting the flag. -/
def firstSync (t : Tracker) (i : ℕ) (providers : List Provider) : System :=
  System.run i { tracker := t, top := 0, sync := .start, pending := none } (providers.map .sync ++ [.setSynced])

def startOrigin (Start head : ℕ) : ℕ := if Start = head then Start else Start + 1

theorem FromGenesis.of_prefix {chain blocks : List Block} (h : FromGenesis chain) (hp : blocks <+: chain) :
    FromGenesis blocks := by
  refine ⟨ h.linked.prefix hp, fun n b hb => h.numbered n b ?_⟩
  obtain ⟨rest, rfl⟩ := hp
  rw [List.getElem?_append_left (List.getElem?_eq_some_iff.mp hb).1, hb]

section Closed
variable {tree : LogTree} {chain : List Block} {t : Tracker} {i : ℕ} {filter : Filter} {providers : List Provider}
  {provider : Provider} {config : FilterConfig}

theorem FirstSync.blocks (h : FirstSync tree chain t i filter providers) (hchain : FromGenesis chain)
    (hlong : 2 ≤ chain.length) : t.blocks = chain.rtake t.config.MaxBlockBacklog := by
  obtain ⟨head, provider, hhead, hfinds, hwindow⟩ := h.window
  exact eq_rtake_of_populateBlocks hchain hfinds hlong hhead hwindow

theorem syncImpl_first (hchain : FromGenesis chain) (hserves : provider.ServesChain tree chain)
    (hwindow : t.blocks = chain.rtake t.config.MaxBlockBacklog) (hM : 1 ≤ t.config.MaxBlockBacklog)
    (hlast : t.store.lastBlock config.Hash = none) (hstart : config.Start ≠ 0) {b : Block}
    (hb : chain[config.Start]? = some b) :
    syncImpl t provider config = syncFrom t provider config (t.store.storeLastBlock config.Hash b) (chain.length - 1)
      (startOrigin config.Start (chain.length - 1)) := by
  obtain ⟨hlt, -⟩ := List.getElem?_eq_some_iff.mp hb
  obtain ⟨head, hhead, hnumber⟩ := hchain.exists_head (List.ne_nil_of_length_pos (by omega))
  have hbnumber := hchain.numbered _ _ hb
  rw [syncImpl, hwindow, getLast?_rtake hM, hhead]
  dsimp only
  rw [hlast, fastTrack, if_pos hstart, hserves.byNumber _ _ hb]
  change syncAfter t provider config _ head.Number b = _
  rw [syncAfter, hbnumber, hnumber, if_neg (by omega), hserves.byNumber _ _ hb]
  dsimp only
  rw [if_neg (not_not.mpr rfl), startOrigin]

theorem startOrigin_lt {Start head : ℕ} (h : Start ≤ head) : startOrigin Start head < head + 1 := by
  rw [startOrigin]
  split <;> omega

theorem logsOf_take_append_drop (tree : LogTree) (config : FilterConfig) (chain : List Block) (n : ℕ) :
    tree.logsOf config (chain.take n) ++ tree.logsOf config (chain.drop n) = tree.logsOf config chain := by
  rw [LogTree.logsOf, LogTree.logsOf, LogTree.logsOf, ← List.flatMap_append, List.take_append_drop]

theorem run_unlocked {s : System} (hfilter : s.tracker.filters[i]? = some filter) (hsync : s.sync = .unlocked) :
    s.run i (providers.map .sync) = s := by
  induction providers with
  | nil => rfl
  | cons provider providers ih =>
    have hnone : syncSection s.tracker provider filter.config s.sync = none := by
      rw [hsync]
      rfl
    change (s.step i (.sync provider)).run i (providers.map .sync) = s
    rw [System.step_sync_idle hfilter hnone, ih]

theorem run_after_first (hpath : tree.IsPath chain) (hchain : FromGenesis chain)
    (hserves : ∀ p ∈ providers, p.ServesChain tree chain) {s : System}
    (hfilter : s.tracker.filters[i]? = some filter)
    (hwindow : s.tracker.blocks = chain.rtake s.tracker.config.MaxBlockBacklog)
    (hM : 1 ≤ s.tracker.config.MaxBlockBacklog) (hfits : chain.length + s.tracker.config.BatchSize ≤ 2 ^ 64)
    {store : Store} {origin : ℕ} (horigin : origin < chain.length)
    (hempty : store.entries filter.config.Hash = []) (hprovider : provider.ServesChain tree chain)
    (hsection : syncFrom s.tracker provider filter.config store (chain.length - 1) origin = (s.sync, s.tracker.store))
    (henough : sectionsLeft s.tracker.config.BatchSize chain.length .start ≤ providers.length + 1) :
    let s' := s.run i (providers.map .sync)
    s'.sync = .unlocked ∧
      s'.tracker.store.entries filter.config.Hash = tree.logsOf filter.config (chain.drop origin) := by
  have hne : chain ≠ [] := List.ne_nil_of_length_pos (by omega)
  intro s'
  set before := tree.logsOf filter.config (chain.take origin) with hbefore
  have hstored : StoredBelow tree filter.config chain (store.prepend filter.config.Hash before) origin := by
    rw [StoredBelow, Store.entries_prepend, hempty, List.append_nil]
  have hgoes : GoesOn tree s.tracker.config chain [] filter.config
      (sectionsLeft s.tracker.config.BatchSize chain.length .start)
      (syncFrom s.tracker provider filter.config (store.prepend filter.config.Hash before) (chain.length - 1) origin) :=
    syncFrom_goesOn hprovider hwindow hM horigin hstored
  rw [syncFrom_prepend, hsection] at hgoes
  have hstart : (syncFrom s.tracker provider filter.config store (chain.length - 1) origin).1 ≠ .start :=
    syncFrom_ne_start store (chain.length - 1) origin
  rw [hsection] at hstart
  have hless : sectionsLeft s.tracker.config.BatchSize chain.length s.sync <
      sectionsLeft s.tracker.config.BatchSize chain.length .start := hgoes.2
  obtain ⟨hsync, hentries, -⟩ := @run_resuming tree chain [] i filter
    (s.prepend filter.config.Hash before) hpath hchain hne providers
    (fun p hp => ⟨hserves p hp, by simp [Provider.Finds]⟩) hfilter hwindow hM hfits hgoes.1
    (Nat.le_of_lt_succ (hless.trans_le henough))
  rw [run_prepend providers before hfilter hstart] at hsync hentries
  refine ⟨hsync, ?_⟩
  rw [StoredBelow, List.take_length, ← logsOf_take_append_drop tree filter.config chain origin, ← hbefore] at hentries
  change (s'.tracker.store.prepend _ _).entries _ = _ at hentries
  rw [Store.entries_prepend] at hentries
  exact List.append_cancel_left hentries

def afterFirst (t : Tracker) (provider : Provider) (config : FilterConfig) : System :=
  { tracker := { t with store := (syncImpl t provider config).2 }
    top := 0
    sync := (syncImpl t provider config).1
    pending := none }

theorem firstSync_cons (hfilter : t.filters[i]? = some filter) : firstSync t i (provider :: providers) =
      ((afterFirst t provider filter.config).run i (providers.map .sync)).step i .setSynced := by
  have hmoves : System.step i { tracker := t, top := 0, sync := .start, pending := none } (.sync provider) =
      afterFirst t provider filter.config := System.step_sync_moves hfilter rfl
  rw [← hmoves]
  exact List.foldl_append ..

/-- **The entry after a first `Sync`.** Without a backlog there is no window, and nothing is done. -/
theorem firstSync_entries (hpath : tree.IsPath chain) (hchain : FromGenesis chain)
    (h : FirstSync tree chain t i filter providers) (hstart : filter.config.Start ≠ 0)
    (hon : filter.config.Start < chain.length) :
    (firstSync t i providers).sync = .done ∧ (firstSync t i providers).tracker.store.entries filter.config.Hash =
        if t.config.MaxBlockBacklog = 0 then []
        else tree.logsOf filter.config (chain.drop (startOrigin filter.config.Start (chain.length - 1))) := by
  have hwindow := h.blocks hchain (by omega)
  obtain ⟨b, hb⟩ : ∃ b, chain[filter.config.Start]? = some b := ⟨_, List.getElem?_eq_getElem hon⟩
  have henough := h.enough
  have hserves := h.serves
  have hpositive : 0 < sectionsLeft t.config.BatchSize chain.length .start :=
    Nat.mul_pos (Nat.succ_pos _) (Nat.succ_pos _)
  obtain ⟨provider, rest, rfl⟩ : ∃ provider rest, providers = provider :: rest :=
    List.exists_cons_of_length_pos (by omega)
  obtain ⟨hprovider, hrest⟩ := List.forall_mem_cons.mp hserves
  have hend : ((afterFirst t provider filter.config).run i (rest.map .sync)).sync = .unlocked ∧
      ((afterFirst t provider filter.config).run i (rest.map .sync)).tracker.store.entries filter.config.Hash =
        if t.config.MaxBlockBacklog = 0 then []
        else tree.logsOf filter.config (chain.drop (startOrigin filter.config.Start (chain.length - 1))) := by
    by_cases hM : t.config.MaxBlockBacklog = 0
    · have hnone : t.blocks = [] := by
        rw [hwindow, hM, List.rtake, Nat.sub_zero, List.drop_length]
      have hunlocked : syncImpl t provider filter.config = (.unlocked, t.store) := by
        rw [syncImpl, hnone]
        rfl
      rw [if_pos hM, run_unlocked h.listed (by rw [afterFirst, hunlocked]), afterFirst, hunlocked]
      exact ⟨rfl, h.empty.1⟩
    · rw [if_neg hM]
      have hfirst := syncImpl_first hchain hprovider hwindow (Nat.one_le_iff_ne_zero.mpr hM) h.empty.2 hstart hb
      have horigin := startOrigin_lt (Nat.le_sub_one_of_lt hon)
      have hempty : (t.store.storeLastBlock filter.config.Hash b).entries filter.config.Hash = [] := h.empty.1
      exact run_after_first hpath hchain hrest h.listed hwindow (Nat.one_le_iff_ne_zero.mpr hM) h.fits (by omega)
        hempty hprovider hfirst.symm henough
  rw [firstSync_cons h.listed, System.step, hend.1]
  exact ⟨rfl, hend.2⟩

end Closed

/-! ## Two first runs -/

/-- The logs of the start block are stored. -/
def StoresBlock (tree : LogTree) (config : FilterConfig) (b : Block) (entry : List Log) : Prop :=
  ∀ log ∈ tree.logs config.getFilterSearch b, log ∈ entry

/-- The logs of the blocks after the start block are stored, each once and in order. -/
def StoresAfter (tree : LogTree) (config : FilterConfig) (chain : List Block) (entry : List Log) : Prop :=
  entry.filter (config.Start < ·.BlockNumber) = tree.logsOf config (chain.drop (config.Start + 1))

section Entries
variable {tree : LogTree} {chain : List Block} {i : ℕ} {filter : Filter}
  {config : FilterConfig}

section
variable (hpath : tree.IsPath chain) (hchain : FromGenesis chain)
include hpath hchain

theorem number_of_mem_logsOf_drop {n : ℕ} {log : Log}
    (hlog : log ∈ tree.logsOf config (chain.drop n)) : n ≤ log.BlockNumber := by
  obtain ⟨b, hb, hlog⟩ := List.mem_flatMap.mp hlog
  obtain ⟨hnumber, -⟩ := tree.labelled _ b (hpath.mem b (List.mem_of_mem_drop hb)) log hlog
  obtain ⟨k, hk⟩ := List.mem_iff_getElem?.mp hb
  rw [List.getElem?_drop] at hk
  rw [hnumber, hchain.numbered _ _ hk]
  exact Nat.le_add_right n k

theorem number_of_mem_logsOf_take {n : ℕ} {log : Log}
    (hlog : log ∈ tree.logsOf config (chain.take n)) : log.BlockNumber < n := by
  obtain ⟨b, hb, hlog⟩ := List.mem_flatMap.mp hlog
  obtain ⟨hnumber, -⟩ := tree.labelled _ b (hpath.mem b (List.mem_of_mem_take hb)) log hlog
  obtain ⟨k, hk, rfl⟩ := List.mem_take_iff_getElem.mp hb
  rw [hnumber, hchain.numbered k _ (List.getElem?_eq_getElem (by omega))]
  omega

theorem filter_logsOf_take {n : ℕ} (hn : n ≤ config.Start + 1) :
    (tree.logsOf config (chain.take n)).filter (config.Start < ·.BlockNumber) = [] := by
  refine List.filter_eq_nil_iff.mpr fun log hlog => ?_
  have hnumber := number_of_mem_logsOf_take hpath hchain hlog
  rw [decide_eq_true_iff]
  omega

/-- The logs from any origin up to the block after the start block on hold those after the start block. -/
theorem storesAfter_logsOf {origin : ℕ}
    (horigin : origin ≤ config.Start + 1) : StoresAfter tree config chain (tree.logsOf config (chain.drop origin)) := by
  have hkept : (tree.logsOf config (chain.drop (config.Start + 1))).filter (config.Start < ·.BlockNumber) =
      tree.logsOf config (chain.drop (config.Start + 1)) := by
    refine List.filter_eq_self.mpr fun log hlog => ?_
    have hnumber := number_of_mem_logsOf_drop hpath hchain hlog
    rw [decide_eq_true_iff]
    omega
  -- both are what the filter leaves of all the logs of the chain
  have hall : ∀ n, n ≤ config.Start + 1 → (tree.logsOf config (chain.drop n)).filter (config.Start < ·.BlockNumber) =
        (tree.logsOf config chain).filter (config.Start < ·.BlockNumber) := by
    intro n hn
    rw [← logsOf_take_append_drop tree config chain n, List.filter_append, filter_logsOf_take hpath hchain hn,
      List.nil_append]
  rw [StoresAfter, hall origin horigin, ← hall _ le_rfl, hkept]

end

theorem startOrigin_le (Start head : ℕ) : startOrigin Start head ≤ Start + 1 := by
  rw [startOrigin]
  split <;> omega

theorem storesBlock_logsOf (hpath : tree.IsPath chain) (hchain : FromGenesis chain) {b : Block}
    (hb : chain[config.Start]? = some b) (head : ℕ) :
    StoresBlock tree config b (tree.logsOf config (chain.drop (startOrigin config.Start head))) ↔
      tree.logs config.getFilterSearch b = [] ∨ head = config.Start := by
  rw [startOrigin]
  split
  · next heq =>
    refine ⟨fun _ => .inr heq.symm, fun _ log hlog => List.mem_flatMap.mpr ⟨b, ?_, hlog⟩⟩
    refine List.mem_of_getElem? (i := 0) ?_
    rw [List.getElem?_drop, Nat.add_zero, hb]
  · next hne =>
    constructor
    · intro hstores
      refine .inl (List.eq_nil_iff_forall_not_mem.mpr fun log hlog => ?_)
      have habove := number_of_mem_logsOf_drop hpath hchain (hstores log hlog)
      have hmem := hpath.mem b (List.mem_of_getElem? hb)
      rw [(tree.labelled _ b hmem log hlog).1, hchain.numbered _ _ hb] at habove
      omega
    · rintro (hnone | heq)
      · intro log hlog
        rw [hnone] at hlog
        cases hlog
      · exact absurd heq.symm hne

theorem storesBlock_nil {b : Block} : StoresBlock tree config b [] ↔ tree.logs config.getFilterSearch b = [] := by
  rw [StoresBlock, List.eq_nil_iff_forall_not_mem]
  exact forall₂_congr fun log _ => iff_false_intro List.not_mem_nil

theorem storesAfter_nil : StoresAfter tree config chain [] ↔ tree.logsOf config (chain.drop (config.Start + 1)) = [] :=
  eq_comm

end Entries

section Heads
variable {tree : LogTree} {chain : List Block} {t : Tracker} {i : ℕ} {filter : Filter} {providers : List Provider}

theorem firstSync_stores (hpath : tree.IsPath chain) (hchain : FromGenesis chain) (hstart : filter.config.Start ≠ 0)
    {b : Block} (hb : chain[filter.config.Start]? = some b) {h : ℕ} (hh : filter.config.Start ≤ h)
    (hlt : h < chain.length) (hsync : FirstSync tree (chain.take (h + 1)) t i filter providers) :
    let entry := (firstSync t i providers).tracker.store.entries filter.config.Hash
    (firstSync t i providers).sync = .done ∧
      (StoresBlock tree filter.config b entry ↔ tree.logs filter.config.getFilterSearch b = [] ∨
        t.config.MaxBlockBacklog ≠ 0 ∧ h = filter.config.Start) ∧
      (StoresAfter tree filter.config (chain.take (h + 1)) entry ↔ t.config.MaxBlockBacklog ≠ 0 ∨
        tree.logsOf filter.config ((chain.take (h + 1)).drop (filter.config.Start + 1)) = []) := by
  have hlen : (chain.take (h + 1)).length = h + 1 := List.length_take_of_le hlt
  have hpath' := hpath.of_prefix (List.take_prefix (h + 1) chain)
  have hchain' := hchain.of_prefix (List.take_prefix (h + 1) chain)
  have hb' : (chain.take (h + 1))[filter.config.Start]? = some b := by
    rw [List.getElem?_take_of_lt (by omega), hb]
  obtain ⟨hdone, hentries⟩ := firstSync_entries hpath' hchain' hsync hstart (by omega)
  rw [hlen, Nat.add_sub_cancel] at hentries
  intro entry
  refine ⟨hdone, ?_⟩
  change entry = _ at hentries
  rw [hentries]
  by_cases hM : t.config.MaxBlockBacklog = 0
  · rw [if_pos hM, storesBlock_nil, storesAfter_nil]
    simp [hM]
  · have hafter := storesAfter_logsOf hpath' hchain' (startOrigin_le filter.config.Start h)
    rw [if_neg hM, storesBlock_logsOf hpath' hchain' hb' h]
    exact ⟨by simp [hM], iff_of_true hafter (.inl hM)⟩

end Heads

/-- **When the meaning of `Start` depends on timing.** Two first runs, with two heads of one chain, agree on the
logs of the start block exactly if it has none, or both heads are the start block, or none is. The logs of the
blocks after it are always stored, each once. (Without a backlog nothing is stored at all.) -/
theorem first_sync_agrees_iff (tree : LogTree) (chain : List Block) (hpath : tree.IsPath chain)
    (hchain : FromGenesis chain) (filter : Filter) (hstart : filter.config.Start ≠ 0) (b : Block)
    (hb : chain[filter.config.Start]? = some b) (h₁ h₂ : ℕ) (hh₁ : filter.config.Start ≤ h₁)
    (hh₂ : filter.config.Start ≤ h₂) (hlt₁ : h₁ < chain.length) (hlt₂ : h₂ < chain.length) (t₁ t₂ : Tracker)
    (hconfig : t₁.config = t₂.config) (i₁ i₂ : ℕ) (providers₁ providers₂ : List Provider)
    (hsync₁ : FirstSync tree (chain.take (h₁ + 1)) t₁ i₁ filter providers₁)
    (hsync₂ : FirstSync tree (chain.take (h₂ + 1)) t₂ i₂ filter providers₂) :
    let r₁ := firstSync t₁ i₁ providers₁
    let r₂ := firstSync t₂ i₂ providers₂
    let entry₁ := r₁.tracker.store.entries filter.config.Hash
    let entry₂ := r₂.tracker.store.entries filter.config.Hash
    r₁.sync = .done ∧ r₂.sync = .done ∧
      ((StoresBlock tree filter.config b entry₁ ↔ StoresBlock tree filter.config b entry₂) ∧
          StoresAfter tree filter.config (chain.take (h₁ + 1)) entry₁ ∧
          StoresAfter tree filter.config (chain.take (h₂ + 1)) entry₂ ↔
        (tree.logs filter.config.getFilterSearch b = [] ∨ t₁.config.MaxBlockBacklog = 0 ∨
            (h₁ = filter.config.Start ↔ h₂ = filter.config.Start)) ∧
          (t₁.config.MaxBlockBacklog ≠ 0 ∨
            tree.logsOf filter.config ((chain.take (h₁ + 1)).drop (filter.config.Start + 1)) = [] ∧
            tree.logsOf filter.config ((chain.take (h₂ + 1)).drop (filter.config.Start + 1)) = [])) := by
  intro r₁ r₂ entry₁ entry₂
  obtain ⟨hdone₁, hblock₁, hafter₁⟩ := firstSync_stores hpath hchain hstart hb hh₁ hlt₁ hsync₁
  obtain ⟨hdone₂, hblock₂, hafter₂⟩ := firstSync_stores hpath hchain hstart hb hh₂ hlt₂ hsync₂
  rw [← hconfig] at hblock₂ hafter₂
  refine ⟨hdone₁, hdone₂, ?_⟩
  rw [hblock₁, hblock₂, hafter₁, hafter₂]
  by_cases hM : t₁.config.MaxBlockBacklog = 0
  · simp [hM]
  · by_cases hnone : tree.logs filter.config.getFilterSearch b = []
    · simp [hM, hnone]
    · simp [hM, hnone]

theorem Provider.ServesChain.take {provider : Provider} {tree : LogTree} {chain : List Block}
    (h : provider.ServesChain tree chain) (n : ℕ) : provider.ServesChain tree (chain.take n) where
  finds b hb := h.finds b (List.mem_of_mem_take hb)
  byNumber k b hb := by
    obtain ⟨hk, -⟩ := List.getElem?_eq_some_iff.mp hb
    rw [List.length_take] at hk
    rw [List.getElem?_take_of_lt (by omega)] at hb
    exact h.byNumber k b hb
  byBlock config b hb := h.byBlock config b (List.mem_of_mem_take hb)
  byRange config lo hi hle hlt := by
    rw [List.length_take] at hlt
    rw [List.take_take, Nat.min_eq_left (by omega)]
    exact h.byRange config lo hi hle (by omega)

def startFilter (Start : ℕ) : Filter := { synced := false, config := { bareConfig with Start } }

def startTracker (Start h : ℕ) : Tracker :=
  { config := { BatchSize := 1, MaxBlockBacklog := 2 }
    blocks := (fourBlocks.take (h + 1)).rtake 2
    filters := [startFilter Start]
    store := { entries := fun _ => [], lastBlock := fun _ => none } }

theorem startTracker_firstSync (Start : ℕ) {h : ℕ} (hpos : h ≠ 0) (hh : h < 4) :
    FirstSync sideLogTree (fourBlocks.take (h + 1)) (startTracker Start h) 0 (startFilter Start)
      (List.replicate 15 sideNode) where
  window := by
    obtain ⟨head, hhead⟩ : ∃ head, fourBlocks[h]? = some head := ⟨_, List.getElem?_eq_getElem hh⟩
    refine ⟨head, sideNode, ?_, fun b hb => sideNode_serves.finds b (List.mem_of_mem_take hb), ?_⟩
    · rw [List.getLast?_take, if_neg (Nat.succ_ne_zero h), Nat.add_sub_cancel, hhead]
      rfl
    · exact populateBlocks_ok fromGenesis_fourBlocks
        (fun b hb => sideNode_serves.finds b (List.mem_of_mem_take hb)) le_rfl hpos hhead
  fits := by
    rw [List.length_take_of_le hh]
    change h + 1 + 1 ≤ _
    omega
  listed := rfl
  empty := ⟨rfl, rfl⟩
  serves p hp := by
    rw [List.eq_of_mem_replicate hp]
    exact sideNode_serves.take (h + 1)
  enough := by
    rw [List.length_replicate, List.length_take_of_le hh, sectionsLeft]
    change (h + 1 + 1) * 3 ≤ 15
    omega

/-- A filter from block 1 on, with the heads 2 and 3. -/
theorem first_sync_agrees_behind :
    let entry := fun h => (firstSync (startTracker 1 h) 0 (List.replicate 15 sideNode)).tracker.store.entries
      (startFilter 1).config.Hash
    (StoresBlock sideLogTree (startFilter 1).config (fourBlocks.get ⟨1, by decide⟩) (entry 2) ↔
        StoresBlock sideLogTree (startFilter 1).config (fourBlocks.get ⟨1, by decide⟩) (entry 3)) ∧
      StoresAfter sideLogTree (startFilter 1).config (fourBlocks.take 3) (entry 2) ∧
      StoresAfter sideLogTree (startFilter 1).config (fourBlocks.take 4) (entry 3) :=
  (first_sync_agrees_iff sideLogTree fourBlocks isPath_fourBlocks fromGenesis_fourBlocks (startFilter 1) (by decide)
    (fourBlocks.get ⟨1, by decide⟩) rfl 2 3 (by decide) (by decide) (by decide) (by decide) (startTracker 1 2)
    (startTracker 1 3) rfl 0 0 _ _ (startTracker_firstSync 1 (by decide) (by decide))
    (startTracker_firstSync 1 (by decide) (by decide))).2.2.mpr ⟨.inr (.inr (by decide)), .inl (by decide)⟩

theorem startTracker_stores {h : ℕ} (hh : 2 ≤ h) (hlt : h < 4) :
    StoresBlock sideLogTree (startFilter 2).config (fourBlocks.get ⟨2, by decide⟩)
        ((firstSync (startTracker 2 h) 0 (List.replicate 15 sideNode)).tracker.store.entries
          (startFilter 2).config.Hash) ↔ h = 2 := by
  have hb : fourBlocks[(startFilter 2).config.Start]? = some (fourBlocks.get ⟨2, by decide⟩) := rfl
  rw [(firstSync_stores isPath_fourBlocks fromGenesis_fourBlocks (by decide) hb hh hlt
    (startTracker_firstSync 2 (by omega) hlt)).2.1]
  constructor
  · rintro (hnone | ⟨-, heq⟩)
    · cases hnone
    · exact heq
  · exact fun heq => .inr ⟨Nat.succ_ne_zero 1, heq⟩

/-- A filter from block 2 on stores the log of that block if it is the head, and not if block 3 is. -/
theorem first_sync_depends_on_head :
    let entry := fun h => (firstSync (startTracker 2 h) 0 (List.replicate 15 sideNode)).tracker.store.entries
      (startFilter 2).config.Hash
    StoresBlock sideLogTree (startFilter 2).config (fourBlocks.get ⟨2, by decide⟩) (entry 2) ∧
      ¬StoresBlock sideLogTree (startFilter 2).config (fourBlocks.get ⟨2, by decide⟩) (entry 3) := by
  have hhead := startTracker_stores (h := 2) (by decide) (by decide)
  have hbehind := startTracker_stores (h := 3) (by decide) (by decide)
  exact ⟨hhead.mpr rfl, fun h => absurd (hbehind.mp h) (by decide)⟩

end Web3.Tracker
