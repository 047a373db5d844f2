import Web3.Tracker.LogStore

/-! # Entries across reorganisations

With a provider that serves a tree of blocks and their logs, the entry of a synced filter holds the logs
of one chain to the head of the window, through any sequence of heads. Every event reports what was
taken from the end of the entry and what was appended. This needs that the filter has its entry for
itself: the entry is found by the hash of the configuration, and a second filter with that hash stores
the same logs once more. -/

namespace Web3.Tracker

/-! ## Trees with logs -/

/-- A tree whose blocks have logs for every search, labelled with the block they are in. -/
structure LogTree extends BlockTree where
  logs : LogFilter → Block → List Log
  labelled : ∀ search, ∀ b ∈ blocks, ∀ log ∈ logs search b, log.BlockNumber = b.Number ∧ log.BlockHash = b.Hash

/-- The logs of a chain that match a configuration, in order. -/
def LogTree.logsOf (tree : LogTree) (config : FilterConfig) (chain : List Block) : List Log :=
  chain.flatMap (tree.logs config.getFilterSearch)

/-- The provider serves the blocks, and a query by block hash returns the matching logs of the block. -/
structure Provider.ServesLogs (p : Provider) (tree : LogTree) : Prop where
  serves : p.Serves tree.toBlockTree
  answers : ∀ config chain, (∀ b ∈ chain, b ∈ tree.blocks) → p.Answers config (tree.logs config.getFilterSearch) chain

/-- The entry of a configuration holds exactly the matching logs of a chain to the head. -/
structure Holds (tree : LogTree) (t : Tracker) (config : FilterConfig) (chain : List Block) : Prop where
  isPath : tree.IsPath chain
  head : ∃ head, chain.getLast? = some head ∧ t.blocks.getLast? = some head
  entry : t.store.entries config.Hash = tree.logsOf config chain

/-! ## The pivot -/

variable {number : ℕ} {log : Log}

theorem logStays_of_lt {hash : Option Hash} (h : log.BlockNumber < number) : logStays number hash log = true := by
  rw [logStays, decide_eq_true h, Bool.or_true]

theorem logStays_pivot {hash : Hash} (hle : number ≤ log.BlockNumber)
    (heq : log.BlockNumber = number → log.BlockHash = hash) : logStays number (some hash) log = false := by
  rw [logStays, decide_eq_false (not_lt.mpr hle), Bool.or_false]
  rcases hle.eq_or_lt with h | h
  · rw [Option.any_some, heq h.symm]
    simp only [ne_eq, not_true_eq_false, decide_false, Bool.and_false]
  · rw [decide_eq_false h.ne', Bool.false_and]

/-- The number and hash of the first removed block tell the logs of the dropped blocks from those
below. -/
theorem takesOff_logsOf {tree : LogTree} {config : FilterConfig} {below dropped removed : List Block}
    (hchain : tree.IsPath (below ++ dropped)) (hremoved : tree.IsPath removed)
    (hdropped : dropped <:+ removed) (hbelow : below = [] ∨ dropped = removed) :
    TakesOff removed (tree.logsOf config below) (tree.logsOf config dropped) := by
  cases removed with
  | nil =>
    rw [List.suffix_nil.mp hdropped]
    rfl
  | cons pivot rest =>
    refine ⟨fun log hlog => ?_, fun log hlog => ?_⟩
    · obtain ⟨b, hb, hlog⟩ := List.mem_flatMap.mp hlog
      have hlabel := tree.labelled _ b (hchain.mem b (List.mem_append_left _ hb)) log hlog
      rcases hbelow with rfl | rfl
      · cases hb
      · refine logStays_of_lt (hlabel.1.trans_lt ?_)
        exact (List.pairwise_append.mp hchain.numbers_lt).2.2 b hb pivot (List.mem_cons_self ..)
    · obtain ⟨b, hb, hlog⟩ := List.mem_flatMap.mp hlog
      have hmem := hdropped.subset hb
      obtain ⟨hnumber, hhash⟩ := tree.labelled _ b (hremoved.mem b hmem) log hlog
      rcases List.mem_cons.mp hmem with rfl | hrest
      · exact logStays_pivot hnumber.ge fun _ => hhash
      · have hlt := (List.pairwise_cons.mp hremoved.numbers_lt).1 b hrest
        exact logStays_pivot (hlt.le.trans hnumber.ge) fun heq => absurd (hnumber.symm.trans heq) hlt.ne'

/-! ## One call -/

/-- The chain after a call: the blocks that are not removed, and the added ones. -/
def nextChain (t : Tracker) (provider : Provider) (block : Block) (chain : List Block) : List Block :=
  match (handleBlockEvent t.config.MaxBlockBacklog provider t.blocks block).1 with
  | .ok (some event) => chain.filter (fun b => b ∉ event.Removed) ++ event.Added
  | _ => chain

/-- What a call reports to the filter with number `i`: nothing if the window has not moved, and else one
event with the logs of the blocks that were dropped from the chain and of those that were added to it.
The former are taken from the end of the entry and the latter appended, and the new head is stored. -/
inductive Reported (tree : LogTree) (i : ℕ) (config : FilterConfig) (old new : Tracker)
    (chain chain' : List Block) : Outcome (List (ℕ × Event)) → Prop
  | unmoved {result : Outcome (List (ℕ × Event))} (hresult : result = .ok [] ∨ ∃ e, result = .err e)
      (hnew : new = old) (hchain : chain' = chain) : Reported tree i config old new chain chain' result
  | moved {evnts : List (ℕ × Event)} {evnt : Event} {kept : List Log} {below dropped added : List Block}
      (hevnts : evnts.filter (fun e => e.1 = i) = [(i, evnt)])
      (hold : old.store.entries config.Hash = kept ++ evnt.Removed)
      (hnew : new.store.entries config.Hash = kept ++ evnt.Added)
      (hchain : chain = below ++ dropped) (hremoved : evnt.Removed = tree.logsOf config dropped)
      (hchain' : chain' = below ++ added) (hadded : evnt.Added = tree.logsOf config added)
      (hblocks : new.blocks ≠ old.blocks)
      (hlast : new.store.lastBlock config.Hash = new.blocks.getLast?) :
      Reported tree i config old new chain chain' (.ok evnts)

/-- A synced filter that has its entry for itself, and whose entry holds the logs of a chain. -/
structure Follows (tree : LogTree) (t : Tracker) (i : ℕ) (filter : Filter) (chain : List Block) : Prop where
  window : IsWindow tree.toBlockTree t.config.MaxBlockBacklog t.blocks
  listed : t.filters[i]? = some filter
  synced : filter.synced = true
  alone : ∀ j f, t.filters[j]? = some f → f.synced = true → f.config.Hash = filter.config.Hash → j = i
  holds : Holds tree t filter.config chain

section Call
variable {tree : LogTree} {t : Tracker} {provider : Provider} {block : Block} {i : ℕ} {filter : Filter}
  {chain : List Block}

section
variable (h : Follows tree t i filter chain) (hM : 1 ≤ t.config.MaxBlockBacklog) (hserves : provider.ServesLogs tree)
include h hM hserves

theorem Follows.moved {event : BlockEvent} {blocks : List Block}
    (hmoves : Moves tree.toBlockTree t.config.MaxBlockBacklog t.blocks block event blocks) :
    ∃ evnts store, dispatch provider event 0 t.filters t.store = (.ok evnts, store) ∧
      Holds tree { t with blocks, store } filter.config
        (chain.filter (fun b => b ∉ event.Removed) ++ event.Added) ∧
      Reported tree i filter.config t { t with blocks, store } chain
        (chain.filter (fun b => b ∉ event.Removed) ++ event.Added) (.ok evnts) := by
  obtain ⟨head, hchainHead, hhead⟩ := h.holds.head
  obtain ⟨kept, hold, hnew, hpath, hkept⟩ := hmoves.exists_kept h.window.isPath
  have hkept : kept ≠ [] := fun hnil => by
    rw [hkept hnil] at hhead
    cases hhead
  have hwindow := h.window.isPath
  rw [hold] at hwindow hhead
  obtain ⟨below, dropped, rfl, hdropped, hbelow⟩ :=
    exists_below h.holds.isPath hwindow (hchainHead.trans hhead.symm) hkept
  have hbelow' : below = [] ∨ dropped = event.Removed := hbelow.imp_right And.left
  have hadded := hmoves.added
  have hends : ∀ front : List Block, (front ++ event.Added).getLast? = some block := fun front => by
    rw [List.getLast?_append_of_ne_nil _ hmoves.added_ne_nil, hadded.ends]
  rw [filter_not_removed h.holds.isPath hdropped hbelow']
  have hentry := h.holds.entry
  rw [LogTree.logsOf, List.flatMap_append] at hentry
  obtain ⟨evnts, store, hdispatch, hevnts, hentry', hlast⟩ :=
    dispatch_ok (fun config => hserves.answers config _ hadded.isPath.mem) hadded.ends h.listed h.synced
      h.alone hentry
      (takesOff_logsOf h.holds.isPath (hwindow.of_suffix (List.suffix_append _ _)) hdropped hbelow')
  have hblocks : blocks.getLast? = some block := by rw [hnew, getLast?_rtake hM, hends]
  refine ⟨evnts, store, hdispatch, ⟨?_, ⟨block, hends below, hblocks⟩, ?_⟩, ?_⟩
  · -- the added blocks continue the chain where they continue the window
    refine isPath_append (h.holds.isPath.of_prefix (List.prefix_append _ _)) hadded.isPath ?_
    intro fork hfork first hfirst
    rcases hbelow with rfl | ⟨-, hlastKept⟩
    · cases hfork
    · rw [hlastKept] at hfork
      exact (List.isChain_append.mp hpath.linked).2.2 fork hfork first hfirst
  · rw [LogTree.logsOf, List.flatMap_append]
    exact hentry'
  · refine .moved hevnts hentry hentry' rfl rfl rfl rfl ?_ (hlast.trans hblocks.symm)
    -- the head is new
    intro heq
    refine hadded.fresh block (List.mem_of_getLast? hadded.ends) block ?_ rfl
    have heq : blocks = t.blocks := heq
    rw [← heq]
    exact List.mem_of_getLast? hblocks

/-- **The step**: after a call the filter follows the next chain. -/
theorem Follows.step (hblock : block ∈ tree.blocks) :
    Follows tree (handleReconcile t provider block).2 i filter (nextChain t provider block chain) ∧
      Reported tree i filter.config t (handleReconcile t provider block).2 chain
        (nextChain t provider block chain) (handleReconcile t provider block).1 := by
  have hhandled := handleBlockEvent_handled hM hserves.serves hblock h.window
  have hwindow := hhandled.isWindow h.window
  rw [handleReconcile, nextChain]
  revert hhandled hwindow
  generalize handleBlockEvent t.config.MaxBlockBacklog provider t.blocks block = r
  intro hhandled hwindow
  cases hhandled with
  | known => exact ⟨h, .unmoved (.inl rfl) rfl rfl⟩
  | failed err => exact ⟨h, .unmoved (.inr ⟨err, rfl⟩) rfl rfl⟩
  | moved hmoves =>
    obtain ⟨evnts, store, hdispatch, hholds, hreported⟩ := h.moved hM hserves hmoves
    dsimp only
    rw [hdispatch]
    exact ⟨⟨hwindow, h.listed, h.synced, h.alone, hholds⟩, hreported⟩

end

theorem handleReconcile_config (t : Tracker) (provider : Provider) (block : Block) :
    (handleReconcile t provider block).2.config = t.config := by
  rw [handleReconcile]
  split <;> rfl

end Call

/-! ## Sequences of calls -/

def runReconcile (t : Tracker) : List (Provider × Block) → Tracker
  | [] => t
  | (provider, block) :: calls => runReconcile (handleReconcile t provider block).2 calls

def chainAfter (t : Tracker) (chain : List Block) : List (Provider × Block) → List Block
  | [] => chain
  | (provider, block) :: calls =>
    chainAfter (handleReconcile t provider block).2 (nextChain t provider block chain) calls

/-- **The run**: the filter follows the chain. -/
theorem Follows.run {tree : LogTree} {t : Tracker} {i : ℕ} {filter : Filter} {chain : List Block}
    (h : Follows tree t i filter chain) (hM : 1 ≤ t.config.MaxBlockBacklog)
    {calls : List (Provider × Block)} (hcalls : ∀ c ∈ calls, c.1.ServesLogs tree ∧ c.2 ∈ tree.blocks) :
    Follows tree (runReconcile t calls) i filter (chainAfter t chain calls) ∧
      1 ≤ (runReconcile t calls).config.MaxBlockBacklog := by
  induction calls generalizing t chain with
  | nil => exact ⟨h, hM⟩
  | cons c calls ih =>
    obtain ⟨hserves, hblock⟩ := hcalls c (List.mem_cons_self ..)
    refine ih (h.step hM hserves hblock).1 ?_ fun c hc => hcalls c (List.mem_cons_of_mem _ hc)
    rw [handleReconcile_config]
    exact hM

/-- **The entries follow the chain.** A synced filter has its entry for itself, and the entry holds the
matching logs of a chain to the head. Then so it is after any sequence of calls, and after one more call,
which reports exactly what it has changed. -/
theorem handleReconcile_follows (tree : LogTree) (t : Tracker) (hM : 1 ≤ t.config.MaxBlockBacklog)
    (hwindow : IsWindow tree.toBlockTree t.config.MaxBlockBacklog t.blocks) (i : ℕ) (filter : Filter)
    (hfilter : t.filters[i]? = some filter) (hsynced : filter.synced = true)
    (halone : ∀ j f, t.filters[j]? = some f → f.synced = true → f.config.Hash = filter.config.Hash → j = i)
    (chain : List Block) (hholds : Holds tree t filter.config chain) (calls : List (Provider × Block))
    (hcalls : ∀ c ∈ calls, c.1.ServesLogs tree ∧ c.2 ∈ tree.blocks) (provider : Provider)
    (hserves : provider.ServesLogs tree) (block : Block) (hblock : block ∈ tree.blocks) :
    let old := runReconcile t calls
    let oldChain := chainAfter t chain calls
    let result := handleReconcile old provider block
    let newChain := nextChain old provider block oldChain
    Holds tree old filter.config oldChain ∧ Holds tree result.2 filter.config newChain ∧
      Reported tree i filter.config old result.2 oldChain newChain result.1 := by
  have hfollows : Follows tree t i filter chain := ⟨hwindow, hfilter, hsynced, halone, hholds⟩
  obtain ⟨hold, hM'⟩ := hfollows.run hM hcalls
  obtain ⟨hnew, hreported⟩ := hold.step hM' hserves hblock
  exact ⟨hold.holds, hnew.holds, hreported⟩

def leftLog : Log :=
  { BlockHash := sampleLeft.Hash
    BlockNumber := sampleLeft.Number
    LogIndex := 0
    Address := Address.zero
    Topics := []
    Data := [] }

def sampleLogTree : LogTree :=
  { sampleTree with
    logs := fun _ b => if b = sampleLeft then [leftLog] else []
    labelled := by
      intro search b _ log hlog
      split at hlog
      · next hb =>
        rw [List.mem_singleton.mp hlog, hb]
        exact ⟨rfl, rfl⟩
      · cases hlog }

def sampleLogProvider : Provider :=
  { sampleProvider with
    getLogs := fun f => .ok (if f.BlockHash = some sampleLeft.Hash then [leftLog] else []) }

theorem sampleLogProvider_serves : sampleLogProvider.ServesLogs sampleLogTree := by
  refine ⟨sampleProvider_serves, fun config chain hchain b hb => ?_⟩
  have hleft : sampleLeft ∈ sampleTree.blocks := List.mem_cons_of_mem _ (List.mem_cons_self ..)
  have hiff : some b.Hash = some sampleLeft.Hash ↔ b = sampleLeft :=
    ⟨fun h => sampleTree.hash_inj b (hchain b hb) _ hleft (Option.some.inj h), fun h => by rw [h]⟩
  exact congrArg Except.ok (if_congr hiff rfl rfl)

def sampleFilter : Filter :=
  { synced := true
    config := { Address := [], Topics := [], Start := 0, Hash := "left" } }

def rootTracker (filters : List Filter) : Tracker :=
  { config := { BatchSize := 100, MaxBlockBacklog := 2 }
    blocks := [sampleRoot]
    filters
    store := { entries := fun _ => [], lastBlock := fun _ => some sampleRoot } }

theorem isPath_sampleRoot : sampleTree.IsPath [sampleRoot] := by
  refine ⟨fun b hb => ?_, List.IsChain.singleton _⟩
  rw [List.mem_singleton.mp hb]
  exact List.mem_cons_self ..

theorem rootTracker_holds (filters : List Filter) :
    Holds sampleLogTree (rootTracker filters) sampleFilter.config [sampleRoot] :=
  ⟨isPath_sampleRoot, ⟨sampleRoot, rfl, rfl⟩, rfl⟩

/-- A filter follows the left child, and then the switch to the right one. -/
theorem handleReconcile_follows_switch :
    let old := runReconcile (rootTracker [sampleFilter]) [(sampleLogProvider, sampleLeft)]
    let result := handleReconcile old sampleLogProvider sampleRight
    Holds sampleLogTree old sampleFilter.config [sampleRoot, sampleLeft] ∧
      Holds sampleLogTree result.2 sampleFilter.config [sampleRoot, sampleRight] ∧
      Reported sampleLogTree 0 sampleFilter.config old result.2 [sampleRoot, sampleLeft]
        [sampleRoot, sampleRight] result.1 := by
  have halone : ∀ j f, [sampleFilter][j]? = some f → f.synced = true →
      f.config.Hash = sampleFilter.config.Hash → j = 0 := by
    intro j f hf _ _
    obtain ⟨hj, -⟩ := List.getElem?_eq_some_iff.mp hf
    exact Nat.lt_one_iff.mp hj
  have hcalls : ∀ c ∈ [(sampleLogProvider, sampleLeft)], c.1.ServesLogs sampleLogTree ∧ c.2 ∈ sampleLogTree.blocks := by
    intro c hc
    rw [List.mem_singleton.mp hc]
    exact ⟨sampleLogProvider_serves, List.mem_cons_of_mem _ (List.mem_cons_self ..)⟩
  exact handleReconcile_follows sampleLogTree (rootTracker [sampleFilter]) (by decide)
    ⟨isPath_sampleRoot, by decide⟩ 0 sampleFilter rfl rfl halone [sampleRoot]
    (rootTracker_holds [sampleFilter]) [(sampleLogProvider, sampleLeft)] hcalls sampleLogProvider
    sampleLogProvider_serves sampleRight
    (List.mem_cons_of_mem _ (List.mem_cons_of_mem _ (List.mem_cons_self ..)))

theorem length_logsOf_sample (chain : List Block) :
    (sampleLogTree.logsOf sampleFilter.config chain).length = chain.count sampleLeft := by
  induction chain with
  | nil => rfl
  | cons b chain ih =>
    rw [LogTree.logsOf, List.flatMap_cons, List.length_append, List.count_cons, Nat.add_comm]
    refine congrArg₂ _ ih ?_
    by_cases hb : b = sampleLeft
    · rw [hb]
      rfl
    · rw [if_neg (by rwa [beq_iff_eq])]
      exact congrArg List.length (if_neg hb)

/-- Two synced filters with one hash: the log of the left child is stored twice, and no chain has it
twice. -/
theorem handleReconcile_shared_entry :
    let t := rootTracker [sampleFilter, sampleFilter]
    sampleLogProvider.ServesLogs sampleLogTree ∧ IsWindow sampleLogTree.toBlockTree t.config.MaxBlockBacklog t.blocks ∧
      Holds sampleLogTree t sampleFilter.config [sampleRoot] ∧
      ¬ ∃ chain, Holds sampleLogTree (handleReconcile t sampleLogProvider sampleLeft).2
        sampleFilter.config chain := by
  refine ⟨sampleLogProvider_serves, ⟨isPath_sampleRoot, by decide⟩, rootTracker_holds _, ?_⟩
  rintro ⟨chain, hholds⟩
  have hentry : (handleReconcile (rootTracker [sampleFilter, sampleFilter]) sampleLogProvider
      sampleLeft).2.store.entries sampleFilter.config.Hash = [leftLog, leftLog] := by decide +kernel
  have htwo : 2 = chain.count sampleLeft := by
    rw [← length_logsOf_sample, ← hholds.entry, hentry]
    rfl
  have hone := List.nodup_iff_count_le_one.mp (List.Nodup.of_map _ hholds.isPath.nodup_hash) sampleLeft
  omega

end Web3.Tracker
