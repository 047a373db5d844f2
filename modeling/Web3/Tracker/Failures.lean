import Web3.Tracker.Restart

/-! # Failing calls

A call of `handleReconcile` may fail at any call of the node or of the store, and the block tracker then
offers the same head again. But the window moves before the filters are brought up to date, and a block
that is in the window is not processed again. So a failure is made good only if it comes before the window
moves, or if it is made good within the call. -/

namespace Web3.Tracker

/-! ## Calls that fail -/

/-- Which calls fail during a call of `handleReconcile`, and with which errors. The calls for a filter are
told apart by its number and by the block or the index they are about, and the attempts of a query of logs
are numbered. A call of the store that fails changes nothing. -/
structure Failures where
  getBlockByHash : Hash → Option String
  getLogs : ℕ → Block → ℕ → Option String
  lastIndex : ℕ → Option String
  getLog : ℕ → ℕ → Option String
  RemoveLogs : ℕ → Option String
  storeLogs : ℕ → Block → Option String
  storeLastBlock : ℕ → Option String

/-- The attempts of a query, from a given one on: the first answer, or the last error. -/
def firstAnswer (query : ℕ → Except String (List Log)) : ℕ → ℕ → Except String (List Log)
  | 0, i => query i
  | more + 1, i =>
    match query i with
    | .ok logs => .ok logs
    | .error _ => firstAnswer query more (i + 1)

/-- The first part of `doFilter`: the logs of the removed blocks, last one first, and the store without
them. -/
def removeBlocks (config : FilterConfig) (s : Store) : List Block → List Log × Store
  | [] => ([], s)
  | pivot :: _ => removeLogs config s pivot.Number (some pivot.Hash)

theorem doFilter_eq (p : Provider) (config : FilterConfig) (s : Store) (added removed : List Block) :
    doFilter p config s added removed = match storeAdded p config (removeBlocks config s removed).2 added with
      | (.error e, s') => (.err e, s')
      | (.ok logs, s') =>
        match added.getLast? with
        | none => (.panic "runtime error: index out of range", s')
        | some b =>
          (.ok { Added := logs, Removed := revertLogs (removeBlocks config s removed).1 },
            s'.storeLastBlock config.Hash b) := by
  cases removed <;> rfl

namespace Failures

def provider (f : Failures) (p : Provider) : Provider :=
  { p with getBlockByHash := fun h => (f.getBlockByHash h).elim (p.getBlockByHash h) .error }

/-- The loop of `removeLogs`, where reading the log at an index may fail. -/
def removeLoop (fails : ℕ → Option String) (entry : List Log) (number : ℕ) (hash : Option Hash) :
    ℕ → List Log → Except String (ℕ × List Log)
  | 0, remove => .ok (0, remove)
  | elemIndex + 1, remove =>
    match fails elemIndex with
    | some e => .error e
    | none =>
      match entry[elemIndex]? with
      | none => .ok (elemIndex + 1, remove)
      | some log =>
        if logStays number hash log then .ok (elemIndex + 1, remove)
        else removeLoop fails entry number hash elemIndex (remove ++ [log])

section Functions
variable (f : Failures) (p : Provider)

variable (i : ℕ) (config : FilterConfig) (s : Store)

def removeLogs (number : ℕ) (hash : Option Hash) : Except String (List Log) × Store :=
  let entry := s.entries config.Hash
  match f.lastIndex i with
  | some e => (.error e, s)
  | none =>
    if entry.length = 0 then (.ok [], s)
    else
      match removeLoop (f.getLog i) entry number hash entry.length [] with
      | .error e => (.error e, s)
      | .ok (index, remove) =>
        match f.RemoveLogs i with
        | some e => (.error e, s)
        | none => (.ok remove, s.removeLogs config.Hash index)

def storeAdded (i : ℕ) (config : FilterConfig) : Store → List Block → Except String (List Log) × Store
  | s, [] => (.ok [], s)
  | s, block :: rest =>
    let query := { config.getFilterSearch with BlockHash := some block.Hash }
    -- five attempts
    match firstAnswer (fun attempt => (f.getLogs i block attempt).elim (p.getLogs query) .error) 4 0 with
    | .error e => (.error e, s)
    | .ok logs =>
      match f.storeLogs i block with
      | some e => (.error e, s)
      | none =>
        match storeAdded i config (s.storeLogs config.Hash logs) rest with
        | (.error e, s) => (.error e, s)
        | (.ok more, s) => (.ok (logs ++ more), s)

def removeBlocks : List Block → Except String (List Log) × Store
  | [] => (.ok [], s)
  | pivot :: _ => f.removeLogs i config s pivot.Number (some pivot.Hash)

def doFilter (added removed : List Block) : Outcome Event × Store :=
  match f.removeBlocks i config s removed with
  | (.error e, s) => (.err e, s)
  | (.ok removedLogs, s) =>
    match f.storeAdded p i config s added with
    | (.error e, s) => (.err e, s)
    | (.ok logs, s) =>
      match added.getLast? with
      | none => (.panic "runtime error: index out of range", s)
      | some b =>
        match f.storeLastBlock i with
        | some e => (.err e, s)
        | none =>
          (.ok { Added := logs, Removed := revertLogs removedLogs }, s.storeLastBlock config.Hash b)

def dispatch (event : BlockEvent) : ℕ → List Filter → Store → Outcome (List (ℕ × Event)) × Store
  | _, [], s => (.ok [], s)
  | i, filter :: filters, s =>
    if filter.synced then
      match f.doFilter p i filter.config s event.Added event.Removed with
      | (.ok evnt, s) =>
        match dispatch event (i + 1) filters s with
        | (.ok evnts, s) => (.ok ((i, evnt) :: evnts), s)
        | (.err e, s) => (.err e, s)
        | (.panic p, s) => (.panic p, s)
      | (.err e, s) => (.err e, s)
      | (.panic p, s) => (.panic p, s)
    else dispatch event (i + 1) filters s

def handleReconcile (t : Tracker) (block : Block) : Outcome (List (ℕ × Event)) × Tracker :=
  match handleBlockEvent t.config.MaxBlockBacklog (f.provider p) t.blocks block with
  | (.err e, blocks) => (.err e, { t with blocks })
  | (.panic p, blocks) => (.panic p, { t with blocks })
  | (.ok none, blocks) => (.ok [], { t with blocks })
  | (.ok (some event), blocks) =>
    match f.dispatch (f.provider p) event 0 t.filters t.store with
    | (evnts, store) => (evnts, { t with blocks, store })

end Functions

/-! ## Calls that are made good -/

/-- What fails for a filter is made good within the call: one of the five attempts of every query of logs
succeeds, and so do all calls of the store. -/
structure Recovers (f : Failures) (i : ℕ) : Prop where
  logs : ∀ block, ∃ attempt < 5, f.getLogs i block attempt = none
  lastIndex : f.lastIndex i = none
  getLog : ∀ k, f.getLog i k = none
  RemoveLogs : f.RemoveLogs i = none
  storeLogs : ∀ block, f.storeLogs i block = none
  storeLastBlock : f.storeLastBlock i = none

section Functions
variable {f : Failures} {p : Provider} {i : ℕ} {config : FilterConfig} {s : Store}
  {fails : ℕ → Option String} {logs : Block → List Log} {added : List Block}

theorem firstAnswer_ok {logs : List Log} (more k : ℕ) :
    firstAnswer (fun attempt => (fails attempt).elim (.ok logs) .error) more k = .ok logs ∨
      (∃ e, firstAnswer (fun attempt => (fails attempt).elim (.ok logs) .error) more k = .error e) ∧
        ∀ attempt, k ≤ attempt → attempt ≤ k + more → fails attempt ≠ none := by
  induction more generalizing k with
  | zero =>
    rw [firstAnswer]
    cases hk : fails k with
    | none => exact .inl rfl
    | some e =>
      refine .inr ⟨⟨e, rfl⟩, fun attempt hlo hhi => ?_⟩
      rw [show attempt = k by omega, hk]
      exact Option.some_ne_none e
  | succ more ih =>
    rw [firstAnswer]
    cases hk : fails k with
    | none => exact .inl rfl
    | some e =>
      refine (ih (k + 1)).imp_right fun ⟨herror, hall⟩ => ⟨herror, fun attempt hlo hhi => ?_⟩
      rcases hlo.eq_or_lt with rfl | hlt
      · rw [hk]
        exact Option.some_ne_none e
      · exact hall attempt hlt (by omega)

theorem removeLoop_ok {entry : List Log} {number : ℕ} {hash : Option Hash} (n : ℕ) (remove : List Log) :
    removeLoop fails entry number hash n remove = .ok (Tracker.removeLoop entry number hash n remove) ∨
      (∃ e, removeLoop fails entry number hash n remove = .error e) ∧ ∃ k, fails k ≠ none := by
  induction n generalizing remove with
  | zero => exact .inl rfl
  | succ n ih =>
    rw [removeLoop, Tracker.removeLoop]
    cases hfails : fails n with
    | some e => exact .inr ⟨⟨e, rfl⟩, n, by rw [hfails]; exact Option.some_ne_none e⟩
    | none =>
      dsimp only
      cases entry[n]? with
      | none => exact .inl rfl
      | some log =>
        dsimp only
        split
        · exact .inl rfl
        · exact ih _

theorem removeLogs_ok (number : ℕ) (hash : Option Hash) : f.removeLogs i config s number hash =
        (.ok (Tracker.removeLogs config s number hash).1, (Tracker.removeLogs config s number hash).2) ∨
      (∃ e s', f.removeLogs i config s number hash = (.error e, s')) ∧ ¬ f.Recovers i := by
  rw [removeLogs]
  cases hindex : f.lastIndex i with
  | some e =>
    refine .inr ⟨⟨e, s, rfl⟩, fun hrecovers => ?_⟩
    rw [hrecovers.lastIndex] at hindex
    cases hindex
  | none =>
    dsimp only
    split
    · next hempty =>
      -- removing from an empty entry changes nothing
      have hnil := List.length_eq_zero_iff.mp hempty
      have hsame : s.removeLogs config.Hash 0 = s := by
        rw [Store.removeLogs, List.take_zero, ← hnil, Function.update_eq_self]
      rw [Tracker.removeLogs, hnil]
      exact .inl (congrArg (Prod.mk _) hsame.symm)
    · rcases @removeLoop_ok (f.getLog i) (s.entries config.Hash) number hash
        (s.entries config.Hash).length [] with hloop | ⟨⟨e, hloop⟩, k, hk⟩
      · rw [hloop]
        dsimp only
        cases hremove : f.RemoveLogs i with
        | none => exact .inl rfl
        | some e =>
          refine .inr ⟨⟨e, s, rfl⟩, fun hrecovers => ?_⟩
          rw [hrecovers.RemoveLogs] at hremove
          cases hremove
      · rw [hloop]
        exact .inr ⟨⟨e, s, rfl⟩, fun hrecovers => hk (hrecovers.getLog k)⟩

theorem storeAdded_ok (h : p.Answers config logs added) :
    f.storeAdded p i config s added = Tracker.storeAdded p config s added ∨
      (∃ e s', f.storeAdded p i config s added = (.error e, s')) ∧ ¬ f.Recovers i := by
  induction added generalizing s with
  | nil => exact .inl rfl
  | cons b rest ih =>
    have hrest : p.Answers config logs rest := fun c hc => h c (List.mem_cons_of_mem _ hc)
    rw [storeAdded, Tracker.storeAdded, h b (List.mem_cons_self ..)]
    dsimp only
    rcases @firstAnswer_ok (f.getLogs i b) (logs b) 4 0 with hanswer | ⟨⟨e, hanswer⟩, hall⟩
    · rw [hanswer]
      dsimp only
      cases hstore : f.storeLogs i b with
      | some e =>
        refine .inr ⟨⟨e, s, rfl⟩, fun hrecovers => ?_⟩
        rw [hrecovers.storeLogs b] at hstore
        cases hstore
      | none =>
        dsimp only
        rcases ih (s := s.storeLogs config.Hash (logs b)) hrest with hmore | ⟨⟨e, s', hmore⟩, hnot⟩
        · rw [hmore]
          exact .inl rfl
        · rw [hmore]
          exact .inr ⟨⟨e, s', rfl⟩, hnot⟩
    · rw [hanswer]
      refine .inr ⟨⟨e, s, rfl⟩, fun hrecovers => ?_⟩
      obtain ⟨attempt, hlt, hnone⟩ := hrecovers.logs b
      exact hall attempt (Nat.zero_le _) (by omega) hnone

theorem removeBlocks_ok (removed : List Block) : f.removeBlocks i config s removed =
        (.ok (Tracker.removeBlocks config s removed).1, (Tracker.removeBlocks config s removed).2) ∨
      (∃ e s', f.removeBlocks i config s removed = (.error e, s')) ∧ ¬ f.Recovers i := by
  cases removed with
  | nil => exact .inl rfl
  | cons pivot rest => exact removeLogs_ok pivot.Number (some pivot.Hash)

theorem doFilter_ok (h : p.Answers config logs added) (removed : List Block) :
    f.doFilter p i config s added removed = Tracker.doFilter p config s added removed ∨
      (∃ e s', f.doFilter p i config s added removed = (.err e, s')) ∧ ¬ f.Recovers i := by
  rw [doFilter, Tracker.doFilter_eq]
  rcases (removeBlocks_ok removed : f.removeBlocks i config s removed = _ ∨ _) with
    hremove | ⟨⟨e, s', hremove⟩, hnot⟩
  · rw [hremove]
    dsimp only
    rcases storeAdded_ok (f := f) (i := i) (s := (Tracker.removeBlocks config s removed).2) h with
      hadded | ⟨⟨e, s', hadded⟩, hnot⟩
    · rw [hadded, Tracker.storeAdded_ok h]
      dsimp only
      cases added.getLast? with
      | none => exact .inl rfl
      | some b =>
        cases hlast : f.storeLastBlock i with
        | none => exact .inl rfl
        | some e =>
          refine .inr ⟨⟨e, _, rfl⟩, fun hrecovers => ?_⟩
          rw [hrecovers.storeLastBlock] at hlast
          cases hlast
    · rw [hadded]
      exact .inr ⟨⟨e, s', rfl⟩, hnot⟩
  · rw [hremove]
    exact .inr ⟨⟨e, s', rfl⟩, hnot⟩

/-- The filters are processed as without failures, or there is one for which a failure is not made good. -/
theorem dispatch_ok {logs : FilterConfig → Block → List Log} {event : BlockEvent}
    (h : ∀ config, p.Answers config (logs config) event.Added) (filters : List Filter) (i : ℕ) (s : Store) :
    f.dispatch p event i filters s = Tracker.dispatch p event i filters s ∨
      (∃ e s', f.dispatch p event i filters s = (.err e, s')) ∧
        ∃ k filter, filters[k]? = some filter ∧ filter.synced = true ∧ ¬ f.Recovers (i + k) := by
  induction filters generalizing i s with
  | nil => exact .inl rfl
  | cons filter filters ih =>
    -- a failure for one of the later filters
    have hlater : ∀ {s : Store}, f.dispatch p event (i + 1) filters s = Tracker.dispatch p event (i + 1) filters s ∨
        (∃ e s', f.dispatch p event (i + 1) filters s = (.err e, s')) ∧
          ∃ k later, (filter :: filters)[k]? = some later ∧ later.synced = true ∧ ¬ f.Recovers (i + k) := by
      intro s
      refine (ih (i + 1) s).imp_right fun ⟨herror, k, later, hk, hsynced, hnot⟩ =>
        ⟨herror, k + 1, later, hk, hsynced, ?_⟩
      rwa [Nat.add_assoc, Nat.add_comm 1 k] at hnot
    rw [dispatch, Tracker.dispatch]
    split
    · next hsynced =>
      rcases doFilter_ok (f := f) (i := i) (s := s) (h filter.config) event.Removed with
        hfilter | ⟨⟨e, s', hfilter⟩, hnot⟩
      · rw [hfilter]
        rcases Tracker.doFilter p filter.config s event.Added event.Removed with ⟨evnt | e | e, s'⟩
        · dsimp only
          rcases hlater (s := s') with hrest | ⟨⟨e, s'', hrest⟩, hbad⟩
          · rw [hrest]
            exact .inl rfl
          · rw [hrest]
            exact .inr ⟨⟨e, s'', rfl⟩, hbad⟩
        · exact .inl rfl
        · exact .inl rfl
      · rw [hfilter]
        exact .inr ⟨⟨e, s', rfl⟩, 0, filter, rfl, hsynced, hnot⟩
    · exact hlater

end Functions

theorem provider_serves {p : Provider} {tree : LogTree} (f : Failures) (h : p.ServesLogs tree) :
    (f.provider p).ServesLogs tree := by
  refine ⟨fun hash b hb => h.serves hash b ?_, h.answers⟩
  have hb : (f.getBlockByHash hash).elim (p.getBlockByHash hash) .error = .ok b := hb
  cases hfails : f.getBlockByHash hash with
  | none => rwa [hfails] at hb
  | some e =>
    rw [hfails] at hb
    cases hb

section Call
variable {f : Failures} {p : Provider} {tree : LogTree} {t : Tracker} {block : Block}

/-- A call is as one in which only queries for blocks fail, or it returns an error, the head is new, and
for one of the synced filters a failure is not made good. -/
theorem handleReconcile_ok (hserves : p.ServesLogs tree) (hM : 1 ≤ t.config.MaxBlockBacklog)
    (hwindow : IsWindow tree.toBlockTree t.config.MaxBlockBacklog t.blocks) (hblock : block ∈ tree.blocks) :
    f.handleReconcile p t block = Tracker.handleReconcile t (f.provider p) block ∨
      (∃ e t', f.handleReconcile p t block = (.err e, t')) ∧ (∀ o ∈ t.blocks, o.Hash ≠ block.Hash) ∧
        ∃ k filter, t.filters[k]? = some filter ∧ filter.synced = true ∧ ¬ f.Recovers k := by
  have hserves' := f.provider_serves hserves
  have hhandled := handleBlockEvent_handled hM hserves'.serves hblock hwindow
  rw [handleReconcile, Tracker.handleReconcile]
  revert hhandled
  generalize handleBlockEvent t.config.MaxBlockBacklog (f.provider p) t.blocks block = r
  intro hhandled
  cases hhandled with
  | known | failed => exact .inl rfl
  | @moved event blocks hmoves =>
    dsimp only
    have hadded := hmoves.added
    rcases dispatch_ok (f := f) (fun config => hserves'.answers config _ hadded.isPath.mem) t.filters 0 t.store with
      hdispatch | ⟨⟨e, s', hdispatch⟩, k, filter, hk, hsynced, hnot⟩
    · rw [hdispatch]
      exact .inl rfl
    · rw [hdispatch]
      refine .inr ⟨⟨e, _, rfl⟩, hadded.fresh block (List.mem_of_getLast? hadded.ends), k, filter, hk, hsynced, ?_⟩
      rwa [Nat.zero_add] at hnot

end Call

end Failures

/-! ## Chains from block 0 -/

section Genesis
variable {tree : LogTree} {t : Tracker} {provider : Provider} {block first : Block} {i : ℕ} {filter : Filter}
  {chain : List Block}

theorem FromGenesis.of_isPath (hpath : tree.IsPath chain) (hfirst : chain.head? = some first)
    (hzero : first.Number = 0) : FromGenesis chain := by
  obtain ⟨rest, rfl⟩ := List.head?_eq_some_iff.mp hfirst
  refine ⟨hpath.linked, fun n b hb => ?_⟩
  have hnumbers := congrArg (fun l : List ℕ => l[n]?) hpath.numbers
  obtain ⟨hlt, -⟩ := List.getElem?_eq_some_iff.mp hb
  rw [List.getElem?_map, hb, hzero, List.getElem?_range' (by simpa using hlt)] at hnumbers
  simpa using hnumbers

theorem Follows.suffix (h : Follows tree t i filter chain) (hfirst : chain.head? = some first)
    (hzero : first.Number = 0) : t.blocks <:+ chain := by
  obtain ⟨head, hchain, hblocks⟩ := h.holds.head
  rcases h.holds.isPath.suffix_total h.window.isPath (hchain.trans hblocks.symm) with ⟨front, hfront⟩ | hsuffix
  · -- there is nothing below block 0
    cases front with
    | nil => exact hfront ▸ List.suffix_refl _
    | cons b front =>
      have hlt := h.window.isPath.numbers_lt
      rw [← hfront] at hlt
      have hbelow := (List.pairwise_append.mp hlt).2.2 b (List.mem_cons_self ..) first (List.mem_of_head? hfirst)
      omega
  · exact hsuffix

variable (h : Follows tree t i filter chain) (hM : 1 ≤ t.config.MaxBlockBacklog) (hserves : provider.ServesLogs tree) (hblock : block ∈ tree.blocks) (hfirst : chain.head? = some first) (hzero : first.Number = 0)
include h hM hserves hblock hfirst hzero

theorem Follows.head?_nextChain : (nextChain t provider block chain).head? = some first := by
  have hhandled := handleBlockEvent_handled hM hserves.serves hblock h.window
  rw [nextChain]
  revert hhandled
  generalize handleBlockEvent t.config.MaxBlockBacklog provider t.blocks block = r
  intro hhandled
  cases hhandled with
  | known | failed => exact hfirst
  | @moved event blocks hmoves =>
    obtain ⟨rest, rfl⟩ := List.head?_eq_some_iff.mp hfirst
    obtain ⟨kept, hold, -, -, hkept⟩ := hmoves.exists_kept h.window.isPath
    have hstays : first ∉ event.Removed := by
      intro hmem
      have hlt := h.window.isPath.numbers_lt
      rw [hold] at hlt
      cases kept with
      | nil =>
        obtain ⟨head, -, hblocks⟩ := h.holds.head
        rw [hkept rfl] at hblocks
        cases hblocks
      | cons b kept =>
        have hbelow := (List.pairwise_append.mp hlt).2.2 b (List.mem_cons_self ..) first hmem
        omega
    dsimp only
    rw [List.filter_cons_of_pos (by simpa using hstays)]
    rfl

theorem Follows.mem_nextChain {evnts : List (ℕ × Event)} {t' : Tracker}
    (hcall : handleReconcile t provider block = (.ok evnts, t')) : block ∈ nextChain t provider block chain := by
  have hhandled := handleBlockEvent_handled hM hserves.serves hblock h.window
  have hknown : ∀ new, handleBlockEvent t.config.MaxBlockBacklog provider t.blocks block = (.ok none, new) →
      ∃ o ∈ t.blocks, o.Hash = block.Hash := fun new => handleBlockEvent_known hserves.serves hblock
  rw [nextChain]
  rw [handleReconcile] at hcall
  revert hhandled hknown hcall
  generalize handleBlockEvent t.config.MaxBlockBacklog provider t.blocks block = r
  intro hcall hhandled hknown
  cases hhandled with
  | known =>
    obtain ⟨o, ho, hhash⟩ := hknown _ rfl
    rw [← tree.hash_inj o (h.window.isPath.mem o ho) block hblock hhash]
    exact (h.suffix hfirst hzero).subset ho
  | failed err => cases hcall
  | moved hmoves => exact List.mem_append_right _ (List.mem_of_getLast? hmoves.added.ends)

end Genesis

/-! ## The block tracker -/

/-- A round of `Track`: the answer for the latest block, and what a call of the handler then meets. -/
structure Poll where
  latest : Except String Block
  provider : Provider
  failures : Failures

/-- A tracker, and the head that the block tracker has recorded. -/
structure Tracking where
  tracker : Tracker
  lastBlock : Option Block

def Tracking.poll (s : Tracking) (r : Poll) : Tracking :=
  match r.latest with
  | .error _ => s
  | .ok block =>
    if s.lastBlock.any (·.Hash = block.Hash) then s
    else
      match r.failures.handleReconcile r.provider s.tracker block with
      | (.ok _, tracker) => { tracker, lastBlock := some block }
      | (_, tracker) => { s with tracker }

def Tracking.track (s : Tracking) (polls : List Poll) : Tracking := polls.foldl Tracking.poll s

/-- If a head is not in the window yet, then what fails for the synced filters is made good. -/
def Poll.Recovers (r : Poll) (t : Tracker) : Prop :=
  ∀ block, r.latest = .ok block → (∀ o ∈ t.blocks, o.Hash ≠ block.Hash) →
    ∀ i filter, t.filters[i]? = some filter → filter.synced = true → r.failures.Recovers i

def Tracking.Recovers (s : Tracking) : List Poll → Prop
  | [] => True
  | r :: polls => r.Recovers s.tracker ∧ (s.poll r).Recovers polls

def Poll.Serves (r : Poll) (tree : LogTree) : Prop :=
  r.provider.ServesLogs tree ∧ ∀ b, r.latest = .ok b → b ∈ tree.blocks

def FollowsGenesis (tree : LogTree) (t : Tracker) (i : ℕ) (filter : Filter) : Prop :=
  ∃ chain first, Follows tree t i filter chain ∧ chain.head? = some first ∧ first.Number = 0

section Rounds
variable {tree : LogTree} {i : ℕ} {filter : Filter}

theorem FollowsGenesis.step {t : Tracker} (h : FollowsGenesis tree t i filter) (hM : 1 ≤ t.config.MaxBlockBacklog)
    {provider : Provider} (hserves : provider.ServesLogs tree) {block : Block} (hblock : block ∈ tree.blocks) :
    FollowsGenesis tree (handleReconcile t provider block).2 i filter := by
  obtain ⟨chain, first, hfollows, hfirst, hzero⟩ := h
  exact ⟨_, first, (hfollows.step hM hserves hblock).1, hfollows.head?_nextChain hM hserves hblock hfirst hzero, hzero⟩

variable {s : Tracking}

variable (h : FollowsGenesis tree s.tracker i filter) (hM : 1 ≤ s.tracker.config.MaxBlockBacklog)
include h hM

/-- **The step**: a round keeps the entry, if what fails in it is made good. -/
theorem FollowsGenesis.poll {r : Poll} (hserves : r.Serves tree) (hrecovers : r.Recovers s.tracker) :
    FollowsGenesis tree (s.poll r).tracker i filter ∧ 1 ≤ (s.poll r).tracker.config.MaxBlockBacklog := by
  rw [Tracking.poll]
  cases hlatest : r.latest with
  | error e => exact ⟨h, hM⟩
  | ok block =>
    dsimp only
    split
    · exact ⟨h, hM⟩
    have hblock := hserves.2 block hlatest
    obtain ⟨chain, first, hfollows, -⟩ := id h
    rcases r.failures.handleReconcile_ok hserves.1 hM hfollows.window hblock with
      hcall | ⟨-, hnew, k, f, hk, hsynced, hnot⟩
    · have hstep := h.step hM (r.failures.provider_serves hserves.1) hblock
      have hconfig := handleReconcile_config s.tracker (r.failures.provider r.provider) block
      rw [hcall]
      revert hstep hconfig
      rcases handleReconcile s.tracker (r.failures.provider r.provider) block with ⟨evnts | e | e, t⟩ <;>
        exact fun hstep hconfig => ⟨hstep, hconfig ▸ hM⟩
    · exact absurd (hrecovers block hlatest hnew k f hk hsynced) hnot

/-- **The run.** -/
theorem FollowsGenesis.track {polls : List Poll}
    (hserves : ∀ r ∈ polls, r.Serves tree) (hrecovers : s.Recovers polls) :
    FollowsGenesis tree (s.track polls).tracker i filter ∧ 1 ≤ (s.track polls).tracker.config.MaxBlockBacklog := by
  induction polls generalizing s with
  | nil => exact ⟨h, hM⟩
  | cons r polls ih =>
    obtain ⟨hr, hpolls⟩ := List.forall_mem_cons.mp hserves
    obtain ⟨h', hM'⟩ := h.poll hM hr hrecovers.1
    exact ih h' hM' hpolls hrecovers.2

end Rounds

/-- **Failures are made good** before the window moves, or within the call. Then after a call that succeeds
the entry of a filter holds the logs of a chain from block 0 that has the head on it. -/
theorem track_recovers (tree : LogTree) (t : Tracker) (hM : 1 ≤ t.config.MaxBlockBacklog)
    (hwindow : IsWindow tree.toBlockTree t.config.MaxBlockBacklog t.blocks) (i : ℕ) (filter : Filter)
    (hfilter : t.filters[i]? = some filter) (hsynced : filter.synced = true)
    (halone : ∀ j f, t.filters[j]? = some f → f.synced = true → f.config.Hash = filter.config.Hash → j = i)
    (chain : List Block) (hholds : Holds tree t filter.config chain) (hgenesis : FromGenesis chain)
    (lastBlock : Option Block) (polls : List Poll) (hserves : ∀ r ∈ polls, r.Serves tree)
    (hrecovers : Tracking.Recovers { tracker := t, lastBlock } polls) (provider : Provider)
    (hprovider : provider.ServesLogs tree) (failures : Failures) (block : Block) (hblock : block ∈ tree.blocks)
    (evnts : List (ℕ × Event)) (t' : Tracker)
    (hcall : failures.handleReconcile provider (Tracking.track { tracker := t, lastBlock } polls).tracker block =
      (.ok evnts, t')) :
    ∃ chain', Holds tree t' filter.config chain' ∧ FromGenesis chain' ∧ block ∈ chain' := by
  have hfollows : FollowsGenesis tree t i filter := by
    obtain ⟨head, hhead, -⟩ := hholds.head
    cases chain with
    | nil => cases hhead
    | cons first rest =>
      exact ⟨_, first, ⟨hwindow, hfilter, hsynced, halone, hholds⟩, rfl, hgenesis.numbered 0 first rfl⟩
  obtain ⟨⟨chain', first, hfollows', hfirst, hzero⟩, hM'⟩ :=
    hfollows.track (s := { tracker := t, lastBlock }) hM hserves hrecovers
  rcases failures.handleReconcile_ok hprovider hM' hfollows'.window hblock with hsame | ⟨⟨e, t'', herror⟩, -⟩
  · have hserves' := failures.provider_serves hprovider
    rw [hsame] at hcall
    have hstep := (hfollows'.step hM' hserves' hblock).1.holds
    have hhead := hfollows'.head?_nextChain hM' hserves' hblock hfirst hzero
    have hmem := hfollows'.mem_nextChain hM' hserves' hblock hfirst hzero hcall
    rw [hcall] at hstep
    exact ⟨_, hstep, .of_isPath hstep.isPath hhead hzero, hmem⟩
  · rw [herror] at hcall
    cases hcall

def slowLogs (n : ℕ) : Failures :=
  { getBlockByHash := fun _ => none
    getLogs := fun _ _ attempt => if attempt < n then some "not found" else none
    lastIndex := fun _ => none
    getLog := fun _ _ => none
    RemoveLogs := fun _ => none
    storeLogs := fun _ _ => none
    storeLastBlock := fun _ => none }

theorem slowLogs_recovers (i : ℕ) : (slowLogs 4).Recovers i :=
  ⟨fun _ => ⟨4, by decide, rfl⟩, rfl, fun _ => rfl, rfl, fun _ => rfl, rfl⟩

theorem sideNode_servesLogs : sideNode.ServesLogs sideLogTree := by
  refine ⟨sideProvider_serves, fun config chain hchain b hb => ?_⟩
  have h : ∀ b ∈ sideBlocks, (sideBlocks.filter fun c => decide (c.Hash = b.Hash)) = [b] := by decide
  show Except.ok ((sideBlocks.filter fun c => decide (c.Hash = b.Hash)).map blockLog) = _
  rw [h b (hchain b hb)]
  rfl

def firstTracker : Tracker :=
  { config := { BatchSize := 1, MaxBlockBacklog := 2 }
    blocks := threeBlocks.take 1
    filters := [{ synced := true, config := bareConfig }]
    store := { entries := fun _ => (threeBlocks.take 1).map blockLog, lastBlock := fun _ => threeBlocks.head? } }

def secondBlock : Block := threeBlocks.get ⟨1, by decide⟩

theorem isPath_take_one : sideTree.IsPath (threeBlocks.take 1) :=
  isPath_fourBlocks.of_prefix ⟨fourBlocks.drop 1, rfl⟩

/-- A query for the latest block fails, and for the second block the fifth attempt succeeds. -/
theorem track_recovers_slowLogs :
    let polls : List Poll := [{ latest := .error "", provider := sideNode, failures := slowLogs 5 },
      { latest := .ok secondBlock, provider := sideNode, failures := slowLogs 4 }]
    let s := Tracking.track { tracker := firstTracker, lastBlock := none } polls
    ∃ chain, Holds sideLogTree ((slowLogs 0).handleReconcile sideNode s.tracker secondBlock).2 bareConfig chain ∧
      FromGenesis chain ∧ secondBlock ∈ chain := by
  intro polls s
  have hmem : secondBlock ∈ sideBlocks := by decide
  have hserves : ∀ r ∈ polls, r.Serves sideLogTree := by
    refine List.forall_mem_cons.mpr ⟨⟨sideNode_servesLogs, nofun⟩, List.forall_mem_singleton.mpr
      ⟨sideNode_servesLogs, fun b hb => ?_⟩⟩
    cases hb
    exact hmem
  have hrecovers : Tracking.Recovers { tracker := firstTracker, lastBlock := none } polls :=
    ⟨nofun, fun _ _ _ i _ _ _ => slowLogs_recovers i, trivial⟩
  have halone : ∀ j f, firstTracker.filters[j]? = some f → f.synced = true → f.config.Hash = bareConfig.Hash →
      j = 0 := by
    intro j f hf _ _
    obtain ⟨hj, -⟩ := List.getElem?_eq_some_iff.mp hf
    exact Nat.lt_one_iff.mp hj
  exact track_recovers sideLogTree firstTracker (by decide) ⟨isPath_take_one, by decide⟩ 0 _ rfl rfl halone
    (threeBlocks.take 1) ⟨isPath_take_one, ⟨_, rfl, rfl⟩, rfl⟩
    (.of_isPath (show sideLogTree.IsPath _ from isPath_take_one) rfl rfl) none polls hserves hrecovers sideNode sideNode_servesLogs
    (slowLogs 0) secondBlock hmem [] _ rfl

/-- All five attempts for a new head fail. The head is offered again, the call succeeds, and the entry lacks
its log. -/
theorem track_loses_log :
    let polls : List Poll := [{ latest := .ok secondBlock, provider := sideNode, failures := slowLogs 5 }]
    let s := Tracking.track { tracker := firstTracker, lastBlock := none } polls
    s.lastBlock = none ∧ s.tracker.blocks = threeBlocks.take 2 ∧
      (slowLogs 0).handleReconcile sideNode s.tracker secondBlock = (.ok [], s.tracker) ∧
      s.tracker.store.entries bareConfig.Hash = (threeBlocks.take 1).map blockLog ∧
      ¬ ∃ chain, Holds sideLogTree s.tracker bareConfig chain ∧ FromGenesis chain ∧ secondBlock ∈ chain := by
  refine ⟨rfl, rfl, rfl, rfl, ?_⟩
  rintro ⟨chain, hholds, -, hmem⟩
  have hentry : (threeBlocks.take 1).map blockLog = sideLogTree.logsOf bareConfig chain := hholds.entry
  have hlog : blockLog secondBlock ∈ sideLogTree.logsOf bareConfig chain :=
    List.mem_flatMap.mpr ⟨secondBlock, hmem, List.mem_singleton_self _⟩
  have hnone : blockLog secondBlock ∉ (threeBlocks.take 1).map blockLog := by decide
  exact hnone (hentry ▸ hlog)

end Web3.Tracker
