import Web3.Tracker.Ledger
import Web3.Tracker.Sync

/-! # From `Sync` to the live tracker

On a chain that only grows, an entry is complete when it holds the logs of all blocks up to the head of
the window. `Sync` completes the entry, and from then on the events of the window keep it complete, if
every event is either part of what `Sync` has stored or passed to the filter, and not both. The lock and
the flag alone do not ensure this. -/

namespace Web3.Tracker

/-! ## Complete entries -/

variable (ledger : Ledger) (config : FilterConfig)

/-- An entry holds the logs of all blocks below number `n`, in order and each once. A configuration with
a start may leave out the blocks up to that one. -/
def HoldsBelow (entry : List Log) (n : ℕ) : Prop :=
  ∃ first, first ≤ n ∧ first ≤ config.Start + 1 ∧ (config.Start = 0 → first = 0) ∧
    entry = ledger.logsOf config ((ledger.chain.take n).drop first)

/-- The entry holds the logs of all blocks up to number `n`, and this block is stored as the last one. -/
structure Reaches (ledger : Ledger) (config : FilterConfig) (s : Store) (n : ℕ) : Prop where
  entry : HoldsBelow ledger config (s.entries config.Hash) (n + 1)
  last : s.lastBlock config.Hash = ledger.chain[n]?

/-- The window has room for a block, and no number that `syncBatch` computes overflows. -/
structure Config.Suits (config : Config) (ledger : Ledger) : Prop where
  backlog : 1 ≤ config.MaxBlockBacklog
  fits : ledger.chain.length + config.BatchSize ≤ 2 ^ 64

/-- How far `Sync` and the live tracker are, with the window at block number `h`. -/
def Progress (s : Store) (h : ℕ) (pending : Option BlockEvent) : SyncPoint → Prop
  | .start => s.lastBlock config.Hash = none ∧ s.entries config.Hash = [] ∨
      ∃ n ≤ h, Reaches ledger config s n
  | .batch i batchSize limit => i ≤ limit ∧ limit < h ∧ ledger.chain.length + batchSize ≤ 2 ^ 64 ∧
      HoldsBelow ledger config (s.entries config.Hash) i
  | .relock origin => origin ≤ h ∧ HoldsBelow ledger config (s.entries config.Hash) origin
  | .unlocked => Reaches ledger config s h ∨
      ∃ n < h, Reaches ledger config s n ∧ pending = some (ledger.event n h)
  | .done => Reaches ledger config s h ∧ pending = none ∨
      ∃ n < h, Reaches ledger config s n ∧ pending = some (ledger.event n h)
  -- the configured start may be ahead of the window
  | .failed _ => config.Start ≠ 0
  | .panicked _ => False

section Entries
variable {ledger : Ledger} {config : FilterConfig} {s s' : Store} {h : ℕ} {n : ℕ}
  {pending : Option BlockEvent} {point : SyncPoint}

theorem HoldsBelow.append {entry : List Log} {m : ℕ} (hholds : HoldsBelow ledger config entry n)
    (hn : n ≤ m) (hm : m ≤ ledger.chain.length) :
    HoldsBelow ledger config (entry ++ ledger.logsOf config ((ledger.chain.take m).drop n)) m := by
  obtain ⟨first, hfirst, hstart, hzero, rfl⟩ := hholds
  refine ⟨first, hfirst.trans hn, hstart, hzero, ?_⟩
  rw [drop_take_append hfirst hn hm, LogTree.logsOf, LogTree.logsOf, LogTree.logsOf, List.flatMap_append]

theorem HoldsBelow.nil (hstart : n ≤ config.Start + 1) (hzero : config.Start = 0 → n = 0) :
    HoldsBelow ledger config [] n := by
  refine ⟨n, le_rfl, hstart, hzero, ?_⟩
  rw [List.drop_eq_nil_of_le (List.length_take_le _ _)]
  rfl

theorem Progress.congr (hprogress : Progress ledger config s h pending point)
    (hentries : s'.entries config.Hash = s.entries config.Hash)
    (hlast : s'.lastBlock config.Hash = s.lastBlock config.Hash) : Progress ledger config s' h pending point := by
  have hreaches : ∀ {n : ℕ}, Reaches ledger config s n → Reaches ledger config s' n :=
    fun hr => ⟨by rw [hentries]; exact hr.entry, by rw [hlast]; exact hr.last⟩
  cases point with
  | start =>
    refine hprogress.imp (fun hnone => ?_) fun ⟨n, hn, hr⟩ => ⟨n, hn, hreaches hr⟩
    rwa [hentries, hlast]
  | batch i batchSize limit | relock origin =>
    rw [Progress, hentries]
    exact hprogress
  | unlocked => exact hprogress.imp hreaches fun ⟨n, hn, hr, hp⟩ => ⟨n, hn, hreaches hr, hp⟩
  | done =>
    exact hprogress.imp (fun ⟨hr, hp⟩ => ⟨hreaches hr, hp⟩) fun ⟨n, hn, hr, hp⟩ => ⟨n, hn, hreaches hr, hp⟩
  | failed | panicked => exact hprogress

theorem Progress.head (hprogress : Progress ledger config s h none point) {h' : ℕ} (hh : h < h') :
    Progress ledger config s h' (some (ledger.event h h')) point := by
  have hwaits : ∀ {n : ℕ}, none = some (ledger.event n h) → False := nofun
  cases point with
  | start => exact hprogress.imp id fun ⟨n, hn, hr⟩ => ⟨n, hn.trans hh.le, hr⟩
  | batch i batchSize limit => exact ⟨hprogress.1, hprogress.2.1.trans hh, hprogress.2.2⟩
  | relock origin => exact ⟨hprogress.1.trans hh.le, hprogress.2⟩
  | unlocked =>
    rcases hprogress with hr | ⟨n, hn, hr, hp⟩
    · exact .inr ⟨h, hh, hr, rfl⟩
    · exact (hwaits hp).elim
  | done =>
    rcases hprogress with ⟨hr, -⟩ | ⟨n, hn, hr, hp⟩
    · exact .inr ⟨h, hh, hr, rfl⟩
    · exact (hwaits hp).elim
  | failed | panicked => exact hprogress

theorem Progress.passes_by (hprogress : Progress ledger config s h pending point)
    (hnot : point ≠ .done) (hstored : point = .unlocked → ∀ n < h, ¬ Reaches ledger config s n) :
    Progress ledger config s h none point := by
  cases point with
  | start | batch | relock => exact hprogress
  | unlocked =>
    rcases hprogress with hr | ⟨n, hn, hr, -⟩
    · exact .inl hr
    · exact absurd hr (hstored rfl n hn)
  | done => exact absurd rfl hnot
  | failed | panicked => exact hprogress

end Entries

/-! ## The sections of `Sync` -/

/-- A section of `Sync` has not set the flag, and it makes progress whatever event is pending. -/
def Advances (h : ℕ) (r : SyncPoint × Store) : Prop :=
  r.1 ≠ .done ∧ ∀ pending, Progress ledger config r.2 h pending r.1

section Sections
variable {ledger : Ledger} {config : FilterConfig} {t : Tracker} {provider : Provider} {s : Store}
  {h top origin : ℕ}

theorem advances_unlocked (hreaches : Reaches ledger config s h) : Advances ledger config h (.unlocked, s) :=
  ⟨SyncPoint.noConfusion, fun _ => .inl hreaches⟩

theorem advances_failed (hstart : config.Start ≠ 0) (err : String) : Advances ledger config h (.failed err, s) :=
  ⟨SyncPoint.noConfusion, fun _ => hstart⟩

/-- The end of `syncImpl` processes the rest of a chain whose last blocks are in the window. -/
theorem syncHead_ok {chain : List Block} {logs : Block → List Log}
    (hwindow : t.blocks = chain.rtake t.config.MaxBlockBacklog) (horigin : origin < chain.length)
    (hstep : chain.length - origin ≤ t.config.MaxBlockBacklog)
    (hanswers : provider.Answers config logs (chain.drop origin)) :
    ∃ s', syncHead t provider config s (chain.length - 1) origin = (.unlocked, s') ∧
      s'.entries config.Hash = s.entries config.Hash ++ (chain.drop origin).flatMap logs ∧
      s'.lastBlock config.Hash = chain.getLast? := by
  have hneed : chain.length - 1 + 1 - origin = chain.length - origin := by omega
  have hblocks : t.blocks.length = min t.config.MaxBlockBacklog chain.length := by
    rw [hwindow, List.rtake, List.length_drop]
    omega
  have hadded : t.blocks.drop (t.blocks.length - (chain.length - origin)) = chain.drop origin := by
    change t.blocks.rtake (chain.length - origin) = _
    rw [hwindow, rtake_rtake hstep, List.rtake]
    congr 1
    omega
  have hlast : (chain.drop origin).getLast? = chain.getLast? := by
    rw [List.getLast?_drop, if_neg (by omega)]
  obtain ⟨head, hhead⟩ : ∃ head, chain.getLast? = some head :=
    ⟨_, List.getLast?_eq_getLast_of_ne_nil (List.ne_nil_of_length_pos (by omega))⟩
  have htakes : TakesOff [] (s.entries config.Hash) [] := rfl
  obtain ⟨s', hdo, hentries, hlastBlock⟩ :=
    doFilter_ok hanswers (hlast.trans hhead) (List.append_nil _).symm htakes
  refine ⟨s', ?_, hentries, hlastBlock.trans hhead.symm⟩
  rw [syncHead, hneed, if_neg (by omega), hadded]
  dsimp only
  rw [hdo]

variable (hserves : provider.ServesUpTo ledger top) (hh : h ≤ top) (htop : top < ledger.chain.length)
  (hsuits : t.config.Suits ledger) (hwindow : t.blocks = (ledger.chain.take (h + 1)).rtake t.config.MaxBlockBacklog)
include hserves hh htop hsuits hwindow

omit hsuits in
theorem syncHead_advances (horigin : origin ≤ h) (hstep : h + 1 - origin ≤ t.config.MaxBlockBacklog)
    (hentry : HoldsBelow ledger config (s.entries config.Hash) origin) :
    Advances ledger config h (syncHead t provider config s h origin) := by
  have hlen : (ledger.chain.take (h + 1)).length = h + 1 := List.length_take_of_le (by omega)
  have hanswers : provider.Answers config (ledger.logs config.getFilterSearch)
      ((ledger.chain.take (h + 1)).drop origin) := fun b hb =>
    hserves.byBlock config b ((List.take_prefix_take_left (by omega)).subset (List.mem_of_mem_drop hb))
  obtain ⟨s', hhead, hentries, hlast⟩ :=
    syncHead_ok (s := s) hwindow (by omega) (by omega) hanswers
  rw [hlen] at hhead
  rw [show h = h + 1 - 1 from rfl, hhead]
  refine advances_unlocked ⟨?_, ?_⟩
  · rw [hentries]
    exact hentry.append (by omega) (by omega)
  · rw [hlast]
    exact Ledger.getLast?_take (by omega)

section
variable (horigin : origin ≤ h) (hentry : HoldsBelow ledger config (s.entries config.Hash) origin)
include horigin hentry

theorem syncLoop_advances : Advances ledger config h (syncLoop t provider config s h origin) := by
  rw [syncLoop, if_neg (by omega)]
  split
  · next hstep => exact syncHead_advances hserves hh htop hwindow horigin (by omega) hentry
  · have := hsuits.backlog
    exact ⟨SyncPoint.noConfusion, fun pending => ⟨by omega, by omega, hsuits.fits, hentry⟩⟩

theorem syncFrom_advances : Advances ledger config h (syncFrom t provider config s h origin) := by
  rw [syncFrom]
  split
  · exact syncLoop_advances hserves hh htop hsuits hwindow horigin hentry
  · next hstep => exact syncHead_advances hserves hh htop hwindow horigin (by omega) hentry

end

theorem syncAfter_advances {n : ℕ} {last : Block} (hlast : ledger.chain[n]? = some last) (hn : h < n → config.Start ≠ 0)
    (hentry : HoldsBelow ledger config (s.entries config.Hash) (if n = h then n else n + 1)) :
    Advances ledger config h (syncAfter t provider config s h last) := by
  have hnumber := ledger.numbered n last hlast
  rw [syncAfter, hnumber]
  split
  · next hlt => exact advances_failed (hn hlt) _
  · next hle =>
    rw [hserves.byNumber n last (by omega) hlast]
    dsimp only
    rw [if_neg (not_not.mpr rfl)]
    refine syncFrom_advances hserves hh htop hsuits hwindow ?_ hentry
    split <;> omega

variable {pending : Option BlockEvent}

theorem syncImpl_advances (hstart : Progress ledger config t.store h pending .start) :
    Advances ledger config h (syncImpl t provider config) := by
  obtain ⟨target, htarget⟩ : ∃ target, ledger.chain[h]? = some target :=
    ⟨_, List.getElem?_eq_getElem (by omega)⟩
  have hhead : t.blocks.getLast? = some target := by
    rw [hwindow, getLast?_window hsuits.backlog (by omega), ← htarget, List.getElem?_eq_getElem]
  have hnumber := ledger.numbered h target htarget
  rw [syncImpl, hhead]
  dsimp only
  rw [hnumber]
  rcases hstart with ⟨hnone, hempty⟩ | ⟨n, hn, hreaches⟩
  · rw [hnone]
    dsimp only
    by_cases hzero : config.Start = 0
    · rw [fastTrack, if_neg (not_not.mpr hzero)]
      refine syncFrom_advances hserves hh htop hsuits hwindow (Nat.zero_le _) ?_
      rw [hempty]
      exact HoldsBelow.nil (Nat.zero_le _) fun _ => rfl
    · rw [fastTrack, if_pos hzero]
      cases hget : provider.getBlockByNumber config.Start with
      | error e => exact advances_failed hzero _
      | ok last =>
        refine syncAfter_advances hserves hh htop hsuits hwindow (hserves.byNumber_ok _ _ hget) (fun _ => hzero) ?_
        rw [Store.storeLastBlock, hempty]
        exact HoldsBelow.nil (by split <;> omega) fun h => absurd h hzero
  · obtain ⟨last, hlast⟩ : ∃ last, ledger.chain[n]? = some last :=
      ⟨_, List.getElem?_eq_getElem (by omega)⟩
    rw [hreaches.last, hlast]
    dsimp only
    split
    · next hhash =>
      have hmem : ∀ {m : ℕ} {b : Block}, ledger.chain[m]? = some b → b ∈ ledger.blocks := fun hb =>
        (ledger.mem_blocks _).mpr (List.mem_of_getElem? hb)
      have hsame : last = target := ledger.hash_inj _ (hmem hlast) _ (hmem htarget) hhash
      have hnh : n = h := by
        rw [← ledger.numbered n last hlast, hsame, hnumber]
      rw [hnh] at hreaches
      exact advances_unlocked hreaches
    · next hhash =>
      have hne : n ≠ h := by
        rintro rfl
        exact hhash (congrArg Block.Hash (Option.some.inj (hlast.symm.trans htarget)))
      refine syncAfter_advances hserves hh htop hsuits hwindow hlast (by omega) ?_
      rw [if_neg hne]
      exact hreaches.entry

omit hwindow in
theorem syncBatch_advances {i batchSize limit : ℕ} (hi : i ≤ limit) (hlimit : limit < h)
    (hfits : ledger.chain.length + batchSize ≤ 2 ^ 64) (hentry : HoldsBelow ledger config (s.entries config.Hash) i) :
    Advances ledger config h (syncBatch t provider config s i batchSize limit) := by
  obtain ⟨block, hblock⟩ : ∃ block, ledger.chain[min limit (i + batchSize)]? = some block :=
    ⟨_, List.getElem?_eq_getElem (by omega)⟩
  rw [syncBatch, Nat.mod_eq_of_lt (by omega : i + batchSize < _), Nat.mod_eq_of_lt (by omega)]
  dsimp only
  rw [hserves.byRange config i _ (by omega) (by omega)]
  dsimp only
  rw [hserves.byNumber _ block (by omega) hblock]
  have hentry' := hentry.append (m := min limit (i + batchSize) + 1) (by omega) (by omega)
  have hstored : ∀ b : Block, ((s.storeLogs config.Hash (ledger.logsOf config
      ((ledger.chain.take (min limit (i + batchSize) + 1)).drop i))).storeLastBlock config.Hash b).entries
        config.Hash = s.entries config.Hash ++ ledger.logsOf config
          ((ledger.chain.take (min limit (i + batchSize) + 1)).drop i) :=
    fun b => Store.entries_storeLogs ..
  dsimp only
  split
  · next hmore =>
    have hdst : min limit (i + batchSize) + 1 = i + batchSize + 1 := by omega
    have hgrown := hsuits.fits
    refine ⟨SyncPoint.noConfusion, fun pending => ⟨hmore, hlimit, by split <;> omega, ?_⟩⟩
    rw [hstored, ← hdst]
    exact hentry'
  · next hover =>
    have hdst : min limit (i + batchSize) + 1 = limit + 1 := by omega
    refine ⟨SyncPoint.noConfusion, fun pending => ⟨by omega, ?_⟩⟩
    rw [hstored, ← hdst]
    exact hentry'

theorem syncSection_advances {point : SyncPoint} (hprogress : Progress ledger config t.store h pending point)
    {r : SyncPoint × Store} (hr : syncSection t provider config point = some r) : Advances ledger config h r := by
  cases point with
  | start =>
    cases hr
    exact syncImpl_advances hserves hh htop hsuits hwindow hprogress
  | batch i batchSize limit =>
    cases hr
    obtain ⟨hi, hlimit, hfits, hentry⟩ := hprogress
    exact syncBatch_advances hserves hh htop hsuits hi hlimit hfits hentry
  | relock origin =>
    cases hr
    have hlt : h < ledger.chain.length := by omega
    have hnumber := ledger.numbered h _ (List.getElem?_eq_getElem hlt)
    rw [syncRelock, hwindow, getLast?_window hsuits.backlog hlt]
    dsimp only
    rw [hnumber]
    exact syncLoop_advances hserves hh htop hsuits hwindow hprogress.1 hprogress.2
  | unlocked | done | failed | panicked => cases hr

end Sections

/-! ## Steps -/

/-- What an action may be: the node's chain grows along the ledger, its answers are right, and heads
are blocks of its chain. -/
def Allowed (ledger : Ledger) (s : System) : Action → Prop
  | .grow => s.top + 1 < ledger.chain.length
  | .head provider block => provider.ServesUpTo ledger s.top ∧ block ∈ ledger.chain.take (s.top + 1)
  | .dispatch provider => provider.ServesUpTo ledger s.top
  | .sync provider => provider.ServesUpTo ledger s.top
  | .setSynced => True

def System.HasStored (s : System) (config : FilterConfig) (b : Block) : Prop :=
  ∃ last, s.tracker.store.lastBlock config.Hash = some last ∧ b.Number ≤ last.Number

/-- The right time for an action. Once `syncImpl` has returned and until the flag is set, an event may
only pass the filter by if its blocks are stored, and the flag may only be set if they are not. -/
def Timely (config : FilterConfig) (s : System) : Action → Prop
  | .dispatch _ => s.sync = .unlocked → ∀ e ∈ s.pending, ∀ b ∈ e.Added, s.HasStored config b
  | .setSynced => s.sync = .unlocked → ∀ e ∈ s.pending, ∀ b ∈ e.Added, ¬ s.HasStored config b
  | _ => True

def Along (i : ℕ) (P : System → Action → Prop) : System → List Action → Prop
  | _, [] => True
  | s, a :: actions => P s a ∧ Along i P (s.step i a) actions

/-- The invariant, with the window at block number `h`. -/
structure Inv (ledger : Ledger) (i : ℕ) (config : FilterConfig) (s : System) (h : ℕ) : Prop where
  suits : s.tracker.config.Suits ledger
  listed : ∃ f, s.tracker.filters[i]? = some f ∧ f.config = config ∧ (f.synced = true ↔ s.sync = .done)
  others : ∀ j f, s.tracker.filters[j]? = some f → j ≠ i → f.synced = true → f.config.Hash ≠ config.Hash
  top : s.top < ledger.chain.length
  head : h ≤ s.top
  window : s.tracker.blocks = (ledger.chain.take (h + 1)).rtake s.tracker.config.MaxBlockBacklog
  pending : ∀ e ∈ s.pending, ∃ n < h, e = ledger.event n h
  progress : Progress ledger config s.tracker.store h s.pending s.sync

section Steps
variable {ledger : Ledger} {i : ℕ} {config : FilterConfig} {s : System} {h : ℕ} {n : ℕ}
  {provider : Provider}

theorem getLast?_event (hn : n < h) (hh : h < ledger.chain.length) :
    (ledger.event n h).Added.getLast? = some ledger.chain[h] := by
  have hlen : (ledger.chain.take (h + 1)).length = h + 1 := List.length_take_of_le hh
  rw [Ledger.event, List.getLast?_drop, if_neg (by omega), Ledger.getLast?_take hh,
    List.getElem?_eq_getElem hh]

theorem answers_event {top : ℕ} (hserves : provider.ServesUpTo ledger top) (hh : h ≤ top)
    (config : FilterConfig) (n : ℕ) :
    provider.Answers config (ledger.logs config.getFilterSearch) (ledger.event n h).Added := fun b hb =>
  hserves.byBlock config b ((List.take_prefix_take_left (by omega)).subset (List.mem_of_mem_drop hb))

section
variable (hinv : Inv ledger i config s h)
include hinv

theorem Inv.lt : h < ledger.chain.length := hinv.head.trans_lt hinv.top

theorem Inv.head_step {block : Block} (hallowed : Allowed ledger s (.head provider block)) :
    ∃ h', Inv ledger i config (s.step i (.head provider block)) h' := by
  rw [System.step]
  cases hpending : s.pending with
  | some e => exact ⟨h, hinv⟩
  | none =>
    dsimp only
    generalize hr : handleBlockEvent s.tracker.config.MaxBlockBacklog provider s.tracker.blocks block = r
    rw [hinv.window] at hr
    have hprogress := hinv.progress
    rw [hpending] at hprogress
    rcases handleBlockEvent_grows hinv.suits.backlog hallowed.1.byHash hallowed.2 (hinv.lt) hr
      with ⟨hsame, hblocks⟩ | ⟨h', hlt, hle, rfl⟩
    · obtain ⟨result, blocks⟩ := r
      refine ⟨h, ?_⟩
      rcases hsame with hnone | ⟨e, herr⟩
      · cases hnone
        exact { hinv with window := hblocks, pending := nofun, progress := hprogress }
      · cases herr
        exact { hinv with window := hblocks, pending := nofun, progress := hprogress }
    · refine ⟨h', hinv.suits, hinv.listed, hinv.others, hinv.top, hle, rfl, ?_, hprogress.head hlt⟩
      intro e he
      cases he
      exact ⟨h, hlt, rfl⟩

theorem Inv.dispatch_synced
    (hserves : provider.ServesUpTo ledger s.top) (hdone : s.sync = .done) {e : BlockEvent}
    (hpending : s.pending = some e) :
    ∃ evnts store, dispatch provider e 0 s.tracker.filters s.tracker.store = (.ok evnts, store) ∧
      Reaches ledger config store h := by
  have hlt := hinv.lt
  obtain ⟨f, hf, hconfig, hflag⟩ := hinv.listed
  have hprogress := hinv.progress
  rw [hdone, hpending] at hprogress
  rcases hprogress with ⟨-, hnone⟩ | ⟨n, hn, hreaches, hevent⟩
  · cases hnone
  cases hevent
  have hlast := getLast?_event hn hlt
  have halone : ∀ j g, s.tracker.filters[j]? = some g → g.synced = true → g.config.Hash = f.config.Hash → j = i := by
    intro j g hg hs hhash
    rw [hconfig] at hhash
    by_contra hj
    exact hinv.others j g hg hj hs hhash
  have htakes : TakesOff (ledger.event n h).Removed (s.tracker.store.entries f.config.Hash) [] := rfl
  obtain ⟨evnts, store, hdispatch, -, hentries, hlastBlock⟩ :=
    dispatch_ok (fun config => answers_event hserves hinv.head config n) hlast hf (hflag.mpr hdone) halone
      (List.append_nil _).symm htakes
  rw [hconfig] at hentries hlastBlock
  refine ⟨evnts, store, hdispatch, ?_, ?_⟩
  · rw [hentries]
    exact hreaches.entry.append (by omega) (by omega)
  · rw [hlastBlock, List.getElem?_eq_getElem hlt]

theorem Inv.dispatch_unsynced
    (hserves : provider.ServesUpTo ledger s.top) (hnot : s.sync ≠ .done) (hn : n < h) :
    ∃ evnts store, dispatch provider (ledger.event n h) 0 s.tracker.filters s.tracker.store = (.ok evnts, store) ∧
      store.entries config.Hash = s.tracker.store.entries config.Hash ∧
      store.lastBlock config.Hash = s.tracker.store.lastBlock config.Hash := by
  have hlt := hinv.lt
  have hlast := getLast?_event hn hlt
  obtain ⟨f, hf, hconfig, hflag⟩ := hinv.listed
  have hother : ∀ g ∈ s.tracker.filters, g.synced = true → g.config.Hash ≠ config.Hash := by
    intro g hg hs
    obtain ⟨j, hj⟩ := List.mem_iff_getElem?.mp hg
    refine hinv.others j g hj ?_ hs
    rintro rfl
    rw [hf] at hj
    cases hj
    exact hnot (hflag.mp hs)
  obtain ⟨evnts, store, hdispatch, hentries, hlastBlock, -⟩ :=
    dispatch_other (s := s.tracker.store) (fun config => answers_event hserves hinv.head config n) hlast
      hother 0
  exact ⟨evnts, store, hdispatch, hentries, hlastBlock⟩

theorem Inv.dispatch_step
    (hallowed : Allowed ledger s (.dispatch provider)) (htimely : Timely config s (.dispatch provider)) :
    Inv ledger i config (s.step i (.dispatch provider)) h := by
  rw [System.step]
  cases hpending : s.pending with
  | none => exact hinv
  | some e =>
    dsimp only
    by_cases hdone : s.sync = .done
    · obtain ⟨evnts, store, hdispatch, hreaches⟩ := hinv.dispatch_synced hallowed hdone hpending
      rw [hdispatch]
      refine { hinv with pending := nofun, progress := ?_ }
      dsimp only
      rw [hdone]
      exact .inl ⟨hreaches, rfl⟩
    · obtain ⟨n, hn, rfl⟩ := hinv.pending e hpending
      obtain ⟨evnts, store, hdispatch, hentries, hlastBlock⟩ := hinv.dispatch_unsynced hallowed hdone hn
      rw [hdispatch]
      refine { hinv with pending := nofun, progress := ?_ }
      refine (hinv.progress.passes_by hdone fun hsync m hm hreaches => ?_).congr hentries hlastBlock
      -- the last block of the event is stored, so the entry is not behind
      have hlt := hinv.lt
      have hlast := getLast?_event hn hlt
      obtain ⟨last, hstored, hle⟩ := htimely hsync _ hpending _ (List.mem_of_getLast? hlast)
      rw [hreaches.last] at hstored
      have := ledger.numbered _ _ hstored
      have := ledger.numbered _ _ (List.getElem?_eq_getElem hlt)
      omega

theorem Inv.sync_step
    (hallowed : Allowed ledger s (.sync provider)) : Inv ledger i config (s.step i (.sync provider)) h := by
  obtain ⟨f, hf, hconfig, hflag⟩ := hinv.listed
  rw [System.step, hf]
  dsimp only
  rw [hconfig]
  cases hr : syncSection s.tracker provider config s.sync with
  | none => exact hinv
  | some r =>
    obtain ⟨hnot, hprogress⟩ := syncSection_advances hallowed hinv.head hinv.top hinv.suits hinv.window
      hinv.progress hr
    have hbefore : s.sync ≠ .done := fun hdone => by
      rw [hdone] at hr
      cases hr
    refine { hinv with listed := ⟨f, hf, hconfig, ?_⟩, progress := hprogress s.pending }
    exact ⟨fun hs => absurd (hflag.mp hs) hbefore, fun hdone => absurd hdone hnot⟩

theorem Inv.setSynced_step (htimely : Timely config s .setSynced) :
    Inv ledger i config (s.step i .setSynced) h := by
  rw [System.step]
  split
  · next hsync =>
    obtain ⟨f, hf, hconfig, -⟩ := hinv.listed
    have hlt := hinv.lt
    refine { hinv with listed := ⟨{ f with synced := true }, ?_, hconfig, by simp⟩, others := ?_, progress := ?_ }
    · rw [List.getElem?_modify_eq, hf]
      rfl
    · intro j g hg hj hs
      rw [List.getElem?_modify_ne _ _ (Ne.symm hj)] at hg
      exact hinv.others j g hg hj hs
    · have hprogress := hinv.progress
      rw [hsync] at hprogress
      refine hprogress.imp (fun hreaches => ⟨hreaches, ?_⟩) id
      -- the blocks of a pending event would be stored
      refine Option.eq_none_iff_forall_ne_some.mpr fun e he => ?_
      obtain ⟨n, hn, rfl⟩ := hinv.pending e he
      have hlast := getLast?_event hn hlt
      refine htimely hsync _ he _ (List.mem_of_getLast? hlast) ⟨_, ?_, le_rfl⟩
      rw [hreaches.last, List.getElem?_eq_getElem hlt]
  · exact hinv

end

/-- **The step**: an action at the right time keeps the invariant. -/
theorem Inv.step (hinv : Inv ledger i config s h) {a : Action} (hallowed : Allowed ledger s a)
    (htimely : Timely config s a) : ∃ h', Inv ledger i config (s.step i a) h' := by
  cases a with
  | grow =>
    exact ⟨h, { hinv with top := hallowed, head := hinv.head.trans (Nat.le_succ _) }⟩
  | head provider block => exact hinv.head_step hallowed
  | dispatch provider => exact ⟨h, hinv.dispatch_step hallowed htimely⟩
  | sync provider => exact ⟨h, hinv.sync_step hallowed⟩
  | setSynced => exact ⟨h, hinv.setSynced_step htimely⟩

/-- **The run**. -/
theorem Inv.run (hinv : Inv ledger i config s h) {actions : List Action}
    (hallowed : Along i (Allowed ledger) s actions) (htimely : Along i (Timely config) s actions) :
    ∃ h', Inv ledger i config (s.run i actions) h' := by
  induction actions generalizing s h with
  | nil => exact ⟨h, hinv⟩
  | cons a actions ih =>
    obtain ⟨h', hinv'⟩ := hinv.step hallowed.1 htimely.1
    exact ih hinv' hallowed.2 htimely.2

end Steps

/-! ## Runs -/

/-- A tracker whose window is full, or reaches back to block number 0, and a filter that is not synced.
Nothing is stored for the filter, or all up to a block that is not after the head. -/
structure Starts (ledger : Ledger) (i : ℕ) (config : FilterConfig) (s : System) : Prop where
  suits : s.tracker.config.Suits ledger
  listed : ∃ f, s.tracker.filters[i]? = some f ∧ f.config = config ∧ f.synced = false
  others : ∀ j f, s.tracker.filters[j]? = some f → j ≠ i → f.synced = true → f.config.Hash ≠ config.Hash
  top : s.top < ledger.chain.length
  idle : s.sync = .start ∧ s.pending = none
  window : ∃ h ≤ s.top, s.tracker.blocks = (ledger.chain.take (h + 1)).rtake s.tracker.config.MaxBlockBacklog ∧
      (s.tracker.store.lastBlock config.Hash = none ∧ s.tracker.store.entries config.Hash = [] ∨
        ∃ n ≤ h, Reaches ledger config s.tracker.store n)

theorem Starts.inv {ledger : Ledger} {i : ℕ} {config : FilterConfig} {s : System}
    (hstart : Starts ledger i config s) : ∃ h, Inv ledger i config s h := by
  obtain ⟨f, hf, hconfig, hsynced⟩ := hstart.listed
  obtain ⟨hsync, hpending⟩ := hstart.idle
  obtain ⟨h, hh, hwindow, hentry⟩ := hstart.window
  refine ⟨h, hstart.suits, ⟨f, hf, hconfig, ?_⟩, hstart.others, hstart.top, hh, hwindow, ?_, ?_⟩
  · rw [hsynced, hsync]
    exact ⟨nofun, nofun⟩
  · rw [hpending]
    nofun
  · rw [hsync]
    exact hentry

/-- **The hand-over.** In every run whose actions come at the right time `Sync` does not panic, it does
not fail unless a start is configured, and once it has finished and all calls of `handleReconcile`
have returned, the entry holds the logs of every block up to the head, each once. -/
theorem sync_hands_over (ledger : Ledger) (i : ℕ) (config : FilterConfig) (s : System)
    (hstart : Starts ledger i config s) (actions : List Action)
    (hallowed : Along i (Allowed ledger) s actions) (htimely : Along i (Timely config) s actions) :
    let final := s.run i actions
    (∀ err, final.sync ≠ .panicked err) ∧ (config.Start = 0 → ∀ err, final.sync ≠ .failed err) ∧
      (final.sync = .done → final.pending = none → ∃ head, final.tracker.blocks.getLast? = some head ∧
        HoldsBelow ledger config (final.tracker.store.entries config.Hash) (head.Number + 1)) := by
  obtain ⟨h₀, hinv₀⟩ := hstart.inv
  obtain ⟨h, hinv⟩ := hinv₀.run hallowed htimely
  have hprogress := hinv.progress
  refine ⟨fun err hsync => ?_, fun hzero err hsync => ?_, fun hsync hpending => ?_⟩
  · rw [hsync] at hprogress
    exact hprogress
  · rw [hsync] at hprogress
    exact hprogress hzero
  · have hlt := hinv.lt
    rw [hsync, hpending] at hprogress
    rcases hprogress with ⟨hreaches, -⟩ | ⟨n, hn, hreaches, hevent⟩
    · refine ⟨ledger.chain[h], ?_, ?_⟩
      · rw [hinv.window, getLast?_window hinv.suits.backlog hlt]
      · rw [ledger.numbered h _ (List.getElem?_eq_getElem hlt)]
        exact hreaches.entry
    · cases hevent

def genesisBlock : Block := { Number := 0, Hash := bytesToHash [1], ParentHash := bytesToHash [0] }

def firstBlock : Block := { Number := 1, Hash := bytesToHash [2], ParentHash := bytesToHash [1] }

def firstLog : Log :=
  { BlockHash := firstBlock.Hash
    BlockNumber := 1
    LogIndex := 0
    Address := Address.zero
    Topics := []
    Data := [] }

def twoBlocks : List Block := [genesisBlock, firstBlock]

def twoLedger : Ledger :=
  { BlockTree.ofList twoBlocks (by decide) (by decide) with
    logs := fun _ b => if b = firstBlock then [firstLog] else []
    labelled := by
      intro search b _ log hlog
      split at hlog
      · next hb =>
        rw [List.mem_singleton.mp hlog, hb]
        exact ⟨rfl, rfl⟩
      · cases hlog
    chain := twoBlocks
    mem_blocks := fun _ => Iff.rfl
    linked := List.isChain_pair.mpr rfl
    numbered := by
      intro n b hb
      match n with
      | 0 | 1 =>
        cases hb
        rfl
      | n + 2 => cases hb }

def twoProvider : Provider :=
  { getBlockByHash := byHash twoBlocks
    getBlockByNumber := fun n => found twoBlocks[n]?
    getLogs := fun f => .ok (match f.BlockHash with
      | some h => if h = firstBlock.Hash then [firstLog] else []
      | none => ((twoBlocks.take (f.To.getD 1 + 1)).drop (f.From.getD 0)).flatMap (twoLedger.logs f)) }

theorem twoProvider_serves : twoProvider.ServesUpTo twoLedger 1 := by
  refine ⟨mem_of_byHash, fun n b _ hb => found_eq_ok.mpr hb, fun n b hb => found_eq_ok.mp hb, fun config b hb => ?_,
    fun config lo hi _ _ => rfl⟩
  have hall : ∀ b ∈ twoBlocks, (if b.Hash = firstBlock.Hash then [firstLog] else []) =
      if b = firstBlock then [firstLog] else [] := by decide
  exact congrArg Except.ok (hall b hb)

def twoSystem : System :=
  { tracker :=
      { config := { BatchSize := 100, MaxBlockBacklog := 2 }
        blocks := [genesisBlock]
        filters := [{ sampleFilter with synced := false }]
        store := { entries := fun _ => [], lastBlock := fun _ => none } }
    top := 1
    sync := .start
    pending := none }

theorem twoSystem_starts : Starts twoLedger 0 sampleFilter.config twoSystem := by
  refine ⟨⟨by decide, by decide⟩, ⟨_, rfl, rfl, rfl⟩, ?_, by decide, ⟨rfl, rfl⟩, 0, by decide, rfl, .inl ⟨rfl, rfl⟩⟩
  intro j f hf hj _
  obtain ⟨hlt, -⟩ := List.getElem?_eq_some_iff.mp hf
  exact absurd (Nat.lt_one_iff.mp hlt) hj

theorem firstBlock_mem : firstBlock ∈ twoLedger.chain.take 2 := List.mem_cons_of_mem _ (List.mem_cons_self ..)

/-- `Sync` finishes before the head comes. -/
theorem sync_hands_over_then_head :
    let final := twoSystem.run 0
      [.sync twoProvider, .setSynced, .head twoProvider firstBlock, .dispatch twoProvider]
    final.tracker.store.entries sampleFilter.config.Hash = [firstLog] ∧
      ∃ head, final.tracker.blocks.getLast? = some head ∧
        HoldsBelow twoLedger sampleFilter.config (final.tracker.store.entries sampleFilter.config.Hash)
          (head.Number + 1) := by
  refine ⟨by decide +kernel, ?_⟩
  refine (sync_hands_over twoLedger 0 sampleFilter.config twoSystem twoSystem_starts
    [.sync twoProvider, .setSynced, .head twoProvider firstBlock, .dispatch twoProvider]
    ⟨twoProvider_serves, trivial, ⟨twoProvider_serves, firstBlock_mem⟩, twoProvider_serves, trivial⟩
    ⟨trivial, fun _ => nofun, trivial, nofun, trivial⟩).2.2 ?_ ?_
  · decide +kernel
  · rfl

theorem holdsBelow_two {entry : List Log} (h : HoldsBelow twoLedger sampleFilter.config entry 2) :
    entry = [firstLog] := by
  obtain ⟨first, -, -, hzero, rfl⟩ := h
  rw [hzero rfl]
  decide +kernel

/-- The bad schedules. The head comes between the end of `syncImpl` and the flag, and its block is lost.
Or `Sync` comes between the move of the window and the passing on of the event, and its block is
stored twice. -/
theorem sync_misses_or_repeats :
    let lost : List Action :=
      [.sync twoProvider, .head twoProvider firstBlock, .dispatch twoProvider, .setSynced]
    let repeated : List Action :=
      [.head twoProvider firstBlock, .sync twoProvider, .setSynced, .dispatch twoProvider]
    Starts twoLedger 0 sampleFilter.config twoSystem ∧ ∀ schedule ∈ [lost, repeated],
      let final := twoSystem.run 0 schedule
      Along 0 (Allowed twoLedger) twoSystem schedule ∧ final.sync = .done ∧ final.pending = none ∧
        final.tracker.blocks.getLast? = some firstBlock ∧
        ¬ HoldsBelow twoLedger sampleFilter.config
          (final.tracker.store.entries sampleFilter.config.Hash) (firstBlock.Number + 1) := by
  refine ⟨twoSystem_starts, List.forall_mem_cons.mpr ⟨?_, List.forall_mem_singleton.mpr ?_⟩⟩
  · refine ⟨⟨twoProvider_serves, ⟨twoProvider_serves, firstBlock_mem⟩, twoProvider_serves, trivial, trivial⟩,
      by decide +kernel, rfl, by decide +kernel, fun h => ?_⟩
    exact absurd (holdsBelow_two h) (by decide +kernel)
  · refine ⟨⟨⟨twoProvider_serves, firstBlock_mem⟩, twoProvider_serves, trivial, twoProvider_serves, trivial⟩,
      by decide +kernel, rfl, by decide +kernel, fun h => ?_⟩
    exact absurd (holdsBelow_two h) (by decide +kernel)

end Web3.Tracker
