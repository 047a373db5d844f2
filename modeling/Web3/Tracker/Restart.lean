import Web3.Tracker.HandOver
import Web3.Tracker.Slices

/-! # A restarted `Sync`

The store of a filter may come from an earlier run on a chain that has been replaced since. `Sync` goes
back to where the two chains fork, removes what was stored beyond it, and fetches the rest of the chain:
in bulk up to where the window begins, and then block by block. -/

namespace Web3.Tracker

/-! ## Two chains of one tree -/

section Chains
variable {tree : BlockTree} {chain earlier : List Block} {n : ℕ}

theorem take_eq_of_shared (hpath : tree.IsPath chain) (hearlier : tree.IsPath earlier) {b : Block}
    (hb : chain[n]? = some b) (hb' : earlier[n]? = some b) : earlier.take (n + 1) = chain.take (n + 1) := by
  obtain ⟨hlt, hget⟩ := List.getElem?_eq_some_iff.mp hb
  obtain ⟨hlt', hget'⟩ := List.getElem?_eq_some_iff.mp hb'
  have hlast : (earlier.take (n + 1)).getLast? = (chain.take (n + 1)).getLast? := by
    rw [List.take_succ_eq_append_getElem hlt, List.take_succ_eq_append_getElem hlt', List.getLast?_concat,
      List.getLast?_concat, hget, hget']
  have hlen : (earlier.take (n + 1)).length = (chain.take (n + 1)).length := by
    rw [List.length_take_of_le hlt, List.length_take_of_le hlt']
  rcases (hearlier.of_prefix (List.take_prefix _ _)).suffix_total (hpath.of_prefix (List.take_prefix _ _)) hlast
    with h | h
  · exact h.eq_of_length hlen
  · exact (h.eq_of_length hlen.symm).symm

theorem findAncestor_ok {provider : Provider} (hpath : tree.IsPath chain)
    (hearlier : tree.IsPath earlier) (hchain : FromGenesis chain) (hgenesis : FromGenesis earlier)
    (hfinds : provider.Finds chain) (hfinds' : provider.Finds earlier) {MaxBlockBacklog : ℕ}
    {shared : Block} (hshared : chain[n]? = some shared) (hshared' : earlier[n]? = some shared)
    {rounds m : ℕ} {block pivot : Block} (hblock : earlier[m]? = some block)
    (hpivot : chain[m]? = some pivot) (hnm : n ≤ m) (hrounds : m < n + rounds) :
    ∃ a b, findAncestor MaxBlockBacklog provider rounds block pivot = .ok a ∧ chain[a]? = some b ∧
      earlier[a]? = some b := by
  induction rounds generalizing m block pivot with
  | zero => omega
  | succ rounds ih =>
    have hnumber := (hgenesis.numbered _ _ hblock).trans (hchain.numbered _ _ hpivot).symm
    rw [findAncestor, if_neg (not_not.mpr hnumber)]
    by_cases hhash : block.Hash = pivot.Hash
    · have hsame := tree.hash_inj block (hearlier.mem _ (List.mem_of_getElem? hblock)) pivot
        (hpath.mem _ (List.mem_of_getElem? hpivot)) hhash
      rw [if_pos hhash, hgenesis.numbered _ _ hblock]
      exact ⟨m, pivot, rfl, hpivot, hsame ▸ hblock⟩
    · rw [if_neg hhash]
      have hne : m ≠ n := by
        rintro rfl
        rw [hshared'] at hblock
        rw [hshared] at hpivot
        cases hblock
        cases hpivot
        exact hhash rfl
      obtain ⟨k, rfl⟩ : ∃ k, m = k + 1 := ⟨m - 1, by omega⟩
      have hall : ∀ {c : List Block}, provider.Finds c → provider.Finds (c.take (c.length + 1)) :=
        fun hc b hb => hc b (List.mem_of_mem_take hb)
      obtain ⟨hlt, -⟩ := List.getElem?_eq_some_iff.mp hblock
      obtain ⟨hlt', -⟩ := List.getElem?_eq_some_iff.mp hpivot
      obtain ⟨parent, hparent, hget⟩ := hgenesis.parent (hall hfinds') hlt.le hblock
      obtain ⟨parent', hparent', hget'⟩ := hchain.parent (hall hfinds) hlt'.le hpivot
      rw [hget, hget']
      exact ih hparent hparent' (by omega) (by omega)

end Chains

/-! ## What is given -/

/-- A node that serves a chain during a call. A query for the logs of several blocks may be refused as too
large. -/
structure Provider.ServesChain (p : Provider) (tree : LogTree) (chain : List Block) : Prop where
  finds : p.Finds chain
  byNumber : ∀ n b, chain[n]? = some b → p.getBlockByNumber n = .ok b
  byBlock : ∀ config, p.Answers config (tree.logs config.getFilterSearch) chain
  byRange : ∀ (config : FilterConfig) (lo hi : ℕ), lo ≤ hi → hi < chain.length →
    p.getLogs { config.getFilterSearch with From := some lo, To := some hi } =
        .ok (tree.logsOf config ((chain.take (hi + 1)).drop lo)) ∨
      lo < hi ∧ ∃ e, p.getLogs { config.getFilterSearch with From := some lo, To := some hi } = .error e ∧
        tooMuchDataRequestedError e = true

/-- What is stored for a filter comes from an earlier chain, which may be empty: its logs, and its last
block. That is not higher than the chain, and the fork is not too deep. -/
structure Resumes (tree : LogTree) (MaxBlockBacklog : ℕ) (chain earlier : List Block) (config : FilterConfig)
    (s : Store) : Prop where
  isPath : tree.IsPath earlier
  genesis : FromGenesis earlier
  entry : s.entries config.Hash = tree.logsOf config earlier
  last : s.lastBlock config.Hash = earlier.getLast?
  start : earlier = [] → config.Start = 0
  height : earlier.length ≤ chain.length
  fork : earlier ≠ [] → ∃ n b, chain[n]? = some b ∧ earlier[n]? = some b ∧ earlier.length ≤ n + MaxBlockBacklog

/-- The logs of a chain are stored up to the block with number `n`. -/
def StoredBelow (tree : LogTree) (config : FilterConfig) (chain : List Block) (s : Store) (n : ℕ) : Prop :=
  s.entries config.Hash = tree.logsOf config (chain.take n)

def Resuming (tree : LogTree) (t : Config) (chain earlier : List Block) (config : FilterConfig) (s : Store) :
    SyncPoint → Prop
  | .start => Resumes tree t.MaxBlockBacklog chain earlier config s
  | .batch i batchSize limit => i ≤ limit ∧ batchSize ≤ t.BatchSize ∧ limit + t.MaxBlockBacklog + 1 = chain.length ∧
      StoredBelow tree config chain s i
  | .relock origin => origin + t.MaxBlockBacklog = chain.length ∧ StoredBelow tree config chain s origin
  | .unlocked => StoredBelow tree config chain s chain.length ∧ s.lastBlock config.Hash = chain.getLast?
  | _ => False

/-- A bound on the sections that are left. -/
def sectionsLeft (BatchSize length : ℕ) : SyncPoint → ℕ
  | .start => (length + 1) * (BatchSize + 2)
  | .batch i batchSize limit => (limit + 1 - i) * (BatchSize + 2) + batchSize
  | .relock _ => 1
  | _ => 0

/-! ## The sections of `Sync` -/

def GoesOn (tree : LogTree) (t : Config) (chain earlier : List Block) (config : FilterConfig) (n : ℕ)
    (r : SyncPoint × Store) : Prop :=
  Resuming tree t chain earlier config r.2 r.1 ∧ sectionsLeft t.BatchSize chain.length r.1 < n

section Sections
variable {tree : LogTree} {t : Tracker} {provider : Provider} {chain earlier : List Block} {config : FilterConfig}
  {s : Store} {origin n : ℕ} {point : SyncPoint}

theorem StoredBelow.append (h : StoredBelow tree config chain s origin) {s' : Store} {m : ℕ} (hm : origin ≤ m)
    (hs' : s'.entries config.Hash = s.entries config.Hash ++ tree.logsOf config ((chain.take m).drop origin)) :
    StoredBelow tree config chain s' m := by
  have hsplit : chain.take m = chain.take origin ++ (chain.take m).drop origin := by
    conv_lhs => rw [← List.take_append_drop origin (chain.take m)]
    rw [List.take_take, Nat.min_eq_left hm]
  rw [StoredBelow, hs', h, hsplit, LogTree.logsOf, LogTree.logsOf, LogTree.logsOf, List.flatMap_append]
  congr 3
  rw [← hsplit]

theorem removeLogs_storedBelow (hpath : tree.IsPath chain) (hearlier : tree.IsPath earlier)
    (hgenesis : FromGenesis earlier) (hentry : s.entries config.Hash = tree.logsOf config earlier) {a : ℕ}
    {b : Block} (hb : chain[a]? = some b) (hb' : earlier[a]? = some b) :
    StoredBelow tree config chain (removeLogs config s (a + 1) none).2 (a + 1) := by
  have hkept : ∀ log ∈ tree.logsOf config (earlier.take (a + 1)), logStays (a + 1) none log = true := by
    intro log hlog
    obtain ⟨c, hc, hlog⟩ := List.mem_flatMap.mp hlog
    obtain ⟨hnumber, -⟩ := tree.labelled _ c (hearlier.mem c (List.mem_of_mem_take hc)) log hlog
    obtain ⟨k, hk, rfl⟩ := List.mem_take_iff_getElem.mp hc
    have hc := hgenesis.numbered k _ (List.getElem?_eq_getElem (by omega))
    exact logStays_of_lt (by omega)
  have hdropped : ∀ log ∈ tree.logsOf config (earlier.drop (a + 1)), logStays (a + 1) none log = false := by
    intro log hlog
    obtain ⟨c, hc, hlog⟩ := List.mem_flatMap.mp hlog
    obtain ⟨hnumber, -⟩ := tree.labelled _ c (hearlier.mem c (List.mem_of_mem_drop hc)) log hlog
    obtain ⟨k, hk⟩ := List.mem_iff_getElem?.mp hc
    rw [List.getElem?_drop] at hk
    have hc := hgenesis.numbered _ _ hk
    rw [logStays, Option.any_none, Bool.and_false, Bool.false_or, decide_eq_false_iff_not]
    omega
  have hsplit : s.entries config.Hash =
      tree.logsOf config (earlier.take (a + 1)) ++ tree.logsOf config (earlier.drop (a + 1)) := by
    rw [hentry, LogTree.logsOf, LogTree.logsOf, LogTree.logsOf, ← List.flatMap_append, List.take_append_drop]
  rw [StoredBelow, removeLogs_ok hsplit hkept hdropped, Store.entries_removeLogs, hsplit, List.take_left,
    take_eq_of_shared hpath hearlier hb hb']

theorem syncBatch_goesOn (hserves : provider.ServesChain tree chain) (hM : 1 ≤ t.config.MaxBlockBacklog)
    (hfits : chain.length + t.config.BatchSize ≤ 2 ^ 64) {i batchSize limit : ℕ} (hi : i ≤ limit)
    (hbatch : batchSize ≤ t.config.BatchSize) (hlimit : limit + t.config.MaxBlockBacklog + 1 = chain.length)
    (hstored : StoredBelow tree config chain s i) :
    GoesOn tree t.config chain earlier config (sectionsLeft t.config.BatchSize chain.length (.batch i batchSize limit))
      (syncBatch t provider config s i batchSize limit) := by
  have hdst : min limit (i + batchSize) < chain.length := by omega
  rw [syncBatch, Nat.mod_eq_of_lt (by omega : i + batchSize < _), Nat.mod_eq_of_lt (by omega)]
  dsimp only
  rcases hserves.byRange config i (min limit (i + batchSize)) (by omega) hdst with hlogs | ⟨hmany, e, herror, hlarge⟩
  · obtain ⟨block, hblock⟩ : ∃ block, chain[min limit (i + batchSize)]? = some block :=
      ⟨_, List.getElem?_eq_getElem hdst⟩
    rw [hlogs]
    dsimp only
    rw [hserves.byNumber _ _ hblock]
    dsimp only
    have hstored' : ∀ s' : Store, s'.entries config.Hash = s.entries config.Hash ++
        tree.logsOf config ((chain.take (min limit (i + batchSize) + 1)).drop i) →
        StoredBelow tree config chain s' (min limit (i + batchSize) + 1) :=
      fun s' hs' => hstored.append (by omega) hs'
    have hentries := hstored' ((s.storeLogs config.Hash (tree.logsOf config
      ((chain.take (min limit (i + batchSize) + 1)).drop i))).storeLastBlock config.Hash block)
      (Store.entries_storeLogs ..)
    split
    · next hmore =>
      have hnext : min limit (i + batchSize) + 1 = i + batchSize + 1 := by omega
      rw [hnext] at hentries
      have hnew : ∀ size, size ≤ t.config.BatchSize →
          (limit + 1 - (i + batchSize + 1)) * (t.config.BatchSize + 2) + size <
            (limit + 1 - i) * (t.config.BatchSize + 2) + batchSize := by
        intro size hsize
        have hle : limit + 1 - (i + batchSize + 1) + 1 ≤ limit + 1 - i := by omega
        have hmul := Nat.mul_le_mul_right (t.config.BatchSize + 2) hle
        rw [Nat.add_mul] at hmul
        omega
      have hsize : (if batchSize < t.config.BatchSize then
          min t.config.BatchSize ((batchSize + t.config.additiveFactor) % 2 ^ 64) else batchSize) ≤ t.config.BatchSize := by
        split <;> omega
      exact ⟨⟨hmore, hsize, hlimit, by rw [hnext]; exact hentries⟩, hnew _ hsize⟩
    · next hover =>
      have hnext : min limit (i + batchSize) + 1 = limit + 1 := by omega
      rw [hnext] at hentries
      refine ⟨⟨by omega, by rw [hnext]; exact hentries⟩, ?_⟩
      rw [sectionsLeft, sectionsLeft]
      have hmul := Nat.mul_le_mul_right (t.config.BatchSize + 2) (by omega : 1 ≤ limit + 1 - i)
      omega
  · rw [herror]
    dsimp only
    rw [if_pos hlarge]
    refine ⟨⟨hi, by omega, hlimit, hstored⟩, ?_⟩
    rw [sectionsLeft, sectionsLeft]
    omega

section
variable (hserves : provider.ServesChain tree chain) (hwindow : t.blocks = chain.rtake t.config.MaxBlockBacklog)
include hserves hwindow

theorem syncHead_goesOn (horigin : origin < chain.length)
    (hstep : chain.length - origin ≤ t.config.MaxBlockBacklog) (hstored : StoredBelow tree config chain s origin)
    (hn : 0 < n) :
    GoesOn tree t.config chain earlier config n (syncHead t provider config s (chain.length - 1) origin) := by
  have hanswers : provider.Answers config (tree.logs config.getFilterSearch) (chain.drop origin) :=
    fun b hb => hserves.byBlock config b (List.mem_of_mem_drop hb)
  obtain ⟨s', hhead, hentries, hlast⟩ := syncHead_ok (s := s) hwindow horigin hstep hanswers
  rw [hhead]
  refine ⟨⟨hstored.append horigin.le ?_, hlast⟩, hn⟩
  rw [hentries, List.take_length]
  rfl

variable (hM : 1 ≤ t.config.MaxBlockBacklog)
include hM

section
variable (horigin : origin < chain.length) (hstored : StoredBelow tree config chain s origin)
include horigin hstored

theorem syncLoop_goesOn (hn : sectionsLeft t.config.BatchSize chain.length (.start) ≤ n ∨
      chain.length ≤ origin + t.config.MaxBlockBacklog ∧ 0 < n) :
    GoesOn tree t.config chain earlier config n (syncLoop t provider config s (chain.length - 1) origin) := by
  have hpos : 0 < sectionsLeft t.config.BatchSize chain.length .start := by
    rw [sectionsLeft]
    positivity
  rw [syncLoop, if_neg (by omega)]
  split
  · exact syncHead_goesOn hserves hwindow horigin (by omega) hstored (by omega)
  · next hfar =>
    refine ⟨⟨by omega, le_rfl, by omega, hstored⟩, ?_⟩
    obtain hn | hn := hn
    · refine lt_of_lt_of_le ?_ hn
      rw [sectionsLeft, sectionsLeft]
      have hle : chain.length - 1 - t.config.MaxBlockBacklog + 1 - origin + 1 ≤ chain.length + 1 := by omega
      have hmul := Nat.mul_le_mul_right (t.config.BatchSize + 2) hle
      rw [Nat.add_mul] at hmul
      omega
    · omega

theorem syncFrom_goesOn :
    GoesOn tree t.config chain earlier config (sectionsLeft t.config.BatchSize chain.length .start)
      (syncFrom t provider config s (chain.length - 1) origin) := by
  rw [syncFrom]
  split
  · exact syncLoop_goesOn hserves hwindow hM horigin hstored (.inl le_rfl)
  · refine syncHead_goesOn hserves hwindow horigin (by omega) hstored ?_
    rw [sectionsLeft]
    positivity

end

variable (hpath : tree.IsPath chain) (hchain : FromGenesis chain) (hfinds : provider.Finds earlier)
include hpath hchain hfinds

theorem syncAfter_goesOn (hresumes : Resumes tree t.config.MaxBlockBacklog chain earlier config s) {last head : Block}
    (hlast : earlier.getLast? = some last) (hhead : chain.getLast? = some head) (hnew : last.Hash ≠ head.Hash) :
    GoesOn tree t.config chain earlier config (sectionsLeft t.config.BatchSize chain.length .start)
      (syncAfter t provider config s (chain.length - 1) last) := by
  have hne : earlier ≠ [] := fun hnil => by
    rw [hnil] at hlast
    cases hlast
  have hpos := List.length_pos_iff.mpr hne
  have hheight := hresumes.height
  rw [List.getLast?_eq_getElem?] at hlast hhead
  have hnumber := hresumes.genesis.numbered _ _ hlast
  obtain ⟨pivot, hpivot⟩ : ∃ pivot, chain[earlier.length - 1]? = some pivot :=
    ⟨_, List.getElem?_eq_getElem (by omega)⟩
  rw [syncAfter, hnumber, if_neg (by omega), hserves.byNumber _ _ hpivot]
  dsimp only
  by_cases hhash : pivot.Hash = last.Hash
  · -- the last block is on the chain, below its head
    have hsame := tree.hash_inj pivot (hpath.mem _ (List.mem_of_getElem? hpivot)) last
      (hresumes.isPath.mem _ (List.mem_of_getElem? hlast)) hhash
    have hlow : earlier.length ≠ chain.length := by
      intro heq
      rw [heq, hhead] at hpivot
      cases hpivot
      exact hnew hhash.symm
    have htake := take_eq_of_shared hpath hresumes.isPath (hsame ▸ hpivot) hlast
    rw [Nat.sub_add_cancel hpos, List.take_length] at htake
    rw [if_neg (not_not.mpr hhash), if_neg (by omega), Nat.sub_add_cancel hpos]
    refine syncFrom_goesOn hserves hwindow hM (by omega) ?_
    rw [StoredBelow, hresumes.entry, ← htake]
  · rw [if_pos hhash]
    obtain ⟨n, shared, hshared, hshared', hdeep⟩ := hresumes.fork hne
    obtain ⟨hn, -⟩ := List.getElem?_eq_some_iff.mp hshared'
    obtain ⟨a, b, hancestor, hb, hb'⟩ : ∃ a b, findAncestor t.config.MaxBlockBacklog _ _ _ _ = .ok a ∧ _ ∧ _ :=
      findAncestor_ok hpath
      hresumes.isPath hchain hresumes.genesis hserves.finds hfinds hshared hshared' hlast hpivot (by omega)
      (by omega : earlier.length - 1 < n + t.config.MaxBlockBacklog)
    rw [hancestor]
    dsimp only
    rw [hserves.byNumber _ _ hb]
    obtain ⟨ha, -⟩ := List.getElem?_eq_some_iff.mp hb'
    have hbelow : a ≠ earlier.length - 1 := by
      rintro rfl
      rw [hlast] at hb'
      rw [hpivot] at hb
      cases hb'
      cases hb
      exact hhash rfl
    exact syncFrom_goesOn hserves hwindow hM (by omega)
      (removeLogs_storedBelow hpath hresumes.isPath hresumes.genesis hresumes.entry hb hb')

variable (hne : chain ≠ [])
include hne

theorem syncImpl_goesOn (hresumes : Resumes tree t.config.MaxBlockBacklog chain earlier config t.store) :
    GoesOn tree t.config chain earlier config (sectionsLeft t.config.BatchSize chain.length .start)
      (syncImpl t provider config) := by
  have hpos := List.length_pos_iff.mpr hne
  obtain ⟨head, hhead, hnumber⟩ := hchain.exists_head hne
  rw [syncImpl, hwindow, getLast?_rtake hM, hhead]
  dsimp only
  rw [hnumber, hresumes.last]
  cases hlast : earlier.getLast? with
  | none =>
    have hnil := List.getLast?_eq_none_iff.mp hlast
    dsimp only
    rw [fastTrack, if_neg (not_not.mpr (hresumes.start hnil))]
    refine syncFrom_goesOn hserves hwindow hM hpos ?_
    rw [StoredBelow, hresumes.entry, hnil]
    rfl
  | some last =>
    dsimp only
    split
    · -- nothing is to be done
      next hhash =>
      have hsame := tree.hash_inj last (hresumes.isPath.mem _ (List.mem_of_getLast? hlast)) head
        (hpath.mem _ (List.mem_of_getLast? hhead)) hhash
      have hend := hlast
      rw [List.getLast?_eq_getElem?] at hend
      have hlen := hresumes.genesis.numbered _ _ hend
      rw [hsame, hnumber] at hlen
      have hlong := List.length_pos_iff.mpr (List.ne_nil_of_mem (List.mem_of_getLast? hlast))
      have hshared : chain[earlier.length - 1]? = some last := by
        rw [← hlen, ← List.getLast?_eq_getElem?, hhead, hsame]
      have htake := take_eq_of_shared hpath hresumes.isPath hshared hend
      rw [Nat.sub_add_cancel hlong, List.take_length, List.take_of_length_le (by omega)] at htake
      refine ⟨⟨?_, ?_⟩, ?_⟩
      · rw [StoredBelow, List.take_length, hresumes.entry, htake]
      · rw [hresumes.last, htake]
      · exact Nat.mul_pos (Nat.succ_pos _) (Nat.succ_pos _)
    · next hnew => exact
      syncAfter_goesOn hserves hwindow hM hpath hchain hfinds hresumes hlast hhead hnew

/-- **The step**: any section of `Sync` goes on. -/
theorem syncSection_goesOn (hfits : chain.length + t.config.BatchSize ≤ 2 ^ 64)
    (hpoint : Resuming tree t.config chain earlier config t.store point) :
    point = .unlocked ∨ ∃ r, syncSection t provider config point = some r ∧
      GoesOn tree t.config chain earlier config (sectionsLeft t.config.BatchSize chain.length point) r := by
  cases point with
  | start =>
    exact .inr ⟨_, rfl, syncImpl_goesOn hserves hwindow hM hpath hchain hfinds hne hpoint⟩
  | batch i batchSize limit =>
    obtain ⟨hi, hbatch, hlimit, hstored⟩ := hpoint
    exact .inr ⟨_, rfl, syncBatch_goesOn hserves hM hfits hi hbatch hlimit hstored⟩
  | relock origin =>
    obtain ⟨horigin, hstored⟩ := hpoint
    refine .inr ⟨_, rfl, ?_⟩
    obtain ⟨head, hhead, hnumber⟩ := hchain.exists_head hne
    rw [syncRelock, hwindow, getLast?_rtake hM, hhead]
    dsimp only
    rw [hnumber]
    have hpos := List.length_pos_iff.mpr hne
    exact syncLoop_goesOn hserves hwindow hM (by omega) hstored (.inr ⟨by omega, Nat.one_pos⟩)
  | unlocked => exact .inl rfl
  | done | failed | panicked => cases hpoint

end

theorem Resuming.eq_unlocked (hpoint : Resuming tree t.config chain earlier config s point)
    (hleft : sectionsLeft t.config.BatchSize chain.length point = 0) : point = .unlocked := by
  cases point with
  | start => exact absurd hleft (Nat.mul_pos (Nat.succ_pos _) (Nat.succ_pos _)).ne'
  | batch i batchSize limit =>
    have hi : i ≤ limit := hpoint.1
    have hmul := Nat.mul_le_mul_right (t.config.BatchSize + 2) (by omega : 1 ≤ limit + 1 - i)
    rw [sectionsLeft] at hleft
    omega
  | relock origin => exact absurd hleft Nat.one_ne_zero
  | unlocked => rfl
  | done | failed | panicked => cases hpoint

end Sections

/-! ## The whole call -/

section Run
variable {tree : LogTree} {chain earlier : List Block} {i : ℕ} {filter : Filter} {s : System}
  {provider : Provider}

theorem System.step_sync_idle (hfilter : s.tracker.filters[i]? = some filter)
    (h : syncSection s.tracker provider filter.config s.sync = none) : s.step i (.sync provider) = s := by
  simp only [System.step, hfilter, h]

theorem System.step_sync_moves {sync : SyncPoint} {store : Store} (hfilter : s.tracker.filters[i]? = some filter)
    (h : syncSection s.tracker provider filter.config s.sync = some (sync, store)) :
    s.step i (.sync provider) = { s with tracker := { s.tracker with store }, sync } := by
  simp only [System.step, hfilter, h]

/-- **The run**: enough sections bring a call to the end of `syncImpl`. -/
theorem run_resuming (hpath : tree.IsPath chain) (hchain : FromGenesis chain) (hne : chain ≠ [])
    {providers : List Provider}
    (hserves : ∀ p ∈ providers, p.ServesChain tree chain ∧ p.Finds earlier)
    (hfilter : s.tracker.filters[i]? = some filter)
    (hwindow : s.tracker.blocks = chain.rtake s.tracker.config.MaxBlockBacklog)
    (hM : 1 ≤ s.tracker.config.MaxBlockBacklog) (hfits : chain.length + s.tracker.config.BatchSize ≤ 2 ^ 64)
    (hpoint : Resuming tree s.tracker.config chain earlier filter.config s.tracker.store s.sync)
    (henough : sectionsLeft s.tracker.config.BatchSize chain.length s.sync ≤ providers.length) :
    let s' := s.run i (providers.map .sync)
    s'.sync = .unlocked ∧ StoredBelow tree filter.config chain s'.tracker.store chain.length ∧
      s'.tracker.store.lastBlock filter.config.Hash = chain.getLast? := by
  induction providers generalizing s with
  | nil =>
    have hunlocked := hpoint.eq_unlocked (Nat.le_zero.mp henough)
    rw [hunlocked] at hpoint
    exact ⟨hunlocked, hpoint⟩
  | cons provider providers ih =>
    obtain ⟨hprovider, hproviders⟩ := List.forall_mem_cons.mp hserves
    have hrun : s.run i ((provider :: providers).map .sync) =
        (s.step i (.sync provider)).run i (providers.map .sync) := rfl
    rw [List.length_cons] at henough
    rw [hrun]
    rcases syncSection_goesOn hprovider.1 hwindow hM hpath hchain hprovider.2 hne hfits hpoint with
      hunlocked | ⟨⟨point, store⟩, hsection, hgoes, hleft⟩
    · -- nothing is left to be done
      have hnone : syncSection s.tracker provider filter.config s.sync = none := by
        rw [hunlocked]
        rfl
      rw [System.step_sync_idle hfilter hnone]
      exact ih hproviders hfilter hwindow hM hfits hpoint (by rw [hunlocked]; exact Nat.zero_le _)
    · rw [System.step_sync_moves hfilter hsection]
      dsimp only at hleft
      exact ih hproviders hfilter hwindow hM hfits hgoes (by dsimp only; omega)

end Run

theorem eq_rtake_of_populateBlocks {chain blocks : List Block} (hchain : FromGenesis chain) {provider : Provider}
    (hfinds : provider.Finds chain) (hlong : 2 ≤ chain.length) {head : Block} (hhead : chain.getLast? = some head)
    {MaxBlockBacklog : ℕ} (hwindow : populateBlocks MaxBlockBacklog provider (.ok head) = .ok (blocks.map some)) :
    blocks = chain.rtake MaxBlockBacklog := by
  rw [List.getLast?_eq_getElem?] at hhead
  have hok : populateBlocks MaxBlockBacklog _ _ = _ := populateBlocks_ok hchain
    (fun b hb => hfinds b (List.mem_of_mem_take hb)) (Nat.sub_le chain.length 1) (by omega) hhead
  rw [hwindow, Nat.sub_add_cancel (by omega), List.take_length] at hok
  exact List.map_injective_iff.mpr (Option.some_injective _) (Except.ok.inj hok)

/-- **A restarted `Sync`** ends with the logs of the chain, whatever chain was stored before and whichever
queries are refused as too large. -/
theorem sync_reconciles (tree : LogTree) (chain earlier : List Block) (hpath : tree.IsPath chain)
    (hchain : FromGenesis chain) (hlong : 2 ≤ chain.length) (head : Block) (hhead : chain.getLast? = some head)
    (t : Tracker) (hM : 1 ≤ t.config.MaxBlockBacklog) (hfits : chain.length + t.config.BatchSize ≤ 2 ^ 64)
    (provider : Provider) (hfinds : provider.Finds chain)
    (hwindow : populateBlocks t.config.MaxBlockBacklog provider (.ok head) = .ok (t.blocks.map some)) (i : ℕ)
    (filter : Filter) (hfilter : t.filters[i]? = some filter)
    (hresumes : Resumes tree t.config.MaxBlockBacklog chain earlier filter.config t.store) (top : ℕ)
    (providers : List Provider) (hserves : ∀ p ∈ providers, p.ServesChain tree chain ∧ p.Finds earlier)
    (henough : sectionsLeft t.config.BatchSize chain.length .start ≤ providers.length) :
    let s : System := { tracker := t, top, sync := .start, pending := none }
    let s' := s.run i (providers.map .sync ++ [.setSynced])
    s'.sync = .done ∧ s'.tracker.store.entries filter.config.Hash = tree.logsOf filter.config chain ∧
      s'.tracker.store.lastBlock filter.config.Hash = some head := by
  have hne : chain ≠ [] := List.ne_nil_of_length_pos (by omega)
  have hblocks := eq_rtake_of_populateBlocks hchain hfinds hlong hhead hwindow
  intro s s'
  obtain ⟨hsync, hstored, hlast⟩ :=
    run_resuming (s := s) hpath hchain hne hserves hfilter hblocks hM hfits hresumes henough
  have hs' : s' = (s.run i (providers.map .sync)).step i .setSynced := List.foldl_append ..
  rw [StoredBelow, List.take_length] at hstored
  rw [hs', System.step, hsync]
  exact ⟨rfl, hstored, hlast.trans hhead⟩

def blockLog (b : Block) : Log :=
  { BlockHash := b.Hash
    BlockNumber := b.Number
    LogIndex := 0
    Address := bytesToAddress []
    Topics := []
    Data := [] }

def sideLogTree : LogTree :=
  { sideTree with
    logs := fun _ b => [blockLog b]
    labelled := fun _ b _ log hlog => by
      rw [List.mem_singleton.mp hlog]
      exact ⟨rfl, rfl⟩ }

def sideNode : Provider :=
  { getBlockByHash := sideProvider.getBlockByHash
    getBlockByNumber := fun n => found fourBlocks[n]?
    getLogs := fun search =>
      match search.BlockHash, search.From, search.To with
      | some h, _, _ => .ok ((sideBlocks.filter (·.Hash = h)).map blockLog)
      | none, some lo, some hi => .ok (((fourBlocks.take (hi + 1)).drop lo).map blockLog)
      | _, _, _ => .ok [] }

theorem sideNode_serves : sideNode.ServesChain sideLogTree fourBlocks := by
  refine ⟨sideProvider_finds, fun n b hb => ?_, fun config b hb => ?_, fun config lo hi _ _ => .inl ?_⟩
  · exact found_eq_ok.mpr hb
  · have h : ∀ b ∈ fourBlocks, (sideBlocks.filter (fun c => decide (c.Hash = b.Hash))) = [b] := by decide
    show Except.ok ((sideBlocks.filter fun c => decide (c.Hash = b.Hash)).map blockLog) = _
    rw [h b hb]
    rfl
  · show Except.ok (((fourBlocks.take (hi + 1)).drop lo).map blockLog) = _
    rw [LogTree.logsOf]
    exact congrArg _ (List.map_eq_flatMap ..)

def sideChain : List Block := threeBlocks.take 2 ++ [sideBlock]

def sideTracker : Tracker :=
  { config := { BatchSize := 1, MaxBlockBacklog := 2 }
    blocks := fourBlocks.drop 2
    filters := [{ synced := false, config := bareConfig }]
    store := { entries := fun _ => sideChain.map blockLog, lastBlock := fun _ => some sideBlock } }

theorem sideTracker_resumes : Resumes sideLogTree 2 fourBlocks sideChain bareConfig sideTracker.store := by
  have hlinked : sideChain.IsChain fun a b => b.ParentHash = a.Hash := by decide
  have hmem : ∀ b ∈ sideChain, b ∈ sideBlocks := by decide
  have hnumbers : ∀ (n : ℕ) (hn : n < 3), (sideChain.get ⟨n, hn⟩).Number = n := by decide
  refine ⟨⟨hmem, hlinked⟩, ⟨hlinked, fun n b hb => ?_⟩, rfl, rfl, fun _ => rfl, by decide, fun _ => ?_⟩
  · obtain ⟨hlt, rfl⟩ := List.getElem?_eq_some_iff.mp hb
    exact hnumbers n hlt
  · exact ⟨1, _, rfl, rfl, by decide⟩

/-- `Sync` takes the log of the side block off and stores those of blocks 2 and 3. -/
theorem sync_reconciles_sideTracker :
    let s : System := { tracker := sideTracker, top := 3, sync := .start, pending := none }
    let s' := s.run 0 ((List.replicate 15 sideNode).map .sync ++ [.setSynced])
    s'.sync = .done ∧ s'.tracker.store.entries "" = fourBlocks.map blockLog ∧
      s'.tracker.store.lastBlock "" = fourBlocks.getLast? :=
  sync_reconciles sideLogTree fourBlocks sideChain isPath_fourBlocks fromGenesis_fourBlocks (by decide) _ rfl
    sideTracker (by decide) (by decide) sideProvider sideProvider_finds rfl 0 _ rfl sideTracker_resumes 3 _
    (fun p hp => by
      rw [List.eq_of_mem_replicate hp]
      have hfinds : ∀ b ∈ sideChain, byHash sideBlocks b.Hash = .ok b := by decide
      exact ⟨sideNode_serves, hfinds⟩)
    (by decide)

end Web3.Tracker
