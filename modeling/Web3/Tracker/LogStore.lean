import Web3.Tracker.ChainInvariant
import Web3.Tracker.Filters

/-! # The entries follow the chain

The entry of a filter holds the logs of a chain. When the window moves, the logs of the removed blocks
are taken from its end, and the logs of the added blocks are appended. The blocks to remove come from
the window and the logs from the entry: the two fit together because blocks of a tree have one parent. -/

namespace Web3.Tracker

/-! ## The store -/

namespace Store

def AgreeOff (hash : String) (s s' : Store) : Prop :=
  ∀ h, h ≠ hash → s'.entries h = s.entries h ∧ s'.lastBlock h = s.lastBlock h

theorem AgreeOff.trans {hash : String} {s₁ s₂ s₃ : Store} (h : AgreeOff hash s₁ s₂)
    (h' : AgreeOff hash s₂ s₃) : AgreeOff hash s₁ s₃ :=
  fun k hk => ⟨(h' k hk).1.trans (h k hk).1, (h' k hk).2.trans (h k hk).2⟩

theorem agreeOff_storeLogs (s : Store) (hash : String) (logs : List Log) : AgreeOff hash s (s.storeLogs hash logs) :=
  fun _ hk => ⟨Function.update_of_ne hk _ _, rfl⟩

theorem agreeOff_removeLogs (s : Store) (hash : String) (indx : ℕ) : AgreeOff hash s (s.removeLogs hash indx) :=
  fun _ hk => ⟨Function.update_of_ne hk _ _, rfl⟩

theorem agreeOff_storeLastBlock (s : Store) (hash : String) (b : Block) : AgreeOff hash s (s.storeLastBlock hash b) :=
  fun _ hk => ⟨rfl, Function.update_of_ne hk _ _⟩

@[simp] theorem entries_storeLogs (s : Store) (hash : String) (logs : List Log) :
    (s.storeLogs hash logs).entries hash = s.entries hash ++ logs := Function.update_self ..

@[simp] theorem entries_removeLogs (s : Store) (hash : String) (indx : ℕ) :
    (s.removeLogs hash indx).entries hash = (s.entries hash).take indx := Function.update_self ..

@[simp] theorem lastBlock_storeLastBlock (s : Store) (hash : String) (b : Block) :
    (s.storeLastBlock hash b).lastBlock hash = some b := Function.update_self ..

theorem storeLogs_nil (s : Store) (hash : String) : s.storeLogs hash [] = s := by
  rw [storeLogs, List.append_nil, Function.update_eq_self]

theorem storeLogs_storeLogs (s : Store) (hash : String) (logs logs' : List Log) :
    (s.storeLogs hash logs).storeLogs hash logs' = s.storeLogs hash (logs ++ logs') := by
  rw [storeLogs, entries_storeLogs, storeLogs, storeLogs, Function.update_idem, List.append_assoc]

end Store

/-! ## Removing logs -/

section Removing
variable {number : ℕ} {hash : Option Hash} {kept dropped : List Log}

theorem removeLoop_append (hkept : ∀ log ∈ kept, logStays number hash log = true)
    (hdropped : ∀ log ∈ dropped, logStays number hash log = false) (rest remove : List Log) :
    removeLoop (kept ++ dropped ++ rest) number hash (kept.length + dropped.length) remove =
      (kept.length, remove ++ dropped.reverse) := by
  induction dropped using List.reverseRecOn generalizing rest remove with
  | nil =>
    rw [List.append_nil, List.length_nil, List.reverse_nil, List.append_nil]
    -- the scan stops at the last of the kept logs, or at the front of the entry
    rcases List.eq_nil_or_concat' kept with rfl | ⟨kept, last, rfl⟩
    · rfl
    · rw [List.length_append, List.length_singleton, Nat.add_zero, removeLoop]
      rw [List.append_assoc, List.getElem?_append_right (Nat.le_refl _), Nat.sub_self]
      have hlast := hkept last (List.mem_append_right _ (List.mem_singleton_self last))
      exact if_pos hlast
  | append_singleton dropped last ih =>
    have hlast := hdropped last (List.mem_append_right _ (List.mem_singleton_self last))
    have hentry : kept ++ (dropped ++ [last]) ++ rest = kept ++ dropped ++ last :: rest := by
      simp only [List.append_assoc, List.singleton_append]
    rw [hentry, List.length_append, List.length_singleton, ← Nat.add_assoc, removeLoop]
    rw [List.getElem?_append_right (Nat.le_of_eq List.length_append), List.length_append, Nat.sub_self,
      List.getElem?_cons_zero]
    dsimp only
    rw [hlast, if_neg Bool.false_ne_true,
      ih (fun log h => hdropped log (List.mem_append_left _ h)) (last :: rest) (remove ++ [last])]
    rw [List.reverse_append, List.reverse_singleton, List.singleton_append, List.append_assoc, List.singleton_append]

theorem removeLogs_ok {config : FilterConfig} {s : Store} (hentry : s.entries config.Hash = kept ++ dropped)
    (hkept : ∀ log ∈ kept, logStays number hash log = true)
    (hdropped : ∀ log ∈ dropped, logStays number hash log = false) :
    removeLogs config s number hash = (dropped.reverse, s.removeLogs config.Hash kept.length) := by
  have hloop := removeLoop_append hkept hdropped [] []
  rw [List.append_nil, List.nil_append, ← List.length_append] at hloop
  rw [removeLogs, hentry, hloop]

end Removing

/-! ## Processing blocks -/

def TakesOff : List Block → List Log → List Log → Prop
  | [], _, dropped => dropped = []
  | pivot :: _, kept, dropped =>
    (∀ log ∈ kept, logStays pivot.Number (some pivot.Hash) log = true) ∧
      ∀ log ∈ dropped, logStays pivot.Number (some pivot.Hash) log = false

def Provider.Answers (p : Provider) (config : FilterConfig) (logs : Block → List Log)
    (blocks : List Block) : Prop :=
  ∀ b ∈ blocks, p.getLogs { config.getFilterSearch with BlockHash := some b.Hash } = .ok (logs b)

section Processing
variable {provider : Provider} {config : FilterConfig} {logs : Block → List Log}
  {added removed : List Block} {s : Store}

theorem storeAdded_ok (h : provider.Answers config logs added) : storeAdded provider config s added =
      (.ok (added.flatMap logs), s.storeLogs config.Hash (added.flatMap logs)) := by
  induction added generalizing s with
  | nil => rw [storeAdded, List.flatMap_nil, Store.storeLogs_nil]
  | cons b rest ih =>
    rw [storeAdded, h b (List.mem_cons_self ..)]
    dsimp only
    rw [ih fun c hc => h c (List.mem_cons_of_mem _ hc), Store.storeLogs_storeLogs, List.flatMap_cons]

variable {last : Block}

theorem doFilter_returns (removed : List Block) (h : provider.Answers config logs added)
    (hlast : added.getLast? = some last) :
    ∃ evnt s', doFilter provider config s added removed = (.ok evnt, s') ∧ Store.AgreeOff config.Hash s s' := by
  cases removed with
  | nil =>
    rw [doFilter, storeAdded_ok h, hlast]
    exact ⟨_, _, rfl, (s.agreeOff_storeLogs _ _).trans (Store.agreeOff_storeLastBlock _ _ _)⟩
  | cons pivot removed =>
    rw [doFilter]
    dsimp only
    rw [storeAdded_ok h, hlast]
    exact ⟨_, _, rfl, (s.agreeOff_removeLogs _ _).trans
      ((Store.agreeOff_storeLogs _ _ _).trans (Store.agreeOff_storeLastBlock _ _ _))⟩

theorem doFilter_ok (h : provider.Answers config logs added) (hlast : added.getLast? = some last)
    {kept dropped : List Log} (hentry : s.entries config.Hash = kept ++ dropped)
    (htakes : TakesOff removed kept dropped) :
    ∃ s', doFilter provider config s added removed = (.ok { Added := added.flatMap logs, Removed := dropped }, s') ∧
      s'.entries config.Hash = kept ++ added.flatMap logs ∧
      s'.lastBlock config.Hash = some last := by
  cases removed with
  | nil =>
    cases htakes
    rw [doFilter, storeAdded_ok h, hlast]
    refine ⟨_, rfl, ?_, Store.lastBlock_storeLastBlock ..⟩
    rw [Store.storeLastBlock, Store.entries_storeLogs, hentry, List.append_nil]
  | cons pivot removed =>
    rw [doFilter]
    dsimp only
    rw [removeLogs_ok hentry htakes.1 htakes.2, storeAdded_ok h, hlast, revertLogs, List.reverse_reverse]
    refine ⟨_, rfl, ?_, Store.lastBlock_storeLastBlock ..⟩
    rw [Store.storeLastBlock, Store.entries_storeLogs, Store.entries_removeLogs, hentry, List.take_left]

end Processing

/-! ## All the filters -/

section Dispatch
variable {provider : Provider} {event : BlockEvent} {logs : FilterConfig → Block → List Log}
  {hash : String} {s : Store} {evnts : List (ℕ × Event)} {last : Block} {filters : List Filter}
  {i : ℕ}

theorem dispatch_append {first rest : List Filter} {k : ℕ} {s' s'' : Store}
    {evnts' : List (ℕ × Event)} (h : dispatch provider event k first s = (.ok evnts, s'))
    (h' : dispatch provider event (k + first.length) rest s' = (.ok evnts', s'')) :
    dispatch provider event k (first ++ rest) s = (.ok (evnts ++ evnts'), s'') := by
  induction first generalizing k s evnts with
  | nil =>
    cases h
    exact h'
  | cons filter first ih =>
    rw [List.length_cons, Nat.add_comm first.length 1, ← Nat.add_assoc] at h'
    rw [List.cons_append]
    rw [dispatch] at h ⊢
    by_cases hsynced : filter.synced
    · rw [if_pos hsynced] at h ⊢
      rcases hdo : doFilter provider filter.config s event.Added event.Removed with ⟨_ | _ | _, s₁⟩
      · rw [hdo] at h
        dsimp only at h ⊢
        rcases hrest : dispatch provider event (k + 1) first s₁ with ⟨_ | _ | _, s₂⟩
        · rw [hrest] at h
          cases h
          rw [ih hrest h']
          rfl
        · rw [hrest] at h
          cases h
        · rw [hrest] at h
          cases h
      · rw [hdo] at h
        cases h
      · rw [hdo] at h
        cases h
    · rw [if_neg hsynced] at h ⊢
      exact ih h h'

theorem dispatch_other (hlogs : ∀ config, provider.Answers config (logs config) event.Added)
    (hlast : event.Added.getLast? = some last)
    (hother : ∀ f ∈ filters, f.synced = true → f.config.Hash ≠ hash) (k : ℕ) :
    ∃ evnts s', dispatch provider event k filters s = (.ok evnts, s') ∧
      s'.entries hash = s.entries hash ∧ s'.lastBlock hash = s.lastBlock hash ∧
      ∀ e ∈ evnts, k ≤ e.1 ∧ e.1 < k + filters.length := by
  induction filters generalizing k s with
  | nil => exact ⟨[], s, rfl, rfl, rfl, nofun⟩
  | cons filter filters ih =>
    have hrest := fun f hf => hother f (List.mem_cons_of_mem _ hf)
    rw [dispatch, List.length_cons]
    by_cases hsynced : filter.synced
    · obtain ⟨evnt, s₁, hdo, hagree⟩ :=
        doFilter_returns (s := s) event.Removed (hlogs filter.config) hlast
      obtain ⟨evnts, s₂, hdispatch, hentries, hblock, hrange⟩ := ih (s := s₁) hrest (k + 1)
      obtain ⟨hentries₁, hblock₁⟩ := hagree hash (hother filter (List.mem_cons_self ..) hsynced).symm
      rw [if_pos hsynced, hdo]
      dsimp only
      rw [hdispatch]
      refine ⟨_, _, rfl, hentries.trans hentries₁, hblock.trans hblock₁, ?_⟩
      refine List.forall_mem_cons.mpr ⟨by dsimp only; omega, fun e he => ?_⟩
      have := hrange e he
      omega
    · obtain ⟨evnts, s', hdispatch, hentries, hblock, hrange⟩ := ih (s := s) hrest (k + 1)
      rw [if_neg hsynced]
      refine ⟨evnts, s', hdispatch, hentries, hblock, fun e he => ?_⟩
      have := hrange e he
      omega

theorem others_of_alone
    (halone : ∀ j f, filters[j]? = some f → f.synced = true → f.config.Hash = hash → j = i) :
    (∀ f ∈ filters.take i, f.synced = true → f.config.Hash ≠ hash) ∧
      ∀ f ∈ filters.drop (i + 1), f.synced = true → f.config.Hash ≠ hash := by
  constructor
  · intro f hf hs hh
    obtain ⟨j, hj⟩ := List.mem_iff_getElem?.mp hf
    obtain ⟨hji, -⟩ := List.getElem?_eq_some_iff.mp hj
    have hji : j < i := hji.trans_le (List.length_take_le _ _)
    rw [List.getElem?_take_of_lt hji] at hj
    exact hji.ne (halone j f hj hs hh)
  · intro f hf hs hh
    obtain ⟨j, hj⟩ := List.mem_iff_getElem?.mp hf
    rw [List.getElem?_drop] at hj
    have := halone _ f hj hs hh
    omega

theorem filter_index_eq_nil (h : ∀ e ∈ evnts, e.1 ≠ i) : evnts.filter (fun e => e.1 = i) = [] :=
  List.filter_eq_nil_iff.mpr fun e he => by
    rw [decide_eq_true_eq]
    exact h e he

/-- The event of a synced filter whose entry no other synced filter has, and its entry afterwards. -/
theorem dispatch_ok (hlogs : ∀ config, provider.Answers config (logs config) event.Added)
    (hlast : event.Added.getLast? = some last) {filter : Filter}
    (hfilter : filters[i]? = some filter) (hsynced : filter.synced = true)
    (halone : ∀ j f, filters[j]? = some f → f.synced = true → f.config.Hash = filter.config.Hash → j = i)
    {kept dropped : List Log} (hentry : s.entries filter.config.Hash = kept ++ dropped)
    (htakes : TakesOff event.Removed kept dropped) :
    ∃ evnts s', dispatch provider event 0 filters s = (.ok evnts, s') ∧ evnts.filter (fun e => e.1 = i) =
        [(i, { Added := event.Added.flatMap (logs filter.config), Removed := dropped })] ∧
      s'.entries filter.config.Hash = kept ++ event.Added.flatMap (logs filter.config) ∧
      s'.lastBlock filter.config.Hash = some last := by
  obtain ⟨hi, hget⟩ := List.getElem?_eq_some_iff.mp hfilter
  have hsplit : filters = filters.take i ++ filter :: filters.drop (i + 1) := by
    rw [← hget, List.getElem_cons_drop, List.take_append_drop]
  have hlen : (filters.take i).length = i := List.length_take_of_le hi.le
  obtain ⟨hbefore, hafter⟩ := others_of_alone halone
  obtain ⟨evnts₁, s₁, hdispatch₁, hentries₁, -, hrange₁⟩ := dispatch_other (s := s) hlogs hlast hbefore 0
  obtain ⟨s₂, hdo, hentries₂, hblock₂⟩ :=
    doFilter_ok (hlogs filter.config) hlast (hentries₁.trans hentry) htakes
  obtain ⟨evnts₃, s₃, hdispatch₃, hentries₃, hblock₃, hrange₃⟩ :=
    dispatch_other (s := s₂) hlogs hlast hafter (i + 1)
  have hrest : dispatch provider event (0 + (filters.take i).length)
      (filter :: filters.drop (i + 1)) s₁ =
        (.ok ((i, { Added := event.Added.flatMap (logs filter.config), Removed := dropped }) :: evnts₃), s₃) := by
    rw [hlen, Nat.zero_add, dispatch, if_pos hsynced, hdo]
    dsimp only
    rw [hdispatch₃]
  have hall := dispatch_append hdispatch₁ hrest
  rw [← hsplit] at hall
  refine ⟨_, s₃, hall, ?_, hentries₃.trans hentries₂, hblock₃.trans hblock₂⟩
  have hnone₁ := filter_index_eq_nil (i := i) fun e he => by
    have := (hrange₁ e he).2
    omega
  have hnone₃ := filter_index_eq_nil (i := i) fun e he => by
    have := (hrange₃ e he).1
    omega
  rw [List.filter_append, List.filter_cons, hnone₁, hnone₃, List.nil_append]
  exact if_pos (decide_eq_true rfl)

end Dispatch

/-! ## Paths with the same end -/

section Paths
variable {tree : BlockTree}

/-- A block has one parent, so of two paths to a block one continues the other to the front. -/
theorem BlockTree.IsPath.suffix_total {p q : List Block} (hp : tree.IsPath p) (hq : tree.IsPath q)
    (hlast : p.getLast? = q.getLast?) : p <:+ q ∨ q <:+ p := by
  induction p using List.reverseRecOn generalizing q with
  | nil => exact .inl (List.nil_suffix)
  | append_singleton p x ih =>
    rcases List.eq_nil_or_concat' q with rfl | ⟨q, y, rfl⟩
    · exact .inr List.nil_suffix
    rw [List.getLast?_concat, List.getLast?_concat] at hlast
    cases hlast
    have hparent : ∀ {r : List Block}, tree.IsPath (r ++ [x]) → ∀ a ∈ r.getLast?,
        a ∈ tree.blocks ∧ a.Hash = x.ParentHash := fun h a ha =>
      ⟨h.mem a (List.mem_append_left _ (List.mem_of_getLast? ha)),
        ((List.isChain_append.mp h.linked).2.2 a ha x rfl).symm⟩
    cases hpl : p.getLast? with
    | none =>
      rw [List.getLast?_eq_none_iff.mp hpl]
      exact .inl (List.suffix_append _ _)
    | some a =>
      cases hql : q.getLast? with
      | none =>
        rw [List.getLast?_eq_none_iff.mp hql]
        exact .inr (List.suffix_append _ _)
      | some b =>
        obtain ⟨ha, haHash⟩ := hparent hp a hpl
        obtain ⟨hb, hbHash⟩ := hparent hq b hql
        have hab : a = b := tree.hash_inj a ha b hb (haHash.trans hbHash.symm)
        have hend : p.getLast? = q.getLast? := by rw [hpl, hql, hab]
        rcases ih (hp.of_prefix (List.prefix_append _ _)) (hq.of_prefix (List.prefix_append _ _)) hend
          with h | h
        · exact .inl (suffix_append_right h [x])
        · exact .inr (suffix_append_right h [x])

variable {removed : List Block}

/-- How removing the end of the window divides a chain with the same head: either the chain ends before
the fork point is reached, or it goes on below it. -/
theorem exists_below {chain kept : List Block} (hchain : tree.IsPath chain)
    (hblocks : tree.IsPath (kept ++ removed)) (hlast : chain.getLast? = (kept ++ removed).getLast?)
    (hkept : kept ≠ []) :
    ∃ below dropped, chain = below ++ dropped ∧ dropped <:+ removed ∧
      (below = [] ∨ dropped = removed ∧ below.getLast? = kept.getLast?) := by
  rcases hchain.suffix_total hblocks hlast with h | ⟨front, rfl⟩
  · rcases Nat.le_total chain.length removed.length with hle | hle
    · exact ⟨[], chain, rfl, List.suffix_of_suffix_length_le h (List.suffix_append _ _) hle, .inl rfl⟩
    · obtain ⟨below, rfl⟩ := List.suffix_of_suffix_length_le (List.suffix_append _ _) h hle
      refine ⟨below, removed, rfl, List.suffix_refl _, ?_⟩
      obtain ⟨front, hfront⟩ := h
      rw [← List.append_assoc] at hfront
      rw [← List.append_cancel_right hfront]
      rcases below with _ | ⟨b, below⟩
      · exact .inl rfl
      · exact .inr ⟨rfl, (List.getLast?_append_cons ..).symm⟩
  · refine ⟨front ++ kept, removed, (List.append_assoc ..).symm, List.suffix_refl _, .inr ⟨rfl, ?_⟩⟩
    obtain ⟨k, kept, rfl⟩ := List.exists_cons_of_ne_nil hkept
    exact List.getLast?_append_cons ..

theorem filter_not_removed {below dropped : List Block} (hchain : tree.IsPath (below ++ dropped))
    (hdropped : dropped <:+ removed) (hbelow : below = [] ∨ dropped = removed) :
    (below ++ dropped).filter (fun b => b ∉ removed) = below := by
  have hnone : dropped.filter (fun b => b ∉ removed) = [] := by
    refine List.filter_eq_nil_iff.mpr fun b hb => ?_
    rw [decide_eq_true_eq, not_not]
    exact hdropped.subset hb
  rw [List.filter_append, hnone, List.append_nil]
  rcases hbelow with rfl | rfl
  · rfl
  · refine List.filter_eq_self.mpr fun b hb => decide_eq_true fun hmem => ?_
    exact lt_irrefl _ ((List.pairwise_append.mp hchain.numbers_lt).2.2 b hb b hmem)

end Paths

end Web3.Tracker
