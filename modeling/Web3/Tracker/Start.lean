import Web3.Tracker.Ledger

/-! # Starting a tracker

`Start` fills the window with the last blocks of the chain and then lets the block tracker poll for new
heads. The window it starts with is exact beyond the first block of the chain; with that block alone it
stays empty, and then a head that is not the next block is taken without the blocks before it. -/

namespace Web3.Tracker

/-! ## Filling the window -/

/-- The loop of `populateBlocks`, with the number of rounds left: the value of `i` when it ends, and the
slice, which is filled from its end. -/
def populateLoop (MaxBlockBacklog : ℕ) (provider : Provider) :
    ℕ → ℕ → Block → List (Option Block) → Except String (ℕ × List (Option Block))
  | 0, i, _, blocks => .ok (i, blocks)
  | rounds + 1, i, block, blocks =>
    let blocks := blocks.set (MaxBlockBacklog - i - 1) (some block)
    if block.Number = 0 then .ok (i, blocks)
    else
      match provider.getBlockByHash block.ParentHash with
      | .error e => .error e
      | .ok parent => populateLoop MaxBlockBacklog provider rounds (i + 1) parent blocks

/-- The window to start with, where `latest` is the answer for the latest block; `none` is a nil
pointer. The allocation of the window succeeds: `MaxBlockBacklog` is a length that `make` accepts. -/
def populateBlocks (MaxBlockBacklog : ℕ) (provider : Provider) (latest : Except String Block) :
    Except String (List (Option Block)) := do
  let block ← latest
  if block.Number = 0 then .ok []
  else
    let (i, blocks) ← populateLoop MaxBlockBacklog provider MaxBlockBacklog 0 block
      (List.replicate MaxBlockBacklog none)
    if i ≠ MaxBlockBacklog then .ok (blocks.drop (MaxBlockBacklog - i - 1)) else .ok blocks

/-- A chain that starts with block number 0. -/
structure FromGenesis (chain : List Block) : Prop where
  linked : chain.IsChain Linked
  numbered : ∀ (n : ℕ) (b : Block), chain[n]? = some b → b.Number = n

theorem Ledger.fromGenesis (ledger : Ledger) : FromGenesis ledger.chain := ⟨ledger.linked, ledger.numbered⟩

theorem FromGenesis.exists_head {chain : List Block} (h : FromGenesis chain) (hne : chain ≠ []) :
    ∃ head, chain.getLast? = some head ∧ head.Number = chain.length - 1 := by
  have hhead := List.getLast?_eq_getLast_of_ne_nil hne
  exact ⟨_, hhead, h.numbered _ _ (List.getLast?_eq_getElem? ▸ hhead)⟩

/-- A node answers for every one of some blocks. -/
def Provider.Finds (p : Provider) (blocks : List Block) : Prop := ∀ b ∈ blocks, p.getBlockByHash b.Hash = .ok b

section Populate
variable {chain : List Block} {MaxBlockBacklog h top : ℕ} {provider : Provider} {block : Block}

theorem FromGenesis.parent (hchain : FromGenesis chain) (hfinds : provider.Finds (chain.take (top + 1))) {n : ℕ}
    (hn : n + 1 ≤ top) (hblock : chain[n + 1]? = some block) :
    ∃ parent, chain[n]? = some parent ∧ provider.getBlockByHash block.ParentHash = .ok parent := by
  obtain ⟨hlt, rfl⟩ := List.getElem?_eq_some_iff.mp hblock
  have hlinked := List.isChain_iff_getElem.mp hchain.linked n hlt
  refine ⟨_, List.getElem?_eq_getElem (by omega), ?_⟩
  rw [hlinked]
  exact hfinds _ (List.mem_take_iff_getElem.mpr ⟨n, by omega, rfl⟩)

theorem set_replicate_append (n : ℕ) (b : Block) (filled : List (Option Block)) :
    (List.replicate (n + 1) none ++ filled).set n (some b) = List.replicate n none ++ some b :: filled := by
  rw [List.set_append_left _ _ (by rw [List.length_replicate]; omega), List.replicate_succ',
    List.set_append_right _ _ (by rw [List.length_replicate]), List.length_replicate, Nat.sub_self, List.append_assoc]
  rfl

section
variable (hchain : FromGenesis chain) (hfinds : provider.Finds (chain.take (top + 1))) (hh : h ≤ top)
include hchain hfinds hh

/-- The loop goes back from the head. After `i` rounds the last `i` slots hold the last `i` blocks, and the
next one is at hand. -/
theorem populateLoop_ok (hlen : h < chain.length) {rounds i : ℕ} (hi : i ≤ h) (hrounds : i + rounds = MaxBlockBacklog)
    (hblock : chain[h - i]? = some block) :
    ∃ j blocks, populateLoop MaxBlockBacklog provider rounds i block
        (List.replicate (MaxBlockBacklog - i) none ++ ((chain.take (h + 1)).rtake i).map some) = .ok (j, blocks) ∧
      (if j ≠ MaxBlockBacklog then blocks.drop (MaxBlockBacklog - j - 1) else blocks) =
        ((chain.take (h + 1)).rtake MaxBlockBacklog).map some := by
  have htake : (chain.take (h + 1)).length = h + 1 := List.length_take_of_le hlen
  induction rounds generalizing i block with
  | zero =>
    obtain rfl : i = MaxBlockBacklog := hrounds
    refine ⟨i, _, rfl, ?_⟩
    rw [if_neg (not_not.mpr rfl), Nat.sub_self]
    rfl
  | succ rounds ih =>
    obtain ⟨free, hfree⟩ : ∃ free, MaxBlockBacklog - i = free + 1 := ⟨MaxBlockBacklog - i - 1, by omega⟩
    have hlast : (chain.take (h + 1))[(chain.take (h + 1)).length - 1 - i]? = some block := by
      rw [htake, List.getElem?_take_of_lt (by omega), Nat.add_sub_cancel, hblock]
    rw [populateLoop, hfree, Nat.add_sub_cancel, set_replicate_append, ← List.map_cons, ← rtake_succ (by omega) hlast]
    rw [hchain.numbered _ _ hblock]
    split
    · -- the loop has reached the first block of the chain
      obtain rfl : i = h := by omega
      refine ⟨i, _, rfl, ?_⟩
      rw [if_pos (by omega), hfree, Nat.add_sub_cancel, List.drop_left' List.length_replicate,
        rtake_of_length_le htake.le, rtake_of_length_le (by omega)]
    · obtain ⟨n, hn⟩ : ∃ n, h - i = n + 1 := ⟨h - i - 1, by omega⟩
      rw [hn] at hblock
      obtain ⟨parent, hparent, hget⟩ := hchain.parent hfinds (by omega) hblock
      rw [hget]
      obtain rfl : free = MaxBlockBacklog - (i + 1) := by omega
      obtain rfl : n = h - (i + 1) := by omega
      exact ih (by omega) (by omega) hparent

/-- **The window to start with** holds the last blocks of the chain, up to the head. -/
theorem populateBlocks_ok (hpos : h ≠ 0) (hblock : chain[h]? = some block) :
    populateBlocks MaxBlockBacklog provider (.ok block) =
      .ok (((chain.take (h + 1)).rtake MaxBlockBacklog).map some) := by
  obtain ⟨hlen, -⟩ := List.getElem?_eq_some_iff.mp hblock
  obtain ⟨j, blocks, hloop, hblocks⟩ := populateLoop_ok hchain hfinds hh hlen
    (Nat.zero_le h) (Nat.zero_add MaxBlockBacklog) hblock
  have hnil : (chain.take (h + 1)).rtake 0 = [] := List.drop_eq_nil_of_le (Nat.sub_zero _).ge
  rw [Nat.sub_zero, hnil, List.map_nil, List.append_nil] at hloop
  rw [← hblocks]
  show (if block.Number = 0 then _ else _) = _
  rw [hchain.numbered _ _ hblock, if_neg hpos, hloop]
  show (if j ≠ MaxBlockBacklog then Except.ok _ else _) = _
  split <;> rfl

end

theorem populateBlocks_first (hchain : FromGenesis chain) (hblock : chain[0]? = some block) :
    populateBlocks MaxBlockBacklog provider (.ok block) = .ok [] := if_pos (hchain.numbered 0 _ hblock)

theorem FromGenesis.ascending (hchain : FromGenesis chain) : chain.Pairwise fun a b => a.Number < b.Number := by
  refine List.pairwise_iff_getElem.mpr fun i j hi hj hij => ?_
  rw [hchain.numbered i _ (List.getElem?_eq_getElem hi), hchain.numbered j _ (List.getElem?_eq_getElem hj)]
  exact hij

/-- **The window is exact**: the last blocks of the chain in their order, with no nil pointer and up to the head. -/
theorem populateBlocks_exact (hchain : FromGenesis chain) (hfinds : provider.Finds chain)
    (hhead : chain.getLast? = some block) (hpos : 1 ≤ block.Number) (hM : 1 ≤ MaxBlockBacklog) :
    ∃ blocks, populateBlocks MaxBlockBacklog provider (.ok block) = .ok (blocks.map some) ∧ blocks <:+ chain ∧
      blocks.length = min MaxBlockBacklog (block.Number + 1) ∧ (blocks.Pairwise fun a b => a.Number < b.Number) ∧
      blocks.getLast? = some block := by
  have hlast : chain[chain.length - 1]? = some block := by rw [← List.getLast?_eq_getElem?, hhead]
  have hnumber := hchain.numbered _ _ hlast
  have htake : chain.take (chain.length - 1 + 1) = chain := List.take_of_length_le (by omega)
  have hwindow : populateBlocks MaxBlockBacklog provider (.ok block) =
      .ok (((chain.take (chain.length - 1 + 1)).rtake MaxBlockBacklog).map some) :=
    populateBlocks_ok hchain (htake.symm ▸ hfinds) le_rfl (by omega) hlast
  rw [htake] at hwindow
  refine ⟨_, hwindow, List.drop_suffix _ _, ?_, hchain.ascending.drop, ?_⟩
  · rw [List.rtake, List.length_drop]
    omega
  · rw [List.rtake, List.getLast?_drop, if_neg (by omega), hhead]

end Populate

/-- `Start` up to the polling. There is no nil pointer in the window (`populateBlocks_ok`). -/
def start (t : Tracker) (provider : Provider) (latest : Except String Block) : Except String Tracker := do
  let blocks ← populateBlocks t.config.MaxBlockBacklog provider latest
  .ok { t with blocks := blocks.reduceOption }

section Window
variable {chain : List Block} {t : Tracker} {provider : Provider} {h top : ℕ} {head : Block}

theorem start_ok (hchain : FromGenesis chain) (hfinds : provider.Finds (chain.take (top + 1))) (hh : h ≤ top)
    (hpos : h ≠ 0) (hhead : chain[h]? = some head) :
    start t provider (.ok head) = .ok { t with blocks := (chain.take (h + 1)).rtake t.config.MaxBlockBacklog } := by
  rw [start, populateBlocks_ok hchain hfinds hh hpos hhead]
  show Except.ok { t with blocks := List.filterMap id _ } = _
  rw [List.filterMap_map, Function.id_comp, List.filterMap_some]

theorem start_first (hchain : FromGenesis chain) (hhead : chain[0]? = some head) :
    start t provider (.ok head) = .ok { t with blocks := [] } := by
  rw [start, populateBlocks_first hchain hhead]
  rfl

end Window

/-! ## Heads of a growing chain -/

/-- A node that answers for every block of its chain, which ends with block number `top`. -/
structure Provider.ServesBlocks (p : Provider) (ledger : Ledger) (top : ℕ) : Prop where
  serves : p.Serves ledger.toBlockTree
  finds : p.Finds (ledger.chain.take (top + 1))

/-- The events that a sequence of calls of `handleReconcile` sends on `BlockCh`, each call with the provider
as it is at the time. -/
def emitted (t : Tracker) : List (Provider × Block) → List BlockEvent
  | [] => []
  | (provider, block) :: calls =>
    match (handleBlockEvent t.config.MaxBlockBacklog provider t.blocks block).1 with
    | .ok (some event) => event :: emitted (handleReconcile t provider block).2 calls
    | _ => emitted (handleReconcile t provider block).2 calls

/-- The number of the last head of a sequence of calls after head number `h`. -/
def lastHead (h : ℕ) : List (Provider × Block) → ℕ
  | [] => h
  | (_, block) :: calls => lastHead block.Number calls

/-- Heads of the chain after head number `h`, none of them more than the backlog after the one before, from
a node that answers. -/
def HeadsAfter (ledger : Ledger) (MaxBlockBacklog : ℕ) : ℕ → List (Provider × Block) → Prop
  | _, [] => True
  | h, (provider, block) :: calls =>
    h < block.Number ∧ block.Number ≤ h + MaxBlockBacklog ∧ ledger.chain[block.Number]? = some block ∧
      provider.ServesBlocks ledger block.Number ∧ HeadsAfter ledger MaxBlockBacklog block.Number calls

/-- Every block after number `h` and up to number `last` is in exactly one event, and the blocks come in
the order of their numbers. -/
structure EmittedOnce (ledger : Ledger) (h last : ℕ) (events : List BlockEvent) : Prop where
  once : ∀ n b, h < n → n ≤ last → ledger.chain[n]? = some b → (events.flatMap BlockEvent.Added).count b = 1
  ordered : (events.flatMap BlockEvent.Added).Pairwise fun a b => a.Number < b.Number

theorem handleReconcile_blocks (t : Tracker) (provider : Provider) (block : Block) :
    (handleReconcile t provider block).2.blocks =
      (handleBlockEvent t.config.MaxBlockBacklog provider t.blocks block).2 := by
  rw [handleReconcile]
  rcases handleBlockEvent t.config.MaxBlockBacklog provider t.blocks block with ⟨_ | _ | _, blocks⟩
  · next event => cases event <;> rfl
  · rfl
  · rfl

section Heads
variable {ledger : Ledger} {MaxBlockBacklog h top : ℕ} {provider : Provider} {block : Block}
  {blocks : List Block}

theorem backfill_served (hserves : provider.ServesBlocks ledger top) {head : Block}
    (hhead : ledger.chain[h]? = some head) (hmem : head ∈ blocks) {j rounds : ℕ} (hj : j + 1 ≤ rounds)
    {current : Block} (hcurrent : ledger.chain[h + j + 2]? = some current) (htop : h + j + 2 ≤ top)
    (added : List Block) :
    ∃ front b indx, backfill provider blocks rounds current added = .ok (front ++ [b], indx) := by
  induction j generalizing rounds current added with
  | zero =>
    obtain ⟨rounds, rfl⟩ : ∃ r, rounds = r + 1 := ⟨rounds - 1, by omega⟩
    obtain ⟨parent, hparent, hget⟩ := ledger.fromGenesis.parent hserves.finds (by omega) hcurrent
    obtain ⟨grand, hgrand, hget'⟩ := ledger.fromGenesis.parent hserves.finds (by omega) hparent
    obtain rfl : head = grand := Option.some.inj (hhead.symm.trans hgrand)
    have hhash := (hserves.serves _ _ hget').2
    have hfound : ∃ indx, blockAtIndex blocks parent.ParentHash = some indx := by
      refine Option.isSome_iff_exists.mp (Option.isSome_iff_ne_none.mpr fun hnone => ?_)
      exact blockAtIndex_eq_none.mp hnone head hmem hhash
    obtain ⟨indx, hindx⟩ := hfound
    rw [backfill, hget]
    dsimp only
    rw [hindx]
    exact ⟨added, parent, indx, rfl⟩
  | succ j ih =>
    obtain ⟨rounds, rfl⟩ : ∃ r, rounds = r + 1 := ⟨rounds - 1, by omega⟩
    obtain ⟨parent, hparent, hget⟩ := ledger.fromGenesis.parent hserves.finds (by omega) hcurrent
    rw [backfill, hget]
    dsimp only
    cases hindx : blockAtIndex blocks parent.ParentHash with
    | some indx => exact ⟨added, parent, indx, rfl⟩
    | none => exact ih (by omega) hparent (by omega) _

section
variable (hM : 1 ≤ MaxBlockBacklog) (hsuffix : blocks <:+ ledger.chain.take (h + 1))
include hM hsuffix

/-- **The step**: a window that ends with block number `h` moves on to a later head. -/
theorem handleBlockEvent_next (hne : blocks ≠ []) (hlength : blocks.length ≤ MaxBlockBacklog) (hlt : h < block.Number)
    (hgap : block.Number ≤ h + MaxBlockBacklog) (hblock : ledger.chain[block.Number]? = some block)
    (hserves : provider.ServesBlocks ledger block.Number) :
    handleBlockEvent MaxBlockBacklog provider blocks block = (.ok (some (ledger.event h block.Number)),
        (blocks ++ (ledger.event h block.Number).Added).rtake MaxBlockBacklog) := by
  obtain ⟨hlen, -⟩ := List.getElem?_eq_some_iff.mp hblock
  have hh : h < ledger.chain.length := hlt.trans hlen
  have hmem : block ∈ ledger.blocks := (ledger.mem_blocks block).mpr (List.mem_of_getElem? hblock)
  have hwindow : IsWindow ledger.toBlockTree MaxBlockBacklog blocks :=
    ⟨(ledger.isPath_take _).of_suffix hsuffix, hlength⟩
  obtain ⟨last, hlast, hchain⟩ : ∃ last, blocks.getLast? = some last ∧ ledger.chain[h]? = some last := by
    obtain ⟨front, hfront⟩ := hsuffix
    have hend := Ledger.getLast?_take hh
    rw [← hfront, List.getLast?_append_of_ne_nil _ hne, List.getElem?_eq_getElem hh] at hend
    exact ⟨_, hend, List.getElem?_eq_getElem hh⟩
  have himpl : ∃ b added indx, handleReconcileImpl MaxBlockBacklog provider blocks block = .ok (b :: added, indx) := by
    have hnew : blockAtIndex blocks block.Hash = none := by
      refine blockAtIndex_eq_none.mpr fun o ho hhash => ?_
      have hle := Ledger.number_le (hsuffix.subset ho)
      rw [ledger.hash_inj o (hwindow.isPath.mem o ho) block hmem hhash] at hle
      omega
    rw [handleReconcileImpl, hnew, hlast, if_neg (by simp)]
    dsimp only
    split
    · exact ⟨_, _, _, rfl⟩
    next hparent =>
    split
    · exact ⟨_, _, _, rfl⟩
    · -- the parent is not the head, so there are blocks in between
      have hfar : block.Number ≠ h + 1 := by
        intro heq
        have hserves' := hserves
        rw [heq] at hblock hserves'
        obtain ⟨parent, hparent', hget⟩ := ledger.fromGenesis.parent hserves'.finds le_rfl hblock
        obtain rfl : last = parent := Option.some.inj (hchain.symm.trans hparent')
        exact hparent (hserves.serves _ _ hget).2
      obtain ⟨j, hj⟩ : ∃ j, block.Number = h + j + 2 := ⟨block.Number - h - 2, by omega⟩
      rw [hj] at hblock hserves
      obtain ⟨front, b, indx, hfill⟩ := backfill_served hserves hchain
        (List.mem_of_getLast? hlast) (show j + 1 ≤ MaxBlockBacklog + 1 by omega) hblock le_rfl [block]
      rw [hfill]
      exact ⟨b, front.reverse, some indx, by rw [← List.reverse_concat]; rfl⟩
  obtain ⟨b, added, indx, himpl⟩ := himpl
  obtain ⟨event, new, heq, hmoves⟩ := handleBlockEvent_moves hM hserves.serves hmem hwindow himpl
  obtain ⟨hremoved, htake, hnew⟩ := hmoves.append_of_suffix hh hsuffix hne
  have htaken : (ledger.chain.take (h + 1)).length = h + 1 := List.length_take_of_le hh
  -- the last block of the event is the head
  have hevent : event = ledger.event h block.Number := by
    have hends : (ledger.chain.take (h + 1) ++ event.Added).getLast? = some block := by
      rw [List.getLast?_append_of_ne_nil _ hmoves.added_ne_nil, hmoves.added.ends]
    have hle := congrArg List.length htake
    have hpos := List.length_pos_iff.mpr hmoves.added_ne_nil
    rw [List.length_append, htaken, List.length_take] at hle
    rw [htake, Nat.add_right_comm, Ledger.getLast?_take (by omega)] at hends
    have hnumber := ledger.numbered _ _ hends
    rw [Ledger.event, hnumber, Nat.add_right_comm, ← htake, List.drop_left' htaken, ← hremoved]
  rw [heq, hnew, hevent]

theorem suffix_next {n : ℕ} (hlt : h < n) (hn : n < ledger.chain.length) :
    (blocks ++ (ledger.event h n).Added).rtake MaxBlockBacklog <:+ ledger.chain.take (n + 1) ∧
      (blocks ++ (ledger.event h n).Added).rtake MaxBlockBacklog ≠ [] := by
  have hsplit : ledger.chain.take (n + 1) = ledger.chain.take (h + 1) ++ (ledger.event h n).Added :=
    drop_take_append (Nat.zero_le _) (by omega) hn
  refine ⟨(rtake_suffix _ _).trans ?_, ?_⟩
  · rw [hsplit]
    exact suffix_append_right hsuffix _
  · intro hnil
    have hadded : (ledger.event h n).Added ≠ [] := by
      refine List.ne_nil_of_length_pos ?_
      rw [Ledger.event, List.length_drop, List.length_take]
      omega
    have hlast : ((blocks ++ (ledger.event h n).Added).rtake _).getLast? = _ := getLast?_rtake hM
    rw [hnil, List.getLast?_append_of_ne_nil _ hadded] at hlast
    exact hadded (List.getLast?_eq_none_iff.mp hlast.symm)

end

variable {calls : List (Provider × Block)} {t : Tracker}

theorem lastHead_ge (hcalls : HeadsAfter ledger MaxBlockBacklog h calls) : h ≤ lastHead h calls := by
  induction calls generalizing h with
  | nil => exact le_rfl
  | cons c calls ih =>
    obtain ⟨hlt, -, -, -, hrest⟩ := hcalls
    exact hlt.le.trans (ih hrest)

theorem lastHead_lt (hh : h < ledger.chain.length) (hcalls : HeadsAfter ledger MaxBlockBacklog h calls) :
    lastHead h calls < ledger.chain.length := by
  induction calls generalizing h with
  | nil => exact hh
  | cons c calls ih =>
    obtain ⟨-, -, hblock, -, hrest⟩ := hcalls
    obtain ⟨hlen, -⟩ := List.getElem?_eq_some_iff.mp hblock
    exact ih hlen hrest

/-- **The run**: from a window that ends with block number `h` on, the events are the rest of the chain. -/
theorem emitted_added (hM : 1 ≤ t.config.MaxBlockBacklog)
    (hsuffix : t.blocks <:+ ledger.chain.take (h + 1)) (hne : t.blocks ≠ [])
    (hlength : t.blocks.length ≤ t.config.MaxBlockBacklog) (hh : h < ledger.chain.length)
    (hcalls : HeadsAfter ledger t.config.MaxBlockBacklog h calls) :
    (emitted t calls).flatMap BlockEvent.Added = (ledger.chain.take (lastHead h calls + 1)).drop (h + 1) := by
  induction calls generalizing t h with
  | nil =>
    refine (List.drop_eq_nil_of_le ?_).symm
    exact List.length_take_le _ _
  | cons c calls ih =>
    obtain ⟨provider, block⟩ := c
    obtain ⟨hlt, hgap, hblock, hserves, hrest⟩ := hcalls
    obtain ⟨hlen, -⟩ := List.getElem?_eq_some_iff.mp hblock
    have hstep := handleBlockEvent_next hM hsuffix hne hlength hlt hgap hblock hserves
    obtain ⟨hsuffix', hne'⟩ := suffix_next hM hsuffix hlt hlen
    have hblocks := handleReconcile_blocks t provider block
    have hconfig := handleReconcile_config t provider block
    rw [hstep] at hblocks
    rw [emitted, hstep]
    dsimp only at hblocks ⊢
    rw [List.flatMap_cons, ih (by rw [hconfig]; exact hM) (by rw [hblocks]; exact hsuffix')
      (by rw [hblocks]; exact hne') (by rw [hblocks, hconfig]; exact length_rtake_le _ _) hlen
      (by rw [hconfig]; exact hrest)]
    have hlast := lastHead_lt hlen hrest
    have hge := lastHead_ge hrest
    exact (drop_take_append (by omega) (by omega) hlast).symm

theorem emitted_empty (hM : 1 ≤ t.config.MaxBlockBacklog) (hempty : t.blocks = [])
    (hcalls : HeadsAfter ledger t.config.MaxBlockBacklog h ((provider, block) :: calls)) :
    (emitted t ((provider, block) :: calls)).flatMap BlockEvent.Added =
      (ledger.chain.take (lastHead block.Number calls + 1)).drop block.Number := by
  obtain ⟨-, -, hblock, -, hrest⟩ := hcalls
  obtain ⟨hlen, -⟩ := List.getElem?_eq_some_iff.mp hblock
  have hstep : handleBlockEvent t.config.MaxBlockBacklog provider t.blocks block =
      (.ok (some { Added := [block], Removed := [] }), [block]) := by
    rw [hempty, handleBlockEvent]
    simp [handleReconcileImpl, blockAtIndex, keptBlocks, removedBlocks, addBlocks, addBlockLocked,
      (Nat.ne_of_gt hM).symm]
  have htake := List.take_succ_eq_append_getElem hlen
  have hget : ledger.chain[block.Number] = block := by
    rw [List.getElem?_eq_getElem hlen] at hblock
    exact Option.some.inj hblock
  rw [hget] at htake
  have hblocks := handleReconcile_blocks t provider block
  have hconfig := handleReconcile_config t provider block
  rw [hstep] at hblocks
  rw [emitted, hstep]
  dsimp only at hblocks ⊢
  rw [List.flatMap_cons, emitted_added (h := block.Number) (by rw [hconfig]; exact hM)
    (by rw [hblocks, htake]; exact List.suffix_append _ _) (by rw [hblocks]; exact List.cons_ne_nil _ _)
    (by rw [hblocks, hconfig]; exact hM) hlen (by rw [hconfig]; exact hrest)]
  have hlast := lastHead_lt hlen hrest
  have hge := lastHead_ge hrest
  rw [drop_take_append (a := block.Number) (n := block.Number + 1) (by omega) (by omega) hlast, htake]
  rw [List.drop_left' (List.length_take_of_le hlen.le)]

end Heads

/-! ## No block is skipped -/

section Emitted
variable {ledger : Ledger} {h last : ℕ} {events : List BlockEvent}

theorem numbers_drop_take (ledger : Ledger) (m n : ℕ) :
    ((ledger.chain.take n).drop m).Pairwise fun a b => a.Number < b.Number :=
  (ledger.isPath_take n).numbers_lt.sublist (List.drop_sublist _ _)

theorem mem_drop_take {m n k : ℕ} {b : Block} (hb : ledger.chain[k]? = some b) :
    b ∈ (ledger.chain.take n).drop m ↔ m ≤ k ∧ k < n := by
  constructor
  · intro hmem
    obtain ⟨j, hj⟩ := List.mem_iff_getElem?.mp hmem
    rw [List.getElem?_drop] at hj
    obtain ⟨hlt, -⟩ := List.getElem?_eq_some_iff.mp hj
    have hlt : m + j < n := hlt.trans_le (List.length_take_le _ _)
    rw [List.getElem?_take_of_lt hlt] at hj
    have hnumber := ledger.numbered _ _ hj
    rw [ledger.numbered _ _ hb] at hnumber
    omega
  · rintro ⟨hm, hn⟩
    refine List.mem_iff_getElem?.mpr ⟨k - m, ?_⟩
    rw [List.getElem?_drop, Nat.add_sub_cancel' hm, List.getElem?_take_of_lt hn, hb]

theorem emittedOnce_iff {first : ℕ} (hfirst : h + 1 ≤ first)
    (hadded : events.flatMap BlockEvent.Added = (ledger.chain.take (last + 1)).drop first)
    (hlast : last < ledger.chain.length) : EmittedOnce ledger h last events ↔ first = h + 1 ∨ last ≤ h := by
  constructor
  · intro honce
    by_contra hnot
    rw [not_or, not_le] at hnot
    -- the block after the start is in no event
    have hnext : ledger.chain[h + 1]? = some (ledger.chain.get ⟨h + 1, by omega⟩) := List.getElem?_eq_getElem _
    have hcount := honce.once _ _ (Nat.lt_succ_self h) (by omega) hnext
    have hmem := List.count_pos_iff.mp (hcount.symm ▸ Nat.one_pos)
    rw [hadded, mem_drop_take hnext] at hmem
    omega
  · intro hcase
    have hordered := numbers_drop_take ledger first (last + 1)
    rw [← hadded] at hordered
    refine ⟨fun n b hn hle hb => ?_, hordered⟩
    have hnodup : (events.flatMap BlockEvent.Added).Nodup := hordered.imp fun hlt heq => by
      rw [heq] at hlt
      exact lt_irrefl _ hlt
    refine List.count_eq_one_of_mem hnodup ?_
    rw [hadded, mem_drop_take hb]
    omega

end Emitted

/-- **Which blocks are skipped.** `Start` fills the window, and the heads of the growing chain that follow
leave out no block and repeat none if and only if the chain had more than its first block when the
tracker was started, or the first of these heads is the block right after it. -/
theorem start_emits_iff (ledger : Ledger) (t : Tracker) (hM : 1 ≤ t.config.MaxBlockBacklog) (h : ℕ)
    (head : Block) (hhead : ledger.chain[h]? = some head) (provider : Provider)
    (hserves : provider.ServesBlocks ledger h) (calls : List (Provider × Block))
    (hcalls : HeadsAfter ledger t.config.MaxBlockBacklog h calls) :
    ∃ t', start t provider (.ok head) = .ok t' ∧ (EmittedOnce ledger h (lastHead h calls) (emitted t' calls) ↔
        h ≠ 0 ∨ ∀ c ∈ calls.head?, c.2.Number = 1) := by
  obtain ⟨hh, -⟩ := List.getElem?_eq_some_iff.mp hhead
  have hlast := lastHead_lt hh hcalls
  by_cases hzero : h = 0
  · subst hzero
    refine ⟨_, start_first ledger.fromGenesis hhead, ?_⟩
    cases calls with
    | nil =>
      have hadded : (emitted { t with blocks := [] } []).flatMap BlockEvent.Added =
          (ledger.chain.take (0 + 1)).drop (0 + 1) := (List.drop_eq_nil_of_le (List.length_take_le _ _)).symm
      exact (emittedOnce_iff le_rfl hadded hlast).trans (by simp)
    | cons c calls =>
      obtain ⟨hlt, -, -, -, hrest⟩ := id hcalls
      have hadded := emitted_empty (t := { t with blocks := [] }) hM rfl hcalls
      have hge := lastHead_ge hrest
      refine (emittedOnce_iff hlt hadded hlast).trans ?_
      have hlate : ¬ lastHead c.2.Number calls ≤ 0 := by omega
      simp [hlate]
  · have hne : (ledger.chain.take (h + 1)).rtake t.config.MaxBlockBacklog ≠ [] := fun hnil => by
      have hend := getLast?_window hM hh
      rw [hnil] at hend
      cases hend
    refine ⟨_, start_ok ledger.fromGenesis hserves.finds le_rfl hzero hhead, ?_⟩
    have hadded := emitted_added
      (t := { t with blocks := (ledger.chain.take (h + 1)).rtake t.config.MaxBlockBacklog }) hM
      (rtake_suffix _ _) hne (length_rtake_le _ _) hh hcalls
    exact (emittedOnce_iff le_rfl hadded hlast).trans (by simp [hzero])

def threeBlocks : List Block :=
  [{ Number := 0, Hash := bytesToHash [1], ParentHash := bytesToHash [0] },
    { Number := 1, Hash := bytesToHash [2], ParentHash := bytesToHash [1] },
    { Number := 2, Hash := bytesToHash [3], ParentHash := bytesToHash [2] }]

def threeLedger : Ledger :=
  { BlockTree.ofList threeBlocks (by decide) (by decide) with
    logs := fun _ _ => []
    labelled := nofun
    chain := threeBlocks
    mem_blocks := fun _ => Iff.rfl
    linked := by
      have h : threeBlocks.IsChain fun a b => b.ParentHash = a.Hash := by decide
      exact h
    numbered := by
      intro n b hb
      obtain ⟨hlt, rfl⟩ := List.getElem?_eq_some_iff.mp hb
      have h : ∀ (n : ℕ) (hn : n < 3), (threeBlocks.get ⟨n, hn⟩).Number = n := by decide
      exact h n hlt }

def threeProvider : Provider :=
  { getBlockByHash := byHash threeBlocks
    getBlockByNumber := fun n => found threeBlocks[n]?
    getLogs := fun _ => .ok [] }

theorem threeProvider_serves (top : ℕ) : threeProvider.ServesBlocks threeLedger top := by
  have h : ∀ b ∈ threeBlocks, byHash threeBlocks b.Hash = .ok b := by decide
  exact ⟨mem_of_byHash, fun b hb => h b (List.mem_of_mem_take hb)⟩

/-- The last two of three blocks. -/
theorem populateBlocks_exact_three : ∃ blocks,
    populateBlocks 2 threeProvider (.ok (threeBlocks.get ⟨2, by decide⟩)) = .ok (blocks.map some) ∧
      blocks <:+ threeBlocks ∧ blocks.length = 2 := by
  obtain ⟨blocks, hwindow, hsuffix, hlen, -⟩ := populateBlocks_exact threeLedger.fromGenesis
    (threeProvider_serves 2).finds rfl (by decide) (by decide : 1 ≤ 2)
  exact ⟨blocks, hwindow, hsuffix, hlen⟩

def newTracker : Tracker :=
  { config := { BatchSize := 100, MaxBlockBacklog := 10 }
    blocks := []
    filters := []
    store := { entries := fun _ => [], lastBlock := fun _ => none } }

/-- Started at block 1, the tracker sees the next head. -/
theorem start_emits_iff_three : ∃ t', start newTracker threeProvider (.ok (threeBlocks.get ⟨1, by decide⟩)) = .ok t' ∧
      EmittedOnce threeLedger 1 2 (emitted t' [(threeProvider, threeBlocks.get ⟨2, by decide⟩)]) := by
  obtain ⟨t', hstart, hiff⟩ := start_emits_iff threeLedger newTracker (by decide) 1 _ rfl threeProvider
    (threeProvider_serves 1) [(threeProvider, threeBlocks.get ⟨2, by decide⟩)]
    ⟨by decide, by decide, rfl, threeProvider_serves _, trivial⟩
  exact ⟨t', hstart, hiff.mpr (.inl (by decide))⟩

/-- Started with the first block alone, the tracker is then given block 2, and block 1 is in no event. -/
theorem start_skips_block :
    let calls := [(threeProvider, threeBlocks.get ⟨2, by decide⟩)]
    HeadsAfter threeLedger 10 0 calls ∧
      ∃ t', start newTracker threeProvider (.ok (threeBlocks.get ⟨0, by decide⟩)) = .ok t' ∧
        (emitted t' calls).flatMap BlockEvent.Added = [threeBlocks.get ⟨2, by decide⟩] ∧
        ¬ EmittedOnce threeLedger 0 2 (emitted t' calls) := by
  have hadded : (emitted { newTracker with blocks := [] }
      [(threeProvider, threeBlocks.get ⟨2, by decide⟩)]).flatMap BlockEvent.Added =
        [threeBlocks.get ⟨2, by decide⟩] := by decide
  refine ⟨⟨by decide, by decide, rfl, threeProvider_serves _, trivial⟩, { newTracker with blocks := [] }, rfl,
    hadded, fun honce => ?_⟩
  have hcount := honce.once 1 (threeBlocks.get ⟨1, by decide⟩) (by decide) (by decide) rfl
  rw [hadded] at hcount
  exact absurd hcount (by decide)

end Web3.Tracker
