import Web3.Foundations.Windows
import Web3.Tracker.Blocks

/-! # The window is a chain

With a provider that serves a block tree, the window stays a chain of the tree, and every event
describes how it has moved: from the fork point along the path to the new head. -/

namespace Web3.Tracker

/-! ## Block trees -/

/-- Blocks in which a hash determines its block, and numbers grow by one from parent to child. -/
structure BlockTree where
  blocks : Set Block
  hash_inj : ∀ b ∈ blocks, ∀ c ∈ blocks, b.Hash = c.Hash → b = c
  number : ∀ b ∈ blocks, ∀ p ∈ blocks, b.ParentHash = p.Hash → b.Number = p.Number + 1

def Linked (a b : Block) : Prop := b.ParentHash = a.Hash

/-- Every block that the provider returns is the block of the tree with that hash. -/
def Provider.Serves (p : Provider) (tree : BlockTree) : Prop :=
  ∀ h b, p.getBlockByHash h = .ok b → b ∈ tree.blocks ∧ b.Hash = h

/-- Linked blocks of a tree. -/
structure BlockTree.IsPath (tree : BlockTree) (blocks : List Block) : Prop where
  mem : ∀ b ∈ blocks, b ∈ tree.blocks
  linked : blocks.IsChain Linked

namespace BlockTree.IsPath
variable {tree : BlockTree} {blocks blocks' : List Block}

variable (h : tree.IsPath blocks)
include h

theorem of_prefix (hp : blocks' <+: blocks) : tree.IsPath blocks' :=
  ⟨fun b hb => h.mem b (hp.subset hb), h.linked.prefix hp⟩

theorem of_suffix (hs : blocks' <:+ blocks) : tree.IsPath blocks' :=
  ⟨fun b hb => h.mem b (hs.subset hb), h.linked.suffix hs⟩

theorem consecutive : blocks.IsChain fun a b => b.Number = a.Number + 1 :=
  h.linked.imp_of_mem_imp fun a b ha hb hab => tree.number b (h.mem b hb) a (h.mem a ha) hab

theorem numbers_lt : blocks.Pairwise fun a b => a.Number < b.Number := by
  have hlt : blocks.IsChain fun a b => a.Number < b.Number :=
    h.consecutive.imp fun a b hab => by omega
  have : Trans (fun a b : Block => a.Number < b.Number) (fun a b : Block => a.Number < b.Number)
      (fun a b : Block => a.Number < b.Number) := ⟨fun hab hbc => hab.trans hbc⟩
  exact hlt.pairwise

theorem nodup_hash : (blocks.map Block.Hash).Nodup := by
  refine List.pairwise_map.mpr (h.numbers_lt.imp_of_mem fun {a b} ha hb hlt heq => ?_)
  rw [tree.hash_inj a (h.mem a ha) b (h.mem b hb) heq] at hlt
  exact lt_irrefl _ hlt

end BlockTree.IsPath

/-! ## Adding blocks -/

section Adding
variable {tree : BlockTree} {MaxBlockBacklog : ℕ} {blocks : List Block}

variable (hM : 1 ≤ MaxBlockBacklog) (hlen : blocks.length ≤ MaxBlockBacklog)
include hM hlen

theorem addBlockLocked_eq {block : Block} (hpath : tree.IsPath (blocks ++ [block])) :
    addBlockLocked MaxBlockBacklog blocks block = (.ok (), (blocks ++ [block]).rtake MaxBlockBacklog) := by
  have hroom : ¬ (blocks.length = MaxBlockBacklog ∧ blocks = []) := by
    rintro ⟨rfl, rfl⟩
    exact absurd hM (by decide)
  rw [addBlockLocked, if_neg hroom, ← push_eq_rtake hM hlen]
  have htrim : (if blocks.length = MaxBlockBacklog then blocks.drop 1 else blocks) <:+ blocks := by
    split
    · exact List.drop_suffix _ _
    · exact List.suffix_refl _
  generalize (if blocks.length = MaxBlockBacklog then blocks.drop 1 else blocks) = trimmed at htrim ⊢
  have hconsec := (hpath.of_suffix (suffix_append_right htrim [block])).consecutive
  dsimp only
  cases hlast : trimmed.getLast? with
  | none => rfl
  | some last =>
    have hnum : block.Number = last.Number + 1 :=
      (List.isChain_append.mp hconsec).2.2 last hlast block rfl
    rw [hnum]
    exact if_neg (not_not.mpr rfl)

theorem addBlocks_eq {added : List Block} (hpath : tree.IsPath (blocks ++ added)) :
    addBlocks MaxBlockBacklog blocks added = (.ok (), (blocks ++ added).rtake MaxBlockBacklog) := by
  induction added generalizing blocks with
  | nil => rw [addBlocks, List.append_nil, rtake_of_length_le hlen]
  | cons block rest ih =>
    rw [List.append_cons] at hpath ⊢
    rw [addBlocks, addBlockLocked_eq hM hlen (hpath.of_prefix (List.prefix_append _ _))]
    have hsuffix := suffix_append_right (rtake_suffix (blocks ++ [block]) MaxBlockBacklog) rest
    rw [← rtake_append_rtake (blocks ++ [block]) rest]
    exact ih (length_rtake_le _ _) (hpath.of_suffix hsuffix)

end Adding

/-! ## Reconciling -/

section Reconciling
variable {tree : BlockTree} {provider : Provider} {blocks : List Block} {block : Block}
  {hash : Hash} {indx : ℕ} {path added : List Block}

theorem blockAtIndex_eq_none : blockAtIndex blocks hash = none ↔ ∀ o ∈ blocks, o.Hash ≠ hash := by
  rw [blockAtIndex, List.findIdx?_eq_none_iff]
  simp only [decide_eq_false_iff_not, ne_eq]

theorem getLast?_take_of_blockAtIndex (h : blockAtIndex blocks hash = some indx) :
    ∃ fork, (blocks.take (indx + 1)).getLast? = some fork ∧ fork.Hash = hash := by
  obtain ⟨hlt, hhash, -⟩ := List.findIdx?_eq_some_iff_getElem.mp h
  refine ⟨blocks[indx], ?_, of_decide_eq_true hhash⟩
  rw [List.take_succ_eq_append_getElem hlt, List.getLast?_concat]

structure NewPath (tree : BlockTree) (blocks : List Block) (block : Block) (path : List Block) : Prop where
  isPath : tree.IsPath path
  ends : path.getLast? = some block
  fresh : ∀ b ∈ path, ∀ o ∈ blocks, o.Hash ≠ b.Hash

theorem NewPath.singleton (hblock : block ∈ tree.blocks) (hfresh : ∀ o ∈ blocks, o.Hash ≠ block.Hash) :
    NewPath tree blocks block [block] := by
  refine ⟨⟨?_, List.IsChain.singleton _⟩, rfl, ?_⟩
  · rintro b hb
    rwa [List.mem_singleton.mp hb]
  · rintro b hb
    rwa [List.mem_singleton.mp hb]

theorem NewPath.cons {b parent : Block} (h : NewPath tree blocks block (b :: path))
    (hmem : parent ∈ tree.blocks) (hparent : parent.Hash = b.ParentHash)
    (hfresh : ∀ o ∈ blocks, o.Hash ≠ b.ParentHash) : NewPath tree blocks block (parent :: b :: path) := by
  refine ⟨⟨?_, List.isChain_cons_cons.mpr ⟨hparent.symm, h.isPath.linked⟩⟩, ?_, ?_⟩
  · exact List.forall_mem_cons.mpr ⟨hmem, h.isPath.mem⟩
  · rw [List.getLast?_cons_cons]
    exact h.ends
  · refine List.forall_mem_cons.mpr ⟨?_, h.fresh⟩
    rwa [hparent]

/-- What the loop finds: the path from a child of a known block. The blocks found so far, last one
first, are a path of new blocks, and the parent of the current one is unknown. -/
theorem backfill_ok (hserves : provider.Serves tree) {rounds : ℕ} {current : Block}
    (hadded : added.reverse = current :: path) (hpath : NewPath tree blocks block (current :: path))
    (hunknown : blockAtIndex blocks current.ParentHash = none) {added' : List Block}
    (h : backfill provider blocks rounds current added = .ok (added', indx)) :
    ∃ first rest, added'.reverse = first :: rest ∧ NewPath tree blocks block (first :: rest) ∧
      blockAtIndex blocks first.ParentHash = some indx := by
  induction rounds generalizing current added path with
  | zero => cases h
  | succ rounds ih =>
    rw [backfill] at h
    split at h
    · cases h
    next parent hget =>
      obtain ⟨hmem, hhash⟩ := hserves _ _ hget
      have hadded' : (added ++ [parent]).reverse = parent :: current :: path := by
        rw [List.reverse_append, hadded]
        rfl
      have hpath' := hpath.cons hmem hhash (blockAtIndex_eq_none.mp hunknown)
      dsimp only at h
      split at h
      · next found =>
        cases h
        exact ⟨parent, current :: path, hadded', hpath', found⟩
      · next hnone => exact ih hadded' hpath' hnone h

theorem kept_append_removed (blocks : List Block) (indx : Option ℕ) :
    keptBlocks blocks indx ++ removedBlocks blocks indx = blocks := by
  cases indx with
  | none => exact List.append_nil blocks
  | some indx => exact List.take_append_drop _ blocks

/-- What `handleReconcileImpl` answers: nothing for a known block, and else a path of new blocks to the
given one, which continues the part of the window that stays. -/
theorem handleReconcileImpl_ok (hserves : provider.Serves tree) (hblock : block ∈ tree.blocks)
    {MaxBlockBacklog : ℕ} {indx : Option ℕ}
    (h : handleReconcileImpl MaxBlockBacklog provider blocks block = .ok (added, indx)) :
    added = [] ∧ (∃ o ∈ blocks, o.Hash = block.Hash) ∨ NewPath tree blocks block added ∧
      (blocks = [] ∧ added = [block] ∧ indx = none ∨
        ∃ fork first, (keptBlocks blocks indx).getLast? = some fork ∧ added.head? = some first ∧
          Linked fork first) := by
  rw [handleReconcileImpl] at h
  split at h
  · next hknown =>
    cases h
    refine .inl ⟨rfl, by_contra fun hnone => ?_⟩
    push Not at hnone
    rw [blockAtIndex_eq_none.mpr hnone] at hknown
    cases hknown
  next hnew =>
  have hfresh : ∀ o ∈ blocks, o.Hash ≠ block.Hash :=
    blockAtIndex_eq_none.mp (Option.not_isSome_iff_eq_none.mp hnew)
  have hsingle := NewPath.singleton hblock hfresh
  right
  split at h
  · next hempty =>
    cases h
    exact ⟨hsingle, .inl ⟨List.getLast?_eq_none_iff.mp hempty, rfl, rfl⟩⟩
  next last hlast =>
  split at h
  · next hparent =>
    cases h
    exact ⟨hsingle, .inr ⟨last, block, hlast, rfl, hparent.symm⟩⟩
  split at h
  · next i hi =>
    cases h
    obtain ⟨fork, hfork, hhash⟩ := getLast?_take_of_blockAtIndex hi
    exact ⟨hsingle, .inr ⟨fork, block, hfork, rfl, hhash.symm⟩⟩
  · next hunknown =>
    cases hfill : backfill provider blocks (MaxBlockBacklog + 1) block [block] with
    | error e =>
      rw [hfill] at h
      cases h
    | ok r =>
      obtain ⟨added', i⟩ := r
      rw [hfill] at h
      cases h
      obtain ⟨first, rest, hrev, hpath, hi⟩ := backfill_ok hserves rfl hsingle hunknown hfill
      obtain ⟨fork, hfork, hhash⟩ := getLast?_take_of_blockAtIndex hi
      rw [hrev]
      exact ⟨hpath, .inr ⟨fork, first, hfork, rfl, hhash.symm⟩⟩

end Reconciling

/-! ## One call -/

/-- A window of a tree: at most `MaxBlockBacklog` linked blocks. -/
structure IsWindow (tree : BlockTree) (MaxBlockBacklog : ℕ) (blocks : List Block) : Prop where
  isPath : tree.IsPath blocks
  length : blocks.length ≤ MaxBlockBacklog

/-- How an event describes the move of the window from `old` to `new` with the head `block`: after the
fork point the old blocks are removed, and the path from there to the head is added. Nothing is
removed from an empty window, and then the head is all that is added. -/
structure Moves (tree : BlockTree) (MaxBlockBacklog : ℕ) (old : List Block) (block : Block)
    (event : BlockEvent) (new : List Block) : Prop where
  added : NewPath tree old block event.Added
  window : ∃ kept, old = kept ++ event.Removed ∧ new = (kept ++ event.Added).rtake MaxBlockBacklog ∧
    (old = [] ∧ event.Added = [block] ∨ ∃ fork, kept.getLast? = some fork ∧ (fork :: event.Added).IsChain Linked)

/-- The possible results of `handleBlockEvent`, with the window afterwards. -/
inductive Handled (tree : BlockTree) (MaxBlockBacklog : ℕ) (old : List Block) (block : Block) :
    Outcome (Option BlockEvent) × List Block → Prop
  | moved {event : BlockEvent} {new : List Block} (h : Moves tree MaxBlockBacklog old block event new) :
      Handled tree MaxBlockBacklog old block (.ok (some event), new)
  | known : Handled tree MaxBlockBacklog old block (.ok none, old)
  | failed (err : String) : Handled tree MaxBlockBacklog old block (.err err, old)

section Call
variable {tree : BlockTree} {MaxBlockBacklog : ℕ} {provider : Provider} {blocks : List Block}
  {block : Block} {added new : List Block} {event : BlockEvent}

theorem isPath_append {kept : List Block} (hkept : tree.IsPath kept) (hadded : tree.IsPath added)
    (hlink : ∀ fork ∈ kept.getLast?, ∀ first ∈ added.head?, Linked fork first) : tree.IsPath (kept ++ added) := by
  refine ⟨fun b hb => ?_, List.isChain_append.mpr ⟨hkept.linked, hadded.linked, hlink⟩⟩
  rcases List.mem_append.mp hb with hb | hb
  · exact hkept.mem b hb
  · exact hadded.mem b hb

section
variable (hM : 1 ≤ MaxBlockBacklog) (hserves : provider.Serves tree) (hblock : block ∈ tree.blocks) (hwindow : IsWindow tree MaxBlockBacklog blocks)
include hM hserves hblock hwindow

theorem handleBlockEvent_moves {b : Block} {indx : Option ℕ}
    (himpl : handleReconcileImpl MaxBlockBacklog provider blocks block = .ok (b :: added, indx)) :
    ∃ event new, handleBlockEvent MaxBlockBacklog provider blocks block = (.ok (some event), new) ∧
      Moves tree MaxBlockBacklog blocks block event new := by
  obtain ⟨hnil, -⟩ | ⟨hnew, hpoint⟩ := handleReconcileImpl_ok hserves hblock himpl
  · cases hnil
  have hfront : keptBlocks blocks indx <+: blocks :=
    ⟨removedBlocks blocks indx, kept_append_removed blocks indx⟩
  have hlink : ∀ fork ∈ (keptBlocks blocks indx).getLast?, ∀ first ∈ (b :: added).head?, Linked fork first := by
    rcases hpoint with ⟨rfl, -, rfl⟩ | ⟨fork, first, hfork, hfirst, hlinked⟩
    · nofun
    · intro fork' hfork' first' hfirst'
      cases hfork.symm.trans hfork'
      cases hfirst.symm.trans hfirst'
      exact hlinked
  have hpath := isPath_append (hwindow.isPath.of_prefix hfront) hnew.isPath hlink
  rw [handleBlockEvent, himpl]
  dsimp only
  rw [addBlocks_eq hM (hfront.length_le.trans hwindow.length) hpath]
  refine ⟨_, _, rfl, hnew, keptBlocks blocks indx, (kept_append_removed blocks indx).symm, rfl, ?_⟩
  rcases hpoint with ⟨hempty, hadded, -⟩ | ⟨fork, first, hfork, hfirst, hlinked⟩
  · exact .inl ⟨hempty, hadded⟩
  · refine .inr ⟨fork, hfork, List.isChain_cons.mpr ⟨?_, hnew.isPath.linked⟩⟩
    exact fun first hfirst => hlink fork hfork first hfirst

theorem handleBlockEvent_handled :
    Handled tree MaxBlockBacklog blocks block (handleBlockEvent MaxBlockBacklog provider blocks block) := by
  cases himpl : handleReconcileImpl MaxBlockBacklog provider blocks block with
  | error e =>
    rw [handleBlockEvent, himpl]
    exact .failed e
  | ok r =>
    obtain ⟨_ | ⟨b, added⟩, indx⟩ := r
    · rw [handleBlockEvent, himpl]
      exact .known
    · obtain ⟨event, new, heq, hmoves⟩ := handleBlockEvent_moves hM hserves hblock hwindow himpl
      rw [heq]
      exact .moved hmoves

end

theorem handleBlockEvent_known (hserves : provider.Serves tree) (hblock : block ∈ tree.blocks)
    (h : handleBlockEvent MaxBlockBacklog provider blocks block = (.ok none, new)) :
    ∃ o ∈ blocks, o.Hash = block.Hash := by
  rw [handleBlockEvent] at h
  split at h
  · cases h
  · next himpl =>
    obtain ⟨-, hknown⟩ | ⟨hnew, -⟩ := handleReconcileImpl_ok hserves hblock himpl
    · exact hknown
    · cases hnew.ends
  · dsimp only at h
    split at h <;> cases h

theorem Moves.added_ne_nil (h : Moves tree MaxBlockBacklog blocks block event new) :
    event.Added ≠ [] := fun hnil => by
  have hends := h.added.ends
  rw [hnil] at hends
  cases hends

theorem Moves.exists_kept (h : Moves tree MaxBlockBacklog blocks block event new) (hpath : tree.IsPath blocks) :
    ∃ kept, blocks = kept ++ event.Removed ∧ new = (kept ++ event.Added).rtake MaxBlockBacklog ∧
      tree.IsPath (kept ++ event.Added) ∧ (kept = [] → blocks = []) := by
  obtain ⟨kept, hold, hnew, hpoint⟩ := h.window
  refine ⟨kept, hold, hnew, isPath_append (hpath.of_prefix ⟨_, hold.symm⟩) h.added.isPath ?_, ?_⟩
  · rcases hpoint with ⟨hempty, -⟩ | ⟨fork, hfork, hchain⟩
    · rw [(List.append_eq_nil_iff.mp (hold.symm.trans hempty)).1]
      nofun
    · intro fork' hfork' first hfirst
      cases hfork.symm.trans hfork'
      exact (List.isChain_cons.mp hchain).1 first hfirst
  · rintro rfl
    rcases hpoint with ⟨hempty, -⟩ | ⟨fork, hfork, -⟩
    · exact hempty
    · cases hfork

/-- **The step**: a call keeps the window. -/
theorem Handled.isWindow {r : Outcome (Option BlockEvent) × List Block}
    (h : Handled tree MaxBlockBacklog blocks block r) (hwindow : IsWindow tree MaxBlockBacklog blocks) :
    IsWindow tree MaxBlockBacklog r.2 := by
  cases h with
  | known | failed => exact hwindow
  | moved h =>
    obtain ⟨kept, -, hnew, hpath, -⟩ := h.exists_kept hwindow.isPath
    rw [hnew]
    exact ⟨hpath.of_suffix (rtake_suffix _ _), length_rtake_le _ _⟩

end Call

/-! ## Sequences of calls -/

def runBlocks (MaxBlockBacklog : ℕ) (blocks : List Block) : List (Provider × Block) → List Block
  | [] => blocks
  | (provider, block) :: calls =>
    runBlocks MaxBlockBacklog (handleBlockEvent MaxBlockBacklog provider blocks block).2 calls

/-- **The run**: calls with blocks of the tree keep the window. -/
theorem runBlocks_isWindow {tree : BlockTree} {MaxBlockBacklog : ℕ} (hM : 1 ≤ MaxBlockBacklog)
    {calls : List (Provider × Block)} (hcalls : ∀ c ∈ calls, c.1.Serves tree ∧ c.2 ∈ tree.blocks)
    {blocks : List Block} (hwindow : IsWindow tree MaxBlockBacklog blocks) :
    IsWindow tree MaxBlockBacklog (runBlocks MaxBlockBacklog blocks calls) := by
  induction calls generalizing blocks with
  | nil => exact hwindow
  | cons c calls ih =>
    obtain ⟨hserves, hblock⟩ := hcalls c (List.mem_cons_self ..)
    have hhandled := handleBlockEvent_handled hM hserves hblock hwindow
    exact ih (fun c hc => hcalls c (List.mem_cons_of_mem _ hc)) (hhandled.isWindow hwindow)

/-- The window is a hash-linked chain of consecutive numbers without repeated hashes, and no longer than
it may be. -/
structure TrackedChain (MaxBlockBacklog : ℕ) (blocks : List Block) : Prop where
  linked : blocks.IsChain fun a b => b.ParentHash = a.Hash
  consecutive : blocks.IsChain fun a b => b.Number = a.Number + 1
  nodup : (blocks.map Block.Hash).Nodup
  length : blocks.length ≤ MaxBlockBacklog

theorem IsWindow.trackedChain {tree : BlockTree} {MaxBlockBacklog : ℕ} {blocks : List Block}
    (h : IsWindow tree MaxBlockBacklog blocks) : TrackedChain MaxBlockBacklog blocks :=
  ⟨h.isPath.linked, h.isPath.consecutive, h.isPath.nodup_hash, h.length⟩

/-- **The chain invariant.** After any sequence of calls with blocks of the tree, one more call leaves a
tracked chain. If it returns an event, the event describes the move of the window; if it returns
nothing or an error, the window is as before. -/
theorem handleBlockEvent_chain (tree : BlockTree) (MaxBlockBacklog : ℕ) (hM : 1 ≤ MaxBlockBacklog)
    (start : List Block) (hstart : IsWindow tree MaxBlockBacklog start)
    (calls : List (Provider × Block)) (hcalls : ∀ c ∈ calls, c.1.Serves tree ∧ c.2 ∈ tree.blocks)
    (provider : Provider) (hserves : provider.Serves tree) (block : Block)
    (hblock : block ∈ tree.blocks) :
    let old := runBlocks MaxBlockBacklog start calls
    let result := handleBlockEvent MaxBlockBacklog provider old block
    TrackedChain MaxBlockBacklog old ∧ TrackedChain MaxBlockBacklog result.2 ∧
      Handled tree MaxBlockBacklog old block result := by
  have hwindow := runBlocks_isWindow hM hcalls hstart
  have hhandled := handleBlockEvent_handled hM hserves hblock hwindow
  exact ⟨hwindow.trackedChain, (hhandled.isWindow hwindow).trackedChain, hhandled⟩

def sampleRoot : Block := { Number := 7, Hash := bytesToHash [1], ParentHash := bytesToHash [0] }

def sampleLeft : Block := { Number := 8, Hash := bytesToHash [2], ParentHash := bytesToHash [1] }

def sampleRight : Block := { Number := 8, Hash := bytesToHash [3], ParentHash := bytesToHash [1] }

def sampleBlocks : List Block := [sampleRoot, sampleLeft, sampleRight]

/-- The tree of the blocks of a list. -/
def BlockTree.ofList (list : List Block) (hash_inj : ∀ b ∈ list, ∀ c ∈ list, b.Hash = c.Hash → b = c)
    (number : ∀ b ∈ list, ∀ p ∈ list, b.ParentHash = p.Hash → b.Number = p.Number + 1) : BlockTree :=
  { blocks := fun b => b ∈ list, hash_inj, number }

def found (o : Option Block) : Except String Block := o.elim (.error "not found") .ok

theorem found_eq_ok {o : Option Block} {b : Block} : found o = .ok b ↔ o = some b := by
  cases o <;> simp [found]

/-- The answer of a node that has the blocks of a list. -/
def byHash (list : List Block) (h : Hash) : Except String Block := found (list.find? (·.Hash = h))

theorem mem_of_byHash {list : List Block} (h : Hash) (b : Block) (hb : byHash list h = .ok b) :
    b ∈ list ∧ b.Hash = h := by
  have hfind := found_eq_ok.mp hb
  have hhash := List.find?_some hfind
  exact ⟨List.mem_of_find?_eq_some hfind, of_decide_eq_true hhash⟩

def sampleTree : BlockTree := .ofList sampleBlocks (by decide) (by decide)

def sampleProvider : Provider :=
  { getBlockByHash := byHash sampleBlocks
    getBlockByNumber := fun n => found (sampleBlocks.find? (·.Number = n))
    getLogs := fun _ => .ok [] }

theorem sampleProvider_serves : sampleProvider.Serves sampleTree := mem_of_byHash

/-- The window follows the left child of the root, and then switches to the right one. -/
theorem handleBlockEvent_chain_switch : TrackedChain 2 [sampleRoot, sampleRight] ∧
      Handled sampleTree 2 [sampleRoot, sampleLeft] sampleRight
        (.ok (some { Added := [sampleRight], Removed := [sampleLeft] }), [sampleRoot, sampleRight]) := by
  have hstart : IsWindow sampleTree 2 [sampleRoot] := by
    refine ⟨⟨?_, List.IsChain.singleton _⟩, by decide⟩
    intro b hb
    rw [List.mem_singleton.mp hb]
    exact List.mem_cons_self ..
  have hleft : sampleLeft ∈ sampleTree.blocks := List.mem_cons_of_mem _ (List.mem_cons_self ..)
  have hright : sampleRight ∈ sampleTree.blocks :=
    List.mem_cons_of_mem _ (List.mem_cons_of_mem _ (List.mem_cons_self ..))
  have hcalls : ∀ c ∈ [(sampleProvider, sampleLeft)], c.1.Serves sampleTree ∧ c.2 ∈ sampleTree.blocks := by
    intro c hc
    rw [List.mem_singleton.mp hc]
    exact ⟨sampleProvider_serves, hleft⟩
  exact (handleBlockEvent_chain sampleTree 2 (by decide) [sampleRoot] hstart
    [(sampleProvider, sampleLeft)] hcalls sampleProvider sampleProvider_serves sampleRight hright).2

end Web3.Tracker
