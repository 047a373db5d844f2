import Web3.Foundations.Forests
import Web3.Tracker.ChainInvariant
import Web3.Tracker.Sync

/-! # The fork point

`findAncestor` goes down from two blocks of one number at the same time, until their hashes agree. On a
set of blocks with parent links this finds their highest common ancestor. -/

namespace Web3.Tracker

variable {tree : BlockTree} {provider : Provider} {MaxBlockBacklog : ℕ} {block pivot c : Block}

/-- The first block is the parent of the second, and both are blocks of the tree. -/
def BlockTree.Parent (tree : BlockTree) (p b : Block) : Prop := p ∈ tree.blocks ∧ b ∈ tree.blocks ∧ Linked p b

theorem BlockTree.forest (tree : BlockTree) : Forest tree.Parent Block.Number where
  unique hp hq := tree.hash_inj _ hp.1 _ hq.1 (hp.2.2.symm.trans hq.2.2)
  rank hp := tree.number _ hp.2.1 _ hp.1 hp.2.2

/-- The node has the blocks of the tree, and no others. -/
structure Provider.ServesExactly (provider : Provider) (tree : BlockTree) : Prop where
  known : ∀ b ∈ tree.blocks, provider.getBlockByHash b.Hash = .ok b
  unknown : ∀ h, (∀ b ∈ tree.blocks, b.Hash ≠ h) → ∃ e, provider.getBlockByHash h = .error e

namespace Provider.ServesExactly

theorem parent (hserves : provider.ServesExactly tree) (hp : tree.Parent c block) :
    provider.getBlockByHash block.ParentHash = .ok c := by
  rw [hp.2.2]
  exact hserves.known c hp.1

theorem parent_of_ok (hserves : provider.ServesExactly tree) (hblock : block ∈ tree.blocks)
    (h : provider.getBlockByHash block.ParentHash = .ok c) : tree.Parent c block := by
  by_cases hknown : ∃ b ∈ tree.blocks, b.Hash = block.ParentHash
  · obtain ⟨b, hb, hhash⟩ := hknown
    rw [← hhash, hserves.known b hb] at h
    cases h
    exact ⟨hb, hblock, hhash.symm⟩
  · push Not at hknown
    obtain ⟨e, he⟩ := hserves.unknown _ hknown
    rw [he] at h
    cases h

end Provider.ServesExactly

variable {rounds n : ℕ}

theorem findAncestor_round (hnumber : block.Number = pivot.Number) (hhash : block.Hash ≠ pivot.Hash) :
    findAncestor MaxBlockBacklog provider (rounds + 1) block pivot = .ok n ↔
      ∃ p q, provider.getBlockByHash block.ParentHash = .ok p ∧ provider.getBlockByHash pivot.ParentHash = .ok q ∧
        findAncestor MaxBlockBacklog provider rounds p q = .ok n := by
  rw [findAncestor, if_neg (not_not.mpr hnumber), if_neg hhash]
  cases provider.getBlockByHash block.ParentHash with
  | error e =>
    constructor
    · intro h
      cases h
    · rintro ⟨p, q, h, -, -⟩
      cases h
  | ok p =>
    cases provider.getBlockByHash pivot.ParentHash with
    | error e =>
      constructor
      · intro h
        cases h
      · rintro ⟨p, q, -, h, -⟩
        cases h
    | ok q =>
      constructor
      · exact fun h => ⟨p, q, rfl, rfl, h⟩
      · rintro ⟨_, _, hp, hq, h⟩
        cases hp
        cases hq
        exact h

/-- The search returns the number of the highest common ancestor if it is within reach, and else an
error. -/
theorem findAncestor_eq_ok_iff (hserves : provider.ServesExactly tree)
    (hblock : block ∈ tree.blocks) (hpivot : pivot ∈ tree.blocks) (hnumber : block.Number = pivot.Number) :
    findAncestor MaxBlockBacklog provider rounds block pivot = .ok n ↔
      ∃ c, HighestCommon tree.Parent Block.Number block pivot c ∧ c.Number = n ∧ block.Number < n + rounds := by
  -- each round goes down on both sides, so the distance that is left and the rounds shrink together
  induction rounds generalizing block pivot with
  | zero =>
    constructor
    · intro h
      cases h
    · rintro ⟨c, hc, rfl, hlt⟩
      have hle := tree.forest.rank_le hc.left
      omega
  | succ rounds ih =>
    by_cases hsame : block = pivot
    · rw [← hsame, findAncestor, if_neg (not_not.mpr rfl), if_pos rfl]
      constructor
      · intro h
        cases h
        exact ⟨block, tree.forest.highestCommon_self, rfl, by omega⟩
      · rintro ⟨c, hc, rfl, -⟩
        rw [tree.forest.highestCommon_self_rank hc]
    · have hhash : block.Hash ≠ pivot.Hash := fun h => hsame (tree.hash_inj _ hblock _ hpivot h)
      rw [findAncestor_round hnumber hhash]
      constructor
      · rintro ⟨p, q, hp, hq, h⟩
        have hp := hserves.parent_of_ok hblock hp
        have hq := hserves.parent_of_ok hpivot hq
        have hrank := tree.forest.rank hp
        have hrank' := tree.forest.rank hq
        obtain ⟨c, hc, hn, hlt⟩ := (ih hp.1 hq.1 (by omega)).mp h
        exact ⟨c, (tree.forest.highestCommon_iff_parents hnumber hsame hp hq).mpr hc, hn, by omega⟩
      · rintro ⟨c, hc, hn, hlt⟩
        obtain ⟨⟨p, hp⟩, q, hq⟩ := tree.forest.exists_parents hnumber hsame hc.left hc.right
        have hrank := tree.forest.rank hp
        have hrank' := tree.forest.rank hq
        refine ⟨p, q, hserves.parent hp, hserves.parent hq, (ih hp.1 hq.1 (by omega)).mpr ?_⟩
        exact ⟨c, (tree.forest.highestCommon_iff_parents hnumber hsame hp hq).mp hc, hn, by omega⟩

/-- **`findAncestor` computes the fork point.** With a backlog of `M` blocks it returns the number of the
highest common ancestor if that is at most `M - 1` blocks down, and an error if it is deeper or there is
none. -/
theorem findAncestor_fork_point (hserves : provider.ServesExactly tree) (hM : 1 ≤ MaxBlockBacklog)
    (hblock : block ∈ tree.blocks) (hpivot : pivot ∈ tree.blocks) (hnumber : block.Number = pivot.Number) :
    (∀ c, HighestCommon tree.Parent Block.Number block pivot c → block.Number - c.Number ≤ MaxBlockBacklog - 1 →
      findAncestor MaxBlockBacklog provider MaxBlockBacklog block pivot = .ok c.Number) ∧
    ((∀ c, HighestCommon tree.Parent Block.Number block pivot c → MaxBlockBacklog - 1 < block.Number - c.Number) →
      ∃ e, findAncestor MaxBlockBacklog provider MaxBlockBacklog block pivot = .error e) := by
  constructor
  · intro c hc hnear
    exact (findAncestor_eq_ok_iff hserves hblock hpivot hnumber).mpr ⟨c, hc, rfl, by omega⟩
  · intro hdeep
    cases hresult : findAncestor MaxBlockBacklog provider MaxBlockBacklog block pivot with
    | error e => exact ⟨e, rfl⟩
    | ok n =>
      obtain ⟨c, hc, rfl, hlt⟩ := (findAncestor_eq_ok_iff hserves hblock hpivot hnumber).mp hresult
      have := hdeep c hc
      omega

theorem sampleProvider_servesExactly : sampleProvider.ServesExactly sampleTree where
  known := by
    have h : ∀ b ∈ sampleBlocks, byHash sampleBlocks b.Hash = .ok b := by decide
    exact h
  unknown h hnone := by
    refine ⟨"not found", ?_⟩
    show byHash sampleBlocks h = _
    rw [byHash, List.find?_eq_none.mpr fun b hb => by simpa using hnone b hb]
    rfl

theorem sampleLeft_parent : sampleTree.Parent sampleRoot sampleLeft :=
  ⟨List.mem_cons_self .., List.mem_cons_of_mem _ (List.mem_cons_self ..), rfl⟩

theorem sampleRight_parent : sampleTree.Parent sampleRoot sampleRight :=
  ⟨List.mem_cons_self .., List.mem_cons_of_mem _ (List.mem_cons_of_mem _ (List.mem_cons_self ..)), rfl⟩

theorem sampleTree_fork : HighestCommon sampleTree.Parent Block.Number sampleLeft sampleRight c ↔
      HighestCommon sampleTree.Parent Block.Number sampleRoot sampleRoot c := by
  have hne : sampleLeft ≠ sampleRight := by decide
  exact sampleTree.forest.highestCommon_iff_parents rfl hne sampleLeft_parent sampleRight_parent

/-- Two children of a root: a backlog of two blocks reaches it, one of one block does not. -/
theorem findAncestor_fork_point_children : findAncestor 2 sampleProvider 2 sampleLeft sampleRight = .ok 7 ∧
      ∃ e, findAncestor 1 sampleProvider 1 sampleLeft sampleRight = .error e := by
  have hleft := sampleLeft_parent.2.1
  have hright := sampleRight_parent.2.1
  have hserves := sampleProvider_servesExactly
  constructor
  · exact (findAncestor_fork_point hserves (by decide) hleft hright rfl).1 sampleRoot
      (sampleTree_fork.mpr sampleTree.forest.highestCommon_self) (by decide)
  · refine (findAncestor_fork_point hserves (by decide) hleft hright rfl).2 fun c hc => ?_
    rw [sampleTree.forest.highestCommon_self_rank (sampleTree_fork.mp hc)]
    decide

end Web3.Tracker
