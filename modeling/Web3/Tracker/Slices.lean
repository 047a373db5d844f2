import Web3.Tracker.Start
import Web3.Tracker.Sync

/-! # The slice of the window that `Sync` processes

At its end `syncImpl` takes the blocks from `origin` to the head out of the window by their number. This
relies on a full window: as many blocks as the backlog allows, or all blocks down to number 0. The window
is full after `populateBlocks`, and appending keeps it so; a reorganisation to a lower head does not. -/

namespace Web3.Tracker

/-! ## The expression -/

/-- The slice `t.blocks[uint64(len(t.blocks))-1-(targetNum-origin):]`; `none` if it is out of range. -/
def syncSlice (blocks : List Block) (targetNum origin : ℕ) : Option (List Block) :=
  let start := UInt64.ofNat blocks.length - 1 - (UInt64.ofNat targetNum - UInt64.ofNat origin)
  if start.toNat ≤ blocks.length then some (blocks.drop start.toNat) else none

theorem syncSlice_eq {blocks : List Block} {targetNum origin : ℕ} (horigin : origin ≤ targetNum)
    (htarget : targetNum + 1 < 2 ^ 64) (hlen : blocks.length < 2 ^ 64) :
    syncSlice blocks targetNum origin = if targetNum + 1 - origin ≤ blocks.length then
        some (blocks.drop (blocks.length - (targetNum + 1 - origin)))
      else none := by
  have hstart : (UInt64.ofNat blocks.length - 1 - (UInt64.ofNat targetNum - UInt64.ofNat origin)).toNat =
      if targetNum + 1 - origin ≤ blocks.length then blocks.length - (targetNum + 1 - origin)
      else 2 ^ 64 + blocks.length - (targetNum + 1 - origin) := by
    simp only [UInt64.toNat_sub, UInt64.toNat_ofNat', UInt64.toNat_one]
    split <;> omega
  rw [syncSlice, hstart]
  split
  · rw [if_pos (by omega)]
  · rw [if_neg (by omega)]

section Points
variable (t : Tracker) (provider : Provider) (config : FilterConfig)

def loopOrigin (targetNum origin : ℕ) : Option ℕ :=
  if origin > targetNum then none
  else if targetNum - origin + 1 ≤ t.config.MaxBlockBacklog then some origin
  else none

def fromOrigin (targetNum origin : ℕ) : Option ℕ :=
  if targetNum + 1 - origin > t.config.MaxBlockBacklog then loopOrigin t targetNum origin
  else some origin

def afterOrigin (targetNum : ℕ) (last : Block) : Option ℕ :=
  if last.Number > targetNum then none
  else
    match provider.getBlockByNumber last.Number with
    | .error _ => none
    | .ok pivot =>
      if pivot.Hash ≠ last.Hash then
        match findAncestor t.config.MaxBlockBacklog provider t.config.MaxBlockBacklog last pivot with
        | .error _ => none
        | .ok ancestor =>
          match provider.getBlockByNumber ancestor with
          | .error _ => none
          | .ok _ => fromOrigin t targetNum (ancestor + 1)
      else fromOrigin t targetNum (if last.Number = targetNum then last.Number else last.Number + 1)

/-- The values of `targetNum` and `origin` with which the section of `Sync` from a point on evaluates the
slice, if it does. -/
def sliceAt : SyncPoint → Option (ℕ × ℕ)
  | .start =>
    match t.blocks.getLast? with
    | none => none
    | some target =>
      match t.store.lastBlock config.Hash with
      | some last =>
        if last.Hash = target.Hash then none
        else (afterOrigin t provider target.Number last).map (target.Number, ·)
      | none =>
        match fastTrack provider config with
        | .error _ => none
        | .ok none => (fromOrigin t target.Number 0).map (target.Number, ·)
        | .ok (some last) => (afterOrigin t provider target.Number last).map (target.Number, ·)
  | .relock origin =>
    match t.blocks.getLast? with
    | none => none
    | some target => (loopOrigin t target.Number origin).map (target.Number, ·)
  | _ => none

end Points

/-! ## The sections of `Sync` evaluate it there -/

def sliceError : String := "runtime error: slice bounds out of range"

/-- What a section does that evaluates the slice with given values, and one that does not evaluate it. -/
def Evaluates (t : Tracker) (provider : Provider) (config : FilterConfig) (values : Option (ℕ × ℕ))
    (r : SyncPoint × Store) : Prop :=
  match values with
  | some (targetNum, origin) => ∃ s, r = syncHead t provider config s targetNum origin
  | none => r.1 ≠ .panicked sliceError

section Sections
variable {t : Tracker} {provider : Provider} {config : FilterConfig} {s : Store}

theorem syncLoop_evaluates (targetNum origin : ℕ) :
    Evaluates t provider config ((loopOrigin t targetNum origin).map (targetNum, ·))
      (syncLoop t provider config s targetNum origin) := by
  rw [loopOrigin, syncLoop]
  split
  · exact SyncPoint.noConfusion
  · split
    · exact ⟨s, rfl⟩
    · exact SyncPoint.noConfusion

theorem syncFrom_evaluates (targetNum origin : ℕ) :
    Evaluates t provider config ((fromOrigin t targetNum origin).map (targetNum, ·))
      (syncFrom t provider config s targetNum origin) := by
  rw [fromOrigin, syncFrom]
  split
  · exact syncLoop_evaluates targetNum origin
  · exact ⟨s, rfl⟩

theorem syncAfter_evaluates (targetNum : ℕ) (last : Block) :
    Evaluates t provider config ((afterOrigin t provider targetNum last).map (targetNum, ·))
      (syncAfter t provider config s targetNum last) := by
  rw [afterOrigin, syncAfter]
  split
  · exact SyncPoint.noConfusion
  cases provider.getBlockByNumber last.Number with
  | error e => exact SyncPoint.noConfusion
  | ok pivot =>
    dsimp only
    split
    · cases findAncestor t.config.MaxBlockBacklog provider t.config.MaxBlockBacklog last pivot with
      | error e => exact SyncPoint.noConfusion
      | ok ancestor =>
        dsimp only
        cases provider.getBlockByNumber ancestor with
        | error e => exact SyncPoint.noConfusion
        | ok b => exact syncFrom_evaluates targetNum _
    · exact syncFrom_evaluates targetNum _

/-- **`sliceAt` is where the slice is evaluated**: a section evaluates it with the given values, and does
not panic over it otherwise. -/
theorem syncSection_evaluates (point : SyncPoint) (r : SyncPoint × Store)
    (hr : syncSection t provider config point = some r) :
    Evaluates t provider config (sliceAt t provider config point) r := by
  cases point with
  | start =>
    cases hr
    rw [syncImpl, sliceAt]
    cases t.blocks.getLast? with
    | none => exact SyncPoint.noConfusion
    | some target =>
      dsimp only
      cases t.store.lastBlock config.Hash with
      | some last =>
        dsimp only
        by_cases hhash : last.Hash = target.Hash
        · rw [if_pos hhash, if_pos hhash]
          exact SyncPoint.noConfusion
        · rw [if_neg hhash, if_neg hhash]
          exact syncAfter_evaluates target.Number last
      | none =>
        dsimp only
        cases fastTrack provider config with
        | error e => exact SyncPoint.noConfusion
        | ok last =>
          cases last with
          | none => exact syncFrom_evaluates target.Number 0
          | some last => exact syncAfter_evaluates target.Number last
  | batch i batchSize limit =>
    cases hr
    show (syncBatch t provider config t.store i batchSize limit).1 ≠ _
    rw [syncBatch]
    dsimp only
    cases provider.getLogs { config.getFilterSearch with From := some i, To := some (min limit ((i + batchSize) % 2 ^ 64)) } with
    | error e =>
      dsimp only
      split <;> exact SyncPoint.noConfusion
    | ok logs =>
      dsimp only
      cases provider.getBlockByNumber (min limit ((i + batchSize) % 2 ^ 64)) with
      | error e => exact SyncPoint.noConfusion
      | ok block =>
        dsimp only
        split <;> exact SyncPoint.noConfusion
  | relock origin =>
    cases hr
    rw [syncRelock, sliceAt]
    cases t.blocks.getLast? with
    | none => simp [Evaluates, sliceError]
    | some target => exact syncLoop_evaluates target.Number origin
  | unlocked | done | failed | panicked => cases hr

theorem syncHead_eq {targetNum origin : ℕ} (horigin : origin ≤ targetNum) (htarget : targetNum + 1 < 2 ^ 64)
    (hlen : t.blocks.length < 2 ^ 64) :
    syncHead t provider config s targetNum origin = match syncSlice t.blocks targetNum origin with
      | none => (.panicked sliceError, s)
      | some added =>
        match doFilter provider config s added [] with
        | (.ok _, s) => (.unlocked, s)
        | (.err e, s) => (.failed e, s)
        | (.panic p, s) => (.panicked p, s) := by
  rw [syncHead, syncSlice_eq horigin htarget hlen]
  by_cases h : targetNum + 1 - origin ≤ t.blocks.length
  · rcases hout : doFilter provider config s (t.blocks.drop (t.blocks.length - (targetNum + 1 - origin))) [] with
      ⟨_ | _ | _, s'⟩ <;>
      simp only [if_neg (by omega : ¬ t.blocks.length < targetNum + 1 - origin), if_pos h, hout]
  · rw [if_pos (by omega), if_neg h]
    rfl

end Sections

/-! ## Full windows -/

variable (MaxBlockBacklog : ℕ) (blocks : List Block)

/-- The window has as many blocks as it may have, or all of them. -/
def Full : Prop :=
  blocks.length = MaxBlockBacklog ∨ ∀ b ∈ blocks.head?, b.Number = 0

section Paths
variable {tree : BlockTree} {blocks : List Block} {head : Block} {first : Block}
  {MaxBlockBacklog : ℕ}

theorem BlockTree.IsPath.numbers (h : tree.IsPath (first :: blocks)) :
    (first :: blocks).map Block.Number = List.range' first.Number (blocks.length + 1) := by
  induction blocks generalizing first with
  | nil => rfl
  | cons b blocks ih =>
    have hnumber := (List.isChain_cons_cons.mp h.consecutive).1
    rw [List.map_cons, ih (h.of_suffix (List.suffix_cons _ _)), hnumber]
    rfl

theorem BlockTree.IsPath.first_number (h : tree.IsPath (first :: blocks))
    (hhead : (first :: blocks).getLast? = some head) : first.Number + blocks.length = head.Number := by
  have hlast := congrArg List.getLast? h.numbers
  rw [List.getLast?_map, hhead, List.getLast?_range'] at hlast
  simpa using hlast.symm

theorem Full.length_ge (hfull : Full MaxBlockBacklog blocks) (hpath : tree.IsPath blocks)
    (hhead : blocks.getLast? = some head) : min MaxBlockBacklog (head.Number + 1) ≤ blocks.length := by
  cases blocks with
  | nil => cases hhead
  | cons first blocks =>
    have hfirst := hpath.first_number hhead
    rcases hfull with hlen | hzero
    · omega
    · have := hzero first rfl
      rw [List.length_cons]
      omega

theorem not_full (hnot : ¬ Full MaxBlockBacklog blocks) (hpath : tree.IsPath blocks)
    (hlength : blocks.length ≤ MaxBlockBacklog) : ∃ head, blocks.getLast? = some head ∧
      blocks.length < MaxBlockBacklog ∧ blocks.length ≤ head.Number := by
  rw [Full, not_or] at hnot
  cases blocks with
  | nil => exact absurd (fun b hb => by cases hb) hnot.2
  | cons first blocks =>
    refine ⟨_, List.getLast?_eq_getLast_of_ne_nil (List.cons_ne_nil _ _), by omega, ?_⟩
    have hfirst := hpath.first_number (List.getLast?_eq_getLast_of_ne_nil (List.cons_ne_nil _ _))
    have hne : first.Number ≠ 0 := fun hzero => hnot.2 fun b hb => by cases hb; exact hzero
    rw [List.length_cons]
    omega

theorem drop_numbers {n : ℕ} (hpath : tree.IsPath blocks) (hhead : blocks.getLast? = some head)
    (hn : n ≤ blocks.length) :
    (blocks.drop (blocks.length - n)).map Block.Number = List.range' (head.Number + 1 - n) n := by
  cases blocks with
  | nil => cases hhead
  | cons first blocks =>
    have hfirst := hpath.first_number hhead
    rw [List.map_drop, hpath.numbers, List.drop_range', List.length_cons] at *
    congr 1 <;> omega

end Paths

/-! ## What the slice is evaluated with -/

structure Provider.Honest (p : Provider) (tree : BlockTree) : Prop where
  byHash : p.Serves tree
  byNumber : ∀ n b, p.getBlockByNumber n = .ok b → b ∈ tree.blocks ∧ b.Number = n

section Origins
variable {tree : BlockTree} {t : Tracker} {provider : Provider} {config : FilterConfig} {targetNum origin : ℕ}

theorem findAncestor_le {MaxBlockBacklog rounds n : ℕ} {block pivot : Block} (hserves : provider.Serves tree)
    (hblock : block ∈ tree.blocks) (h : findAncestor MaxBlockBacklog provider rounds block pivot = .ok n) :
    n ≤ block.Number ∧ (block.Hash ≠ pivot.Hash → n < block.Number) := by
  induction rounds generalizing block pivot with
  | zero => cases h
  | succ rounds ih =>
    rw [findAncestor] at h
    split at h
    · cases h
    split at h
    · next hhash =>
      cases h
      exact ⟨le_rfl, fun hne => absurd hhash hne⟩
    · cases hget : provider.getBlockByHash block.ParentHash with
      | error e =>
        rw [hget] at h
        cases h
      | ok parent =>
        cases hget' : provider.getBlockByHash pivot.ParentHash with
        | error e =>
          rw [hget, hget'] at h
          cases h
        | ok pivot' =>
          rw [hget, hget'] at h
          obtain ⟨hmem, hhash⟩ := hserves _ _ hget
          have hnumber := tree.number block hblock parent hmem hhash.symm
          have hle := (ih hmem h).1
          exact ⟨by omega, fun _ => by omega⟩

variable {o : ℕ}

/-- There are blocks to process, and no more than the backlog allows. -/
def Within (t : Tracker) (targetNum origin : ℕ) : Prop :=
  origin ≤ targetNum ∧ targetNum + 1 - origin ≤ t.config.MaxBlockBacklog

theorem loopOrigin_within (h : loopOrigin t targetNum o = some origin) : Within t targetNum origin := by
  rw [loopOrigin] at h
  split at h
  · cases h
  · split at h
    · cases h
      exact ⟨by omega, by omega⟩
    · cases h

theorem fromOrigin_within (ho : o ≤ targetNum) (h : fromOrigin t targetNum o = some origin) :
    Within t targetNum origin := by
  rw [fromOrigin] at h
  split at h
  · exact loopOrigin_within h
  · cases h
    exact ⟨ho, by omega⟩

theorem afterOrigin_within (hhonest : provider.Honest tree) {last : Block} (hlast : last ∈ tree.blocks)
    (h : afterOrigin t provider targetNum last = some origin) : Within t targetNum origin := by
  rw [afterOrigin] at h
  split at h
  · cases h
  next hle =>
  split at h
  · cases h
  split at h
  · next hne =>
    split at h
    · cases h
    next ancestor hancestor =>
      split at h
      · cases h
      · have hlt := (findAncestor_le hhonest.byHash hlast hancestor).2 fun heq => hne heq.symm
        exact fromOrigin_within (by omega) h
  · refine fromOrigin_within ?_ h
    split <;> omega

/-- Wherever the slice is evaluated, the target is the head of the window, and no more blocks are wanted
than the backlog allows. -/
theorem sliceAt_within (hhonest : provider.Honest tree)
    (hlast : ∀ last, t.store.lastBlock config.Hash = some last → last ∈ tree.blocks) {point : SyncPoint}
    (h : sliceAt t provider config point = some (targetNum, origin)) :
    ∃ head, t.blocks.getLast? = some head ∧ targetNum = head.Number ∧ Within t targetNum origin := by
  have hmap : ∀ {head : Block} {o : Option ℕ}, t.blocks.getLast? = some head →
      o.map (head.Number, ·) = some (targetNum, origin) → (o = some origin → Within t head.Number origin) →
      ∃ head, t.blocks.getLast? = some head ∧ targetNum = head.Number ∧ Within t targetNum origin := by
    intro head o hhead ho hbounds
    obtain ⟨_, rfl, heq⟩ := Option.map_eq_some_iff.mp ho
    cases heq
    exact ⟨head, hhead, rfl, hbounds rfl⟩
  cases point with
  | start =>
    rw [sliceAt] at h
    split at h
    · cases h
    next target htarget =>
    split at h
    · next last hstored =>
      split at h
      · cases h
      · exact hmap htarget h (afterOrigin_within hhonest (hlast last hstored))
    · split at h
      · cases h
      · exact hmap htarget h (fromOrigin_within (Nat.zero_le _))
      · next last hfast =>
        have hmem : last ∈ tree.blocks := by
          rw [fastTrack] at hfast
          split at hfast
          · cases hget : provider.getBlockByNumber config.Start with
            | error e =>
              rw [hget] at hfast
              cases hfast
            | ok b =>
              rw [hget] at hfast
              cases hfast
              exact (hhonest.byNumber _ _ hget).1
          · cases hfast
        exact hmap htarget h (afterOrigin_within hhonest hmem)
  | relock o =>
    rw [sliceAt] at h
    split at h
    · cases h
    next target htarget => exact hmap htarget h loopOrigin_within
  | _ => cases h

end Origins

/-! ## Windows that `Sync` can use -/

/-- Whatever is stored for a filter and wherever `Sync` is, the slice is in range and holds the blocks from
`origin` to the target. -/
def SlicesWell (tree : BlockTree) (MaxBlockBacklog : ℕ) (blocks : List Block) : Prop :=
  ∀ (t : Tracker) (provider : Provider) (config : FilterConfig) (point : SyncPoint) (targetNum origin : ℕ),
    t.config.MaxBlockBacklog = MaxBlockBacklog → t.blocks = blocks → provider.Honest tree →
    (∀ last, t.store.lastBlock config.Hash = some last → last ∈ tree.blocks) →
    sliceAt t provider config point = some (targetNum, origin) →
    ∃ added, syncSlice blocks targetNum origin = some added ∧ added <:+ blocks ∧
      added.map Block.Number = List.range' origin (targetNum + 1 - origin)

def bareTracker : Tracker :=
  { config := { BatchSize := 0, MaxBlockBacklog }
    blocks
    filters := []
    store := { entries := fun _ => [], lastBlock := fun _ => none } }

def bareConfig : FilterConfig := { Address := [], Topics := [], Start := 0, Hash := "" }

def silentProvider : Provider :=
  { getBlockByHash := fun _ => .error ""
    getBlockByNumber := fun _ => .error ""
    getLogs := fun _ => .error "" }

section Windows
variable {tree : BlockTree} {MaxBlockBacklog : ℕ} {blocks : List Block}

theorem exists_sliceAt {head : Block} (hM : 1 ≤ MaxBlockBacklog) (hhead : blocks.getLast? = some head) :
    ∃ point origin, sliceAt (bareTracker MaxBlockBacklog blocks) silentProvider bareConfig point =
        some (head.Number, origin) ∧ origin ≤ head.Number ∧
      head.Number + 1 - origin = min MaxBlockBacklog (head.Number + 1) := by
  have hlast : (bareTracker MaxBlockBacklog blocks).blocks.getLast? = some head := hhead
  by_cases hall : head.Number + 1 ≤ MaxBlockBacklog
  · refine ⟨.start, 0, ?_, Nat.zero_le _, by omega⟩
    rw [sliceAt, hlast]
    show (fromOrigin _ head.Number 0).map _ = _
    rw [fromOrigin, if_neg (by simpa [bareTracker] using hall)]
    rfl
  · -- the origin after the bulk loop
    refine ⟨.relock (head.Number + 1 - MaxBlockBacklog), head.Number + 1 - MaxBlockBacklog, ?_, by omega, by omega⟩
    rw [sliceAt, hlast]
    show (loopOrigin _ head.Number _).map _ = _
    rw [loopOrigin, if_neg (by omega), if_pos (by show _ ≤ MaxBlockBacklog; omega)]
    rfl

/-- **The windows that `Sync` can use are the full ones.** -/
theorem slicesWell_iff_full (hM : 1 ≤ MaxBlockBacklog) (hM64 : MaxBlockBacklog < 2 ^ 64)
    (hsmall : ∀ b ∈ tree.blocks, b.Number + 1 < 2 ^ 64) (hwindow : IsWindow tree MaxBlockBacklog blocks) :
    SlicesWell tree MaxBlockBacklog blocks ↔ Full MaxBlockBacklog blocks := by
  have hlen : blocks.length < 2 ^ 64 := hwindow.length.trans_lt hM64
  constructor
  · intro hwell
    by_contra hnot
    obtain ⟨head, hhead, hshort, hlow⟩ := not_full hnot hwindow.isPath hwindow.length
    have htarget := hsmall head (hwindow.isPath.mem head (List.mem_of_getLast? hhead))
    obtain ⟨point, origin, hslice, horigin, hneed⟩ := exists_sliceAt hM hhead
    obtain ⟨added, hadded, -⟩ := hwell (bareTracker MaxBlockBacklog blocks) silentProvider bareConfig point
      head.Number origin rfl rfl ⟨nofun, nofun⟩ nofun hslice
    rw [syncSlice_eq horigin htarget hlen, if_neg (by omega)] at hadded
    cases hadded
  · intro hfull t provider config point targetNum origin hMeq hblocks hhonest hlast hslice
    obtain ⟨head, hhead, rfl, horigin, hneed⟩ := sliceAt_within hhonest hlast hslice
    rw [hblocks] at hhead
    rw [hMeq] at hneed
    have htarget := hsmall head (hwindow.isPath.mem head (List.mem_of_getLast? hhead))
    have hge := hfull.length_ge hwindow.isPath hhead
    have hin : head.Number + 1 - origin ≤ blocks.length := by omega
    rw [syncSlice_eq horigin htarget hlen, if_pos hin]
    refine ⟨_, rfl, List.drop_suffix _ _, ?_⟩
    rw [drop_numbers hwindow.isPath hhead hin]
    congr 1
    omega

end Windows

/-! ## Steps -/

/-- A head keeps the window full: it is known, or it starts an empty window that need not be longer, or the
window goes back to block number 0, or the head is not lower than the one before. -/
def KeepsFull (block : Block) : Prop :=
  (∃ o ∈ blocks, o.Hash = block.Hash) ∨ (blocks = [] ∧ (block.Number = 0 ∨ MaxBlockBacklog = 1)) ∨
    (∃ first ∈ blocks.head?, first.Number = 0) ∨ ∃ head ∈ blocks.getLast?, head.Number ≤ block.Number

def AlongCalls (MaxBlockBacklog : ℕ) (P : List Block → Block → Prop) : List Block → List (Provider × Block) → Prop
  | _, [] => True
  | blocks, (provider, block) :: calls =>
    P blocks block ∧ AlongCalls MaxBlockBacklog P (handleBlockEvent MaxBlockBacklog provider blocks block).2 calls

section Steps
variable {tree : BlockTree} {MaxBlockBacklog : ℕ} {blocks : List Block}

theorem full_rtake (blocks : List Block) {first : Block} (hfirst : blocks.head? = some first)
    (hzero : first.Number = 0 ∨ MaxBlockBacklog ≤ blocks.length) :
    Full MaxBlockBacklog (blocks.rtake MaxBlockBacklog) := by
  by_cases hlen : MaxBlockBacklog ≤ blocks.length
  · refine .inl ?_
    rw [List.rtake, List.length_drop]
    omega
  · refine .inr fun b hb => ?_
    rw [rtake_of_length_le (by omega), hfirst] at hb
    cases hb
    exact hzero.resolve_right hlen

/-- **The step**. A window that is moved to a head which is not lower has as many blocks as before. -/
theorem Full.step (hfull : Full MaxBlockBacklog blocks)
    (hwindow : IsWindow tree MaxBlockBacklog blocks) {block : Block} (hkeeps : KeepsFull MaxBlockBacklog blocks block)
    {r : Outcome (Option BlockEvent) × List Block} (hr : Handled tree MaxBlockBacklog blocks block r) :
    Full MaxBlockBacklog r.2 := by
  cases hr with
  | known | failed => exact hfull
  | @moved event new hmoves =>
    have hends := hmoves.added.ends
    obtain ⟨kept, hold, hnew, hpath, hkept⟩ := hmoves.exists_kept hwindow.isPath
    rw [hnew]
    have hlast : (kept ++ event.Added).getLast? = some block := by
      rw [List.getLast?_append_of_ne_nil _ hmoves.added_ne_nil, hends]
    rcases hkeeps with ⟨o, ho, hhash⟩ | ⟨hempty, hfirst⟩ | hfirst
    · exact absurd hhash (hmoves.added.fresh block (List.mem_of_getLast? hends) o ho)
    · -- nothing but the head is taken
      obtain ⟨kept', hold', hnew', hpoint⟩ := hmoves.window
      obtain ⟨rfl, -⟩ := List.append_eq_nil_iff.mp (hold'.symm.trans hempty)
      obtain ⟨rfl, -⟩ := List.append_eq_nil_iff.mp (hold.symm.trans hempty)
      rcases hpoint with ⟨-, hadded⟩ | ⟨fork, hfork, -⟩
      · rw [hadded]
        exact full_rtake [block] rfl (hfirst.imp id fun h => by rw [h]; rfl)
      · cases hfork
    · cases hkept' : kept with
      | nil =>
        have hnil := hkept hkept'
        rw [hnil] at hfirst
        rcases hfirst with ⟨first, hfirst, -⟩ | ⟨head, hhead, -⟩
        · cases hfirst
        · cases hhead
      | cons first rest =>
        subst hkept'
        refine full_rtake _ rfl ?_
        have hnumber : first.Number + (rest ++ event.Added).length = block.Number := hpath.first_number hlast
        rcases hfirst with ⟨first', hfirst', hzero⟩ | ⟨head, hhead, hle⟩
        · rw [hold] at hfirst'
          cases hfirst'
          exact .inl hzero
        · rcases hfull with hlen | hzero
          · have hwhole := hwindow.isPath
            rw [hold] at hhead hwhole hlen
            have hnumber' : first.Number + (rest ++ event.Removed).length = head.Number :=
              hwhole.first_number hhead
            refine .inr ?_
            rw [List.length_append] at hnumber hnumber'
            rw [List.length_append, List.length_cons] at hlen ⊢
            omega
          · rw [hold] at hzero
            exact .inl (hzero first rfl)

/-- **The run**. -/
theorem Full.run (hM : 1 ≤ MaxBlockBacklog) {calls : List (Provider × Block)}
    (hcalls : ∀ c ∈ calls, c.1.Serves tree ∧ c.2 ∈ tree.blocks) (hfull : Full MaxBlockBacklog blocks)
    (hwindow : IsWindow tree MaxBlockBacklog blocks)
    (hkeeps : AlongCalls MaxBlockBacklog (KeepsFull MaxBlockBacklog) blocks calls) :
    Full MaxBlockBacklog (runBlocks MaxBlockBacklog blocks calls) := by
  induction calls generalizing blocks with
  | nil => exact hfull
  | cons c calls ih =>
    obtain ⟨hserves, hblock⟩ := hcalls c (List.mem_cons_self ..)
    have hhandled := handleBlockEvent_handled hM hserves hblock hwindow
    exact ih (fun c hc => hcalls c (List.mem_cons_of_mem _ hc)) (hfull.step hwindow hkeeps.1 hhandled)
      (hhandled.isWindow hwindow) hkeeps.2

end Steps

/-! ## Runs -/

/-- **`Sync` takes the right blocks.** A tracker is started on a chain of a tree, and then given blocks of
the tree. In the state reached the slice is in range and holds the blocks from `origin` to the head, for
every filter, if and only if the window is full; and it is if every one of these blocks keeps it full. -/
theorem start_slicesWell (tree : BlockTree) (hsmall : ∀ b ∈ tree.blocks, b.Number + 1 < 2 ^ 64) (t : Tracker)
    (hM : 1 ≤ t.config.MaxBlockBacklog) (hM64 : t.config.MaxBlockBacklog < 2 ^ 64) (chain : List Block)
    (hpath : tree.IsPath chain) (hchain : FromGenesis chain) (head : Block) (hhead : chain.getLast? = some head)
    (provider : Provider) (hfinds : provider.Finds chain) (calls : List (Provider × Block))
    (hcalls : ∀ c ∈ calls, c.1.Serves tree ∧ c.2 ∈ tree.blocks) :
    ∃ t', start t provider (.ok head) = .ok t' ∧
      (SlicesWell tree t.config.MaxBlockBacklog (runBlocks t.config.MaxBlockBacklog t'.blocks calls) ↔
        Full t.config.MaxBlockBacklog (runBlocks t.config.MaxBlockBacklog t'.blocks calls)) ∧
      (AlongCalls t.config.MaxBlockBacklog (KeepsFull t.config.MaxBlockBacklog) t'.blocks calls →
        SlicesWell tree t.config.MaxBlockBacklog (runBlocks t.config.MaxBlockBacklog t'.blocks calls)) := by
  obtain ⟨t', hstart, hwindow, hfull⟩ : ∃ t', start t provider (.ok head) = .ok t' ∧
      IsWindow tree t.config.MaxBlockBacklog t'.blocks ∧ Full t.config.MaxBlockBacklog t'.blocks := by
    obtain ⟨h, hlen⟩ : ∃ h, chain.length = h + 1 := by
      cases chain with
      | nil => cases hhead
      | cons b chain => exact ⟨chain.length, rfl⟩
    have hlast : chain[h]? = some head := by
      rw [List.getLast?_eq_getElem?, hlen] at hhead
      exact hhead
    have htake : chain.take (h + 1) = chain := List.take_of_length_le hlen.le
    by_cases hzero : h = 0
    · subst hzero
      exact ⟨_, start_first hchain hlast, ⟨⟨nofun, List.IsChain.nil⟩, Nat.zero_le _⟩, .inr nofun⟩
    · refine ⟨_, start_ok hchain (by rw [htake]; exact hfinds) le_rfl hzero hlast, ?_, ?_⟩
      · exact ⟨(htake.symm ▸ hpath).of_suffix (rtake_suffix _ _), length_rtake_le _ _⟩
      · rw [htake]
        refine full_rtake chain (List.head?_eq_getElem? ▸ List.getElem?_eq_getElem (by omega)) (.inl ?_)
        exact hchain.numbered 0 _ (List.getElem?_eq_getElem (by omega))
  have hiff := slicesWell_iff_full hM hM64 hsmall (runBlocks_isWindow hM hcalls hwindow)
  exact ⟨t', hstart, hiff, fun hkeeps => hiff.mpr (hfull.run hM hcalls hwindow hkeeps)⟩

def fourBlocks : List Block :=
  threeBlocks ++ [{ Number := 3, Hash := bytesToHash [4], ParentHash := bytesToHash [3] }]

def sideBlock : Block := { Number := 2, Hash := bytesToHash [9], ParentHash := bytesToHash [2] }

def sideBlocks : List Block := fourBlocks ++ [sideBlock]

def sideTree : BlockTree := .ofList sideBlocks (by decide) (by decide)

def sideProvider : Provider := { silentProvider with getBlockByHash := byHash sideBlocks }

theorem sideProvider_serves : sideProvider.Serves sideTree := mem_of_byHash

theorem sideTree_small : ∀ b ∈ sideTree.blocks, b.Number + 1 < 2 ^ 64 := by
  have h : ∀ b ∈ sideBlocks, b.Number + 1 < 2 ^ 64 := by decide
  exact h

theorem isPath_fourBlocks : sideTree.IsPath fourBlocks := by
  have hlinked : fourBlocks.IsChain fun a b => b.ParentHash = a.Hash := by decide
  exact ⟨fun b hb => List.mem_append_left _ hb, hlinked⟩

theorem fromGenesis_fourBlocks : FromGenesis fourBlocks := by
  refine ⟨isPath_fourBlocks.linked, fun n b hb => ?_⟩
  obtain ⟨hlt, rfl⟩ := List.getElem?_eq_some_iff.mp hb
  have h : ∀ (n : ℕ) (hn : n < 4), (fourBlocks.get ⟨n, hn⟩).Number = n := by decide
  exact h n hlt

theorem sideProvider_finds : sideProvider.Finds fourBlocks := by
  have h : ∀ b ∈ fourBlocks, byHash sideBlocks b.Hash = .ok b := by decide
  exact h

/-- With room for four blocks the window goes back to block number 0, and the side block keeps it so. -/
theorem start_slicesWell_four :
    ∃ t', start (bareTracker 4 []) sideProvider (.ok (fourBlocks.get ⟨3, by decide⟩)) = .ok t' ∧
      SlicesWell sideTree 4 (runBlocks 4 t'.blocks [(sideProvider, sideBlock)]) := by
  obtain ⟨t', hstart, -, hwell⟩ := start_slicesWell sideTree sideTree_small (bareTracker 4 []) (by decide) (by decide)
    fourBlocks isPath_fourBlocks fromGenesis_fourBlocks (fourBlocks.get ⟨3, by decide⟩) rfl sideProvider
    sideProvider_finds [(sideProvider, sideBlock)] (by
      intro c hc
      rw [List.mem_singleton.mp hc]
      exact ⟨sideProvider_serves, List.mem_append_right _ (List.mem_singleton_self _)⟩)
  have hblocks : t' = bareTracker 4 fourBlocks := by
    have heq : start (bareTracker 4 []) sideProvider (.ok (fourBlocks.get ⟨3, by decide⟩)) =
        .ok (bareTracker 4 fourBlocks) := rfl
    exact Except.ok.inj (hstart.symm.trans heq)
  refine ⟨t', hstart, hwell ⟨.inr (.inr (.inl ?_)), trivial⟩⟩
  rw [hblocks]
  exact ⟨fourBlocks.get ⟨0, by decide⟩, rfl, rfl⟩

/-- With room for three blocks it does not. After the side block, which is lower than the head before, the
window has two blocks, and `Sync` panics. -/
theorem sync_slice_panics : ∃ t', start (bareTracker 3 []) sideProvider (.ok (fourBlocks.get ⟨3, by decide⟩)) = .ok t' ∧
      runBlocks 3 t'.blocks [(sideProvider, sideBlock)] = [fourBlocks.get ⟨1, by decide⟩, sideBlock] ∧
      (syncImpl (bareTracker 3 [fourBlocks.get ⟨1, by decide⟩, sideBlock]) silentProvider bareConfig).1 =
        .panicked sliceError ∧
      ¬ SlicesWell sideTree 3 (runBlocks 3 t'.blocks [(sideProvider, sideBlock)]) := by
  have hrun : runBlocks 3 (fourBlocks.drop 1) [(sideProvider, sideBlock)] =
      [fourBlocks.get ⟨1, by decide⟩, sideBlock] := by decide
  refine ⟨bareTracker 3 (fourBlocks.drop 1), rfl, hrun, by decide, fun hwell => ?_⟩
  rw [show runBlocks 3 (bareTracker 3 (fourBlocks.drop 1)).blocks _ = _ from hrun] at hwell
  obtain ⟨added, hadded, -⟩ := hwell (bareTracker 3 [fourBlocks.get ⟨1, by decide⟩, sideBlock]) silentProvider
    bareConfig .start 2 0 rfl rfl ⟨nofun, nofun⟩ nofun rfl
  exact absurd hadded (by rw [syncSlice_eq (by decide) (by decide) (by decide)]; simp)

end Web3.Tracker
