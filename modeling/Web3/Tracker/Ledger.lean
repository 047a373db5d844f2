import Web3.Tracker.Reorgs

/-! # A chain that only grows

Along a single chain a move of the window removes nothing, and adds the blocks after the old head. -/

namespace Web3.Tracker

/-! ## Chains and nodes -/

/-- The blocks of a chain that starts with block number 0, and their logs. -/
structure Ledger extends LogTree where
  chain : List Block
  mem_blocks : ∀ b, b ∈ blocks ↔ b ∈ chain
  linked : chain.IsChain Linked
  numbered : ∀ (n : ℕ) (b : Block), chain[n]? = some b → b.Number = n

/-- A node whose chain ends with block number `top`. -/
structure Provider.ServesUpTo (p : Provider) (ledger : Ledger) (top : ℕ) : Prop where
  byHash : p.Serves ledger.toBlockTree
  byNumber : ∀ n b, n ≤ top → ledger.chain[n]? = some b → p.getBlockByNumber n = .ok b
  byNumber_ok : ∀ n b, p.getBlockByNumber n = .ok b → ledger.chain[n]? = some b
  byBlock : ∀ config, p.Answers config (ledger.logs config.getFilterSearch) (ledger.chain.take (top + 1))
  byRange : ∀ (config : FilterConfig) (lo hi : ℕ), lo ≤ hi → hi ≤ top →
    p.getLogs { config.getFilterSearch with From := some lo, To := some hi } =
      .ok (ledger.logsOf config ((ledger.chain.take (hi + 1)).drop lo))

namespace Ledger
variable {ledger : Ledger}

theorem isPath_take (ledger : Ledger) (n : ℕ) : ledger.IsPath (ledger.chain.take n) :=
  ⟨fun b hb => (ledger.mem_blocks b).mpr (List.mem_of_mem_take hb), ledger.linked.take n⟩

variable {b : Block}

theorem getElem?_number (hb : b ∈ ledger.chain) : ledger.chain[b.Number]? = some b := by
  obtain ⟨n, hn⟩ := List.mem_iff_getElem?.mp hb
  rw [ledger.numbered n b hn]
  exact hn

theorem eq_of_number {c : Block} (hb : b ∈ ledger.chain) (hc : c ∈ ledger.chain)
    (h : b.Number = c.Number) : b = c := by
  have hbc := getElem?_number hb
  rw [h, getElem?_number hc] at hbc
  exact (Option.some.inj hbc).symm

theorem number_le {top : ℕ} (hb : b ∈ ledger.chain.take (top + 1)) : b.Number ≤ top := by
  obtain ⟨n, hn⟩ := List.mem_iff_getElem?.mp hb
  obtain ⟨hlt, -⟩ := List.getElem?_eq_some_iff.mp hn
  have hlt : n < top + 1 := hlt.trans_le (List.length_take_le _ _)
  rw [List.getElem?_take_of_lt hlt] at hn
  rw [ledger.numbered n b hn]
  omega

theorem getLast?_take {h : ℕ} (hh : h < ledger.chain.length) :
    (ledger.chain.take (h + 1)).getLast? = ledger.chain[h]? := by
  rw [List.take_succ_eq_append_getElem hh, List.getLast?_concat, List.getElem?_eq_getElem hh]

theorem eq_take {p : List Block} (hp : ledger.IsPath p) (hzero : ∀ b, p[0]? = some b → b.Number = 0) :
    p = ledger.chain.take p.length := by
  have hnumber : ∀ n (hn : n < p.length), (p.get ⟨n, hn⟩).Number = n := by
    intro n
    induction n with
    | zero => exact fun hn => hzero _ (List.getElem?_eq_getElem hn)
    | succ n ih =>
      intro hn
      have hstep := List.isChain_iff_getElem.mp hp.consecutive n hn
      rw [List.get_eq_getElem, hstep]
      exact congrArg (· + 1) (ih (by omega))
  have hget : ∀ n (hn : n < p.length), ledger.chain[n]? = some (p.get ⟨n, hn⟩) := by
    intro n hn
    have hmem : p.get ⟨n, hn⟩ ∈ ledger.chain := (ledger.mem_blocks _).mp (hp.mem _ (List.get_mem ..))
    have := getElem?_number hmem
    rwa [hnumber n hn] at this
  refine List.ext_getElem? fun n => ?_
  rcases Nat.lt_or_ge n p.length with hn | hn
  · rw [List.getElem?_take_of_lt hn, hget n hn, List.getElem?_eq_getElem hn]
    rfl
  · rw [List.getElem?_eq_none hn, List.getElem?_eq_none]
    exact (List.length_take_le _ _).trans hn

end Ledger

/-! ## The window -/

/-- The event for a move of the window from block number `n` to `h`. -/
def Ledger.event (ledger : Ledger) (n h : ℕ) : BlockEvent :=
  { Added := (ledger.chain.take (h + 1)).drop (n + 1), Removed := [] }

section Window
variable {ledger : Ledger} {MaxBlockBacklog h top : ℕ} {provider : Provider} {block : Block}

theorem isWindow_rtake (ledger : Ledger) (MaxBlockBacklog h : ℕ) :
    IsWindow ledger.toBlockTree MaxBlockBacklog ((ledger.chain.take (h + 1)).rtake MaxBlockBacklog) :=
  ⟨(ledger.isPath_take _).of_suffix (rtake_suffix _ _), length_rtake_le _ _⟩

variable {blocks new : List Block} {event : BlockEvent}

theorem Moves.removed_eq_nil
    (hmoves : Moves ledger.toBlockTree MaxBlockBacklog blocks block event new)
    (hblocks : ledger.IsPath blocks) (hne : blocks ≠ []) : event.Removed = [] := by
  obtain ⟨kept, hold, -, hpath, hkept⟩ := hmoves.exists_kept hblocks
  obtain ⟨fork, hfork⟩ : ∃ fork, kept.getLast? = some fork := by
    cases hlast : kept.getLast? with
    | none => exact absurd (hkept (List.getLast?_eq_none_iff.mp hlast)) hne
    | some fork => exact ⟨fork, rfl⟩
  cases hremoved : event.Removed with
  | nil => rfl
  | cons r rest =>
    exfalso
    rw [hremoved] at hold
    cases hadded : event.Added with
    | nil => exact hmoves.added_ne_nil hadded
    | cons a more =>
      rw [hold] at hblocks
      rw [hadded] at hpath
      have hr := (List.isChain_append.mp hblocks.consecutive).2.2 fork hfork r rfl
      have ha := (List.isChain_append.mp hpath.consecutive).2.2 fork hfork a rfl
      have hrMem : r ∈ kept ++ r :: rest := List.mem_append_right _ (List.mem_cons_self ..)
      have hra : r = a := Ledger.eq_of_number ((ledger.mem_blocks r).mp (hblocks.mem r hrMem))
        ((ledger.mem_blocks a).mp (hpath.mem a (List.mem_append_right _ (List.mem_cons_self ..))))
        (hr.trans ha.symm)
      refine hmoves.added.fresh a ?_ r ?_ (congrArg Block.Hash hra)
      · rw [hadded]
        exact List.mem_cons_self ..
      · rw [hold]
        exact hrMem

theorem getLast?_window (hM : 1 ≤ MaxBlockBacklog) (hh : h < ledger.chain.length) :
    ((ledger.chain.take (h + 1)).rtake MaxBlockBacklog).getLast? = some ledger.chain[h] := by
  rw [getLast?_rtake hM, Ledger.getLast?_take hh, List.getElem?_eq_getElem hh]

theorem Moves.append_of_suffix (hh : h < ledger.chain.length)
    (hsuffix : blocks <:+ ledger.chain.take (h + 1)) (hne : blocks ≠ [])
    (hmoves : Moves ledger.toBlockTree MaxBlockBacklog blocks block event new) :
    event.Removed = [] ∧ ledger.chain.take (h + 1) ++ event.Added = ledger.chain.take (h + 1 + event.Added.length) ∧
      new = (blocks ++ event.Added).rtake MaxBlockBacklog := by
  have hblocks := (ledger.isPath_take (h + 1)).of_suffix hsuffix
  have hremoved := hmoves.removed_eq_nil hblocks hne
  obtain ⟨kept, hold, hnew, hpath, -⟩ := hmoves.exists_kept hblocks
  rw [hremoved, List.append_nil] at hold
  rw [← hold] at hnew hpath
  have hall : ledger.IsPath (ledger.chain.take (h + 1) ++ event.Added) := by
    refine isPath_append (ledger.isPath_take _) hmoves.added.isPath fun fork hfork => ?_
    have hlast : (ledger.chain.take (h + 1)).getLast? = blocks.getLast? := by
      obtain ⟨front, hfront⟩ := hsuffix
      rw [← hfront, List.getLast?_append_of_ne_nil _ hne]
    rw [hlast] at hfork
    exact (List.isChain_append.mp hpath.linked).2.2 fork hfork
  have hlen : (ledger.chain.take (h + 1)).length = h + 1 := List.length_take_of_le hh
  have htake := Ledger.eq_take hall fun b hb => by
    rw [List.getElem?_append_left (by omega), List.getElem?_take_of_lt (Nat.succ_pos h)] at hb
    exact ledger.numbered 0 b hb
  rw [List.length_append, hlen] at htake
  exact ⟨hremoved, htake, hnew⟩

theorem Moves.take_append (hM : 1 ≤ MaxBlockBacklog) (hh : h < ledger.chain.length)
    (hmoves : Moves ledger.toBlockTree MaxBlockBacklog
      ((ledger.chain.take (h + 1)).rtake MaxBlockBacklog) block event new) :
    event.Removed = [] ∧ ledger.chain.take (h + 1) ++ event.Added = ledger.chain.take (h + 1 + event.Added.length) ∧
      new = (ledger.chain.take (h + 1) ++ event.Added).rtake MaxBlockBacklog := by
  have hne : (ledger.chain.take (h + 1)).rtake MaxBlockBacklog ≠ [] := fun hnil => by
    have hhead := getLast?_window hM hh
    rw [hnil] at hhead
    cases hhead
  rw [← rtake_append_rtake]
  exact hmoves.append_of_suffix hh (rtake_suffix _ _) hne

/-- What a head does to a window at block number `h`: nothing, or it moves it on along the chain. -/
theorem handleBlockEvent_grows (hM : 1 ≤ MaxBlockBacklog) (hserves : provider.Serves ledger.toBlockTree)
    (hblock : block ∈ ledger.chain.take (top + 1)) (hh : h < ledger.chain.length)
    {r : Outcome (Option BlockEvent) × List Block}
    (hr : handleBlockEvent MaxBlockBacklog provider ((ledger.chain.take (h + 1)).rtake MaxBlockBacklog) block = r) :
    (r.1 = .ok none ∨ ∃ e, r.1 = .err e) ∧ r.2 = (ledger.chain.take (h + 1)).rtake MaxBlockBacklog ∨
      ∃ h', h < h' ∧ h' ≤ top ∧
        r = (.ok (some (ledger.event h h')), (ledger.chain.take (h' + 1)).rtake MaxBlockBacklog) := by
  have hmem : block ∈ ledger.blocks := (ledger.mem_blocks block).mpr (List.mem_of_mem_take hblock)
  have hhandled := handleBlockEvent_handled hM hserves hmem (isWindow_rtake ledger MaxBlockBacklog h)
  rw [hr] at hhandled
  cases hhandled with
  | known => exact .inl ⟨.inl rfl, rfl⟩
  | failed e => exact .inl ⟨.inr ⟨e, rfl⟩, rfl⟩
  | @moved event new hmoves =>
    obtain ⟨hremoved, htake, hnew⟩ := hmoves.take_append hM hh
    have hpos := List.length_pos_iff.mpr hmoves.added_ne_nil
    have hlen : (ledger.chain.take (h + 1)).length = h + 1 := List.length_take_of_le hh
    refine .inr ⟨h + event.Added.length, by omega, ?_, ?_⟩
    · -- the given block is the last one, and the node has it
      have hends : (ledger.chain.take (h + 1) ++ event.Added).getLast? = some block := by
        rw [List.getLast?_append_of_ne_nil _ hmoves.added_ne_nil, hmoves.added.ends]
      have hle := congrArg List.length htake
      rw [List.length_append, hlen, List.length_take] at hle
      rw [htake, Nat.add_right_comm, Ledger.getLast?_take (by omega)] at hends
      rw [← ledger.numbered _ _ hends]
      exact Ledger.number_le hblock
    · have hevent : event = ledger.event h (h + event.Added.length) := by
        rw [Ledger.event, Nat.add_right_comm, ← htake, List.drop_left' hlen, ← hremoved]
      rw [hnew, htake, ← hevent, Nat.add_right_comm]

end Window

end Web3.Tracker
