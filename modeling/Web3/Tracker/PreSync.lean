import Web3.Primitives

/-! # The check before a sync

`preSyncCheck` binds a store to the chain of the first node. It runs once for each tracker, also if it fails. -/

namespace Web3.Tracker

/-- What the calls of one check answer: the genesis, the chain, and the errors of the store. -/
structure CheckCalls where
  getBlockByNumber : Except String Hash
  chainID : Except String ℤ
  getGenesis : Option String
  getChainID : Option String
  setGenesis : Option String
  setChainID : Option String

/-- The keys `dbGenesis` and `dbChainID` of a store, and whether `preSyncOnce` of the tracker has been used. -/
structure PreSync where
  genesis : String
  chainID : String
  done : Bool

namespace PreSync

def preSyncCheckImpl (c : CheckCalls) (s : PreSync) : Option String × PreSync :=
  match c.getBlockByNumber, c.chainID, c.getGenesis, c.getChainID with
  | .error e, _, _, _ | .ok _, .error e, _, _ | .ok _, .ok _, some e, _ | .ok _, .ok _, none, some e => (some e, s)
  | .ok rGenesis, .ok rChainID, none, none =>
    if s.genesis.length ≠ 0 then
      if s.genesis ≠ rGenesis.string then (some "bad genesis", s)
      else if s.chainID ≠ toString rChainID then (some "bad genesis", s)
      else (none, s)
    else
      match c.setGenesis, c.setChainID with
      | some e, _ => (some e, s)
      | none, some e => (some e, { s with genesis := rGenesis.string })
      | none, none => (none, { s with genesis := rGenesis.string, chainID := toString rChainID })

def preSyncCheck (c : CheckCalls) (s : PreSync) : Option String × PreSync :=
  if s.done then (none, s)
  else
    let (err, s) := s.preSyncCheckImpl c
    (err, { s with done := true })

/-- A check, or a new tracker on the same store. -/
def step (s : PreSync) : Option CheckCalls → PreSync
  | some c => (s.preSyncCheck c).2
  | none => { s with done := false }

/-- Every call succeeds, and the node has the stored genesis and chain. -/
def Matches (s : PreSync) (c : CheckCalls) : Prop :=
  c.getGenesis = none ∧ c.getChainID = none ∧ ∃ h n, c.getBlockByNumber = .ok h ∧ c.chainID = .ok n ∧
    s.genesis = h.string ∧ s.chainID = toString n

variable {s : PreSync} {c : CheckCalls}

theorem impl_of_bound (hbound : s.genesis ≠ "") :
    (s.preSyncCheckImpl c).2 = s ∧ ((s.preSyncCheckImpl c).1 = none ↔ s.Matches c) := by
  have hlength : s.genesis.length ≠ 0 := by simpa using hbound
  unfold preSyncCheckImpl Matches
  rcases c.getBlockByNumber with e | h <;> rcases c.chainID with e | n <;> rcases c.getGenesis with _ | e <;>
    rcases c.getChainID with _ | e <;> simp [hlength]
  by_cases hgenesis : s.genesis = h.string <;> by_cases hchain : s.chainID = toString n <;> simp_all

theorem check_of_bound (hbound : s.genesis ≠ "") : (s.preSyncCheck c).2 = { s with done := true } ∧
    ((s.preSyncCheck c).1 = none ↔ s.done = true ∨ s.Matches c) := by
  obtain ⟨hsame, hnone⟩ := impl_of_bound (c := c) hbound
  unfold preSyncCheck
  split
  · next h => exact ⟨by rw [← h], by simp [h]⟩
  · next h => exact ⟨congrArg (fun t : PreSync => { t with done := true }) hsame, by simp [h, hnone]⟩

theorem foldl_of_bound (hbound : s.genesis ≠ "") (runs : List (Option CheckCalls)) :
    runs.foldl step s = { s with done := (runs.getLast?.map Option.isSome).getD s.done } := by
  induction runs using List.reverseRecOn with
  | nil => rfl
  | append_singleton runs a ih =>
    rw [List.foldl_concat, ih, List.getLast?_concat]
    cases a with
    | none => rfl
    | some c => exact (check_of_bound (by exact hbound)).1

/-- **A store stays bound, but only the first check of a tracker counts**: a later one passes in any case. A store
whose chain could not be written is refused for good. -/
theorem preSyncCheck_bound (s : PreSync) (hbound : s.genesis ≠ "") (runs : List (Option CheckCalls)) (c : CheckCalls) :
    let t := runs.foldl step s
    t = { s with done := (runs.getLast?.map Option.isSome).getD s.done } ∧
      ((t.preSyncCheck c).1 = none ↔ t.done = true ∨ s.Matches c) ∧ (s.chainID = "" → ¬s.Matches c) := by
  rw [foldl_of_bound hbound]
  refine ⟨rfl, (check_of_bound (by exact hbound)).2, ?_⟩
  rintro hempty ⟨-, -, h, n, -, -, -, hn⟩
  cases n with
  | ofNat n => exact Nat.repr_ne_empty (hn.symm.trans hempty)
  | negSucc n => simp [hempty, toString, Int.repr] at hn

/-- The node of another chain is refused once. -/
theorem preSyncCheck_bound_again : let c : CheckCalls := ⟨.ok Hash.zero, .ok 1, none, none, none, none⟩
    let s : PreSync := ⟨"0x01", "1", false⟩
    (s.preSyncCheck c).1 ≠ none ∧ (([some c].foldl step s).preSyncCheck c).1 = none :=
  ⟨by decide +kernel, (preSyncCheck_bound ⟨"0x01", "1", false⟩ (by decide) [some _] _).2.1.mpr
    (.inl (by decide +kernel))⟩

end PreSync

end Web3.Tracker
