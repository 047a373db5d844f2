import Web3.Json.Filters
import Web3.Tracker.Batches

/-! # Starting behind the first log

With `EtherscanFastTrack` the first `Sync` of a filter asks Etherscan for the first log of each address,
and starts at the block before the lowest of them. An address without logs counts as one with a log in
block 0. The number of a block is turned into a `web3.BlockNumber`, in which negative numbers are names
of blocks. -/

namespace Web3.Tracker.FastTrack

inductive BlockTag where
  | latest | earliest | pending
  | number (n : ℕ)
  deriving DecidableEq

/-- `BlockNumber.String`; `none` is a panic. -/
def BlockTag.of (b : ℤ) : Option BlockTag :=
  if b = -1 then some .latest
  else if b = -2 then some .earliest
  else if b = -3 then some .pending
  else if b < 0 then none
  else some (.number b.toNat)

def BlockTag.text : BlockTag → String
  | .latest => "latest"
  | .earliest => "earliest"
  | .pending => "pending"
  | .number n => "0x" ++ hexNumber n

theorem blockString_eq_text (b : Int64) : blockString b = (BlockTag.of b.toInt).map BlockTag.text := by
  have hname (n : Int64) : b = n ↔ b.toInt = n.toInt := Int64.toInt_inj.symm
  have hneg : b < 0 ↔ b.toInt < 0 := Int64.lt_iff_toInt_lt
  have hone : (-1 : Int64).toInt = -1 := by decide
  have htwo : (-2 : Int64).toInt = -2 := by decide
  have hthree : (-3 : Int64).toInt = -3 := by decide
  simp only [blockString, BlockTag.of, hname, hneg, hone, htwo, hthree, apply_ite (Option.map BlockTag.text),
    Option.map_some, Option.map_none, BlockTag.text]

/-- The node and Etherscan. The answer to a query has for each log the value of `blockNumber`, if that is a
string; a block may be null. -/
structure Sources where
  chainID : Except String ℕ
  query : Web3.Address → Except String (List (Option (List Char)))
  getBlockByNumber : BlockTag → Except String (Option Block)

section Source
variable (sources : Sources)

def getBlockByNumber (b : ℤ) : Outcome (Option Block) :=
  match BlockTag.of b with
  | none => .panic "internal. blocknumber is negative"
  | some tag =>
    match sources.getBlockByNumber tag with
    | .error e => .err e
    | .ok block => .ok block

/-- Whether `NewEtherscanFromNetwork` knows the network: Mainnet, Ropsten, Rinkeby and Goerli. -/
def knownNetwork (n : UInt64) : Bool := n = 1 ∨ n = 3 ∨ n = 4 ∨ n = 5

def parseUint64orHex : List Char → Except NumError UInt64
  | '0' :: 'x' :: str => parseUint str
  | str => parseDecimal str

def getAddress (addr : Web3.Address) : Except String UInt64 :=
  match sources.query addr with
  | .error e => .error e
  | .ok [] => .ok 0
  | .ok (none :: _) => .error "failed to cast blocknumber"
  | .ok (some cc :: _) =>
    match parseUint64orHex cc with
    | .error _ => .error "strconv.ParseUint"
    | .ok num => .ok num

def minBlock : List Web3.Address → UInt64 → Except String UInt64
  | [], lowest => .ok lowest
  | addr :: rest, lowest =>
    match getAddress sources addr with
    | .error e => .error e
    | .ok num => minBlock rest (if num < lowest then num else lowest)

def fastTrack (EtherscanFastTrack : Bool) (Start : UInt64) (addresses : List Web3.Address) : Outcome (Option Block) :=
  if Start ≠ 0 then getBlockByNumber sources (Batches.blockNumber Start)
  else if addresses = [] then .ok none
  else if EtherscanFastTrack then
    match sources.chainID with
    | .error e => .err e
    | .ok chainID =>
      if knownNetwork (UInt64.ofNat chainID) then
        match minBlock sources addresses (UInt64.ofNat (2 ^ 64 - 1)) with
        | .error e => .err e
        | .ok lowest => getBlockByNumber sources (Batches.blockNumber (lowest - 1))
      else .ok none
  else .ok none

end Source

theorem blockNumber_eq (n : UInt64) :
    Batches.blockNumber n = if n.toNat < 2 ^ 63 then (n.toNat : ℤ) else n.toNat - 2 ^ 64 := by
  rw [Batches.blockNumber, BitVec.toInt_eq_toNat_cond, UInt64.toNat_toBitVec]
  split <;> split <;> omega

theorem fastTrack_off {sources : Sources} {provider : Provider} {config : FilterConfig} (hstart : config.Start < 2 ^ 63)
    (hnumber : ∀ n, sources.getBlockByNumber (.number n) = (provider.getBlockByNumber n).map some) :
    fastTrack sources false (UInt64.ofNat config.Start) config.Address = match Tracker.fastTrack provider config with
      | .error e => .err e
      | .ok block => .ok block := by
  have hnat : (UInt64.ofNat config.Start).toNat = config.Start :=
    UInt64.toNat_ofNat_of_lt' (hstart.trans (by decide))
  have hzero : UInt64.ofNat config.Start = 0 ↔ config.Start = 0 := by
    rw [← UInt64.toNat_inj, hnat]
    rfl
  rw [fastTrack, Tracker.fastTrack]
  by_cases hset : config.Start = 0
  · rw [if_neg (not_not.mpr (hzero.mpr hset)), if_neg (not_not.mpr hset)]
    simp
  · have htag : BlockTag.of (Batches.blockNumber (UInt64.ofNat config.Start)) = some (.number config.Start) := by
      rw [blockNumber_eq, hnat, if_pos hstart, BlockTag.of, if_neg (by omega), if_neg (by omega), if_neg (by omega),
        if_neg (by omega), Int.toNat_natCast]
    rw [if_pos (fun h => hset (hzero.mp h)), if_pos hset, getBlockByNumber, htag]
    dsimp only
    rw [hnumber]
    cases provider.getBlockByNumber config.Start with
    | error | ok => rfl

/-! ## Honest answers -/

/-- Etherscan knows the blocks with logs of each address, in order, and the node has a chain up to the
block with number `head`, which has these blocks. -/
structure Sources.Serve (sources : Sources) (logs : Web3.Address → List UInt64) (head : ℕ) : Prop where
  ordered : ∀ addr, (logs addr).Pairwise (· ≤ ·)
  query : ∀ addr, ∃ texts, sources.query addr = .ok (texts.map some) ∧
    List.Forall₂ (fun text n => parseUint64orHex text = .ok n) texts (logs addr)
  mined : ∀ addr, ∀ n ∈ logs addr, n.toNat ≤ head
  latest : ∀ b, sources.getBlockByNumber .latest = .ok (some b) → b.Number = head
  earliest : ∀ b, sources.getBlockByNumber .earliest = .ok (some b) → b.Number = 0
  pending : ∀ b, sources.getBlockByNumber .pending = .ok (some b) → head ≤ b.Number
  number : ∀ n b, sources.getBlockByNumber (.number n) = .ok (some b) → b.Number = n

variable {sources : Sources} {logs : Web3.Address → List UInt64} {head : ℕ} {addresses : List Web3.Address}
  {lowest : UInt64}

theorem getAddress_eq (h : sources.Serve logs head) (addr : Web3.Address) :
    getAddress sources addr = .ok ((logs addr).headD 0) := by
  obtain ⟨texts, hquery, hparse⟩ := h.query addr
  rw [getAddress, hquery]
  generalize logs addr = numbers at hparse ⊢
  cases hparse with
  | nil => rfl
  | cons hfirst _ => simp [hfirst]

/-- The loop ends with a number that is not above that of any address, and is that of one of them. -/
theorem minBlock_spec (h : sources.Serve logs head) (addresses : List Web3.Address) (start : UInt64) :
    ∃ lowest, minBlock sources addresses start = .ok lowest ∧ lowest ≤ start ∧
      (∀ addr ∈ addresses, lowest ≤ (logs addr).headD 0) ∧
      (lowest = start ∨ ∃ addr ∈ addresses, lowest = (logs addr).headD 0) := by
  induction addresses generalizing start with
  | nil => exact ⟨start, rfl, UInt64.le_refl _, by simp, .inl rfl⟩
  | cons addr rest ih =>
    rw [minBlock, getAddress_eq h]
    dsimp only
    by_cases hlt : (logs addr).headD 0 < start
    · rw [if_pos hlt]
      obtain ⟨lowest, hrun, hle, hall, hmem⟩ := ih ((logs addr).headD 0)
      refine ⟨lowest, hrun, UInt64.le_trans hle (UInt64.le_of_lt hlt), ?_, .inr ?_⟩
      · exact List.forall_mem_cons.mpr ⟨hle, hall⟩
      · obtain heq | ⟨a, ha, heq⟩ := hmem
        · exact ⟨addr, List.mem_cons_self .., heq⟩
        · exact ⟨a, List.mem_cons_of_mem _ ha, heq⟩
    · rw [if_neg hlt]
      obtain ⟨lowest, hrun, hle, hall, hmem⟩ := ih start
      refine ⟨lowest, hrun, hle, ?_, hmem.imp_right ?_⟩
      · exact List.forall_mem_cons.mpr ⟨UInt64.le_trans hle (UInt64.not_lt.mp hlt), hall⟩
      · rintro ⟨a, ha, heq⟩
        exact ⟨a, List.mem_cons_of_mem _ ha, heq⟩

/-- The lowest number with at least one address is that of an address: the loop starts with the largest
number. -/
theorem minBlock_attained (h : sources.Serve logs head) (hne : addresses ≠ [])
    (hrun : minBlock sources addresses (UInt64.ofNat (2 ^ 64 - 1)) = .ok lowest) :
    (∀ addr ∈ addresses, lowest ≤ (logs addr).headD 0) ∧ ∃ addr ∈ addresses, lowest = (logs addr).headD 0 := by
  obtain ⟨_, hok, -, hall, hmem⟩ := minBlock_spec h addresses (UInt64.ofNat (2 ^ 64 - 1))
  rw [hrun] at hok
  cases hok
  refine ⟨hall, ?_⟩
  obtain heq | hmem := hmem
  · obtain ⟨addr, haddr⟩ := List.exists_mem_of_ne_nil _ hne
    refine ⟨addr, haddr, UInt64.le_antisymm (hall addr haddr) ?_⟩
    rw [heq, UInt64.le_iff_toNat_le]
    exact Nat.le_of_lt_succ ((logs addr).headD 0).toNat_lt
  · exact hmem

theorem tag_before (lowest : UInt64) : BlockTag.of (Batches.blockNumber (lowest - 1)) = if lowest = 0 then some .latest
      else if lowest.toNat = 2 ^ 64 - 1 then some .earliest
      else if lowest.toNat = 2 ^ 64 - 2 then some .pending
      else if 2 ^ 63 < lowest.toNat then none
      else some (.number (lowest.toNat - 1)) := by
  by_cases hzero : lowest = 0
  · rw [if_pos hzero, hzero]
    decide
  · have hpos : lowest.toNat ≠ 0 := fun h => hzero (UInt64.toNat_inj.mp h)
    have hlt := lowest.toNat_lt
    have hpred : (lowest - 1).toNat = lowest.toNat - 1 := by
      rw [UInt64.toNat_sub, UInt64.toNat_one]
      omega
    rw [if_neg hzero, blockNumber_eq, hpred, BlockTag.of]
    by_cases hsmall : lowest.toNat - 1 < 2 ^ 63
    · rw [if_pos hsmall, if_neg (by omega), if_neg (by omega), if_neg (by omega), if_neg (by omega), if_neg (by omega),
        if_neg (by omega), if_neg (by omega), Int.toNat_natCast]
    · -- a number that an `int` does not hold
      rw [if_neg hsmall]
      split_ifs <;> first | rfl | omega

variable {b : Block}

theorem getBlockByNumber_ok {n : ℤ} (h : getBlockByNumber sources n = .ok (some b)) :
    ∃ tag, BlockTag.of n = some tag ∧ sources.getBlockByNumber tag = .ok (some b) := by
  rw [getBlockByNumber] at h
  split at h
  · cases h
  next tag htag =>
  split at h
  · cases h
  next hblock =>
  cases h
  exact ⟨tag, htag, hblock⟩

theorem fastTrack_ok (hrun : fastTrack sources true 0 addresses = .ok (some b)) :
    addresses ≠ [] ∧ ∃ lowest, minBlock sources addresses (UInt64.ofNat (2 ^ 64 - 1)) = .ok lowest ∧
      getBlockByNumber sources (Batches.blockNumber (lowest - 1)) = .ok (some b) := by
  rw [fastTrack, if_neg (not_not.mpr rfl)] at hrun
  split at hrun
  · cases hrun
  next hne =>
  rw [if_pos rfl] at hrun
  split at hrun
  · cases hrun
  split at hrun
  · split at hrun
    · cases hrun
    next lowest hlowest => exact ⟨hne, lowest, hlowest, hrun⟩
  · cases hrun

/-- The block for the number before the lowest one: it is not below the head if that number is the tag
`latest` or `pending`, and below the lowest one otherwise. -/
theorem block_before (h : sources.Serve logs head)
    (hblock : getBlockByNumber sources (Batches.blockNumber (lowest - 1)) = .ok (some b)) :
    (lowest = 0 ∨ lowest.toNat = 2 ^ 64 - 2) ∧ head ≤ b.Number ∨
      lowest ≠ 0 ∧ lowest.toNat ≠ 2 ^ 64 - 2 ∧ b.Number < lowest.toNat := by
  obtain ⟨tag, htag, hserved⟩ := getBlockByNumber_ok hblock
  rw [tag_before] at htag
  split_ifs at htag with hzero hlast hpending hbig
  · cases htag
    exact .inl ⟨.inl hzero, (h.latest b hserved).ge⟩
  · cases htag
    have hb := h.earliest b hserved
    exact .inr ⟨hzero, by omega, by omega⟩
  · cases htag
    exact .inl ⟨.inr hpending, h.pending b hserved⟩
  · cases htag
    have hb := h.number _ b hserved
    have hpos : lowest.toNat ≠ 0 := fun heq => hzero (UInt64.toNat_inj.mp heq)
    exact .inr ⟨hzero, hpending, by omega⟩

/-! ## What is skipped -/

def logBlocks (logs : Web3.Address → List UInt64) (addresses : List Web3.Address) : Set ℕ :=
  {n | ∃ addr ∈ addresses, ∃ m ∈ logs addr, m.toNat = n}

/-- Every address has logs, none of them in block 0; or none has any. (The number before `2 ^ 64 - 2` would be
the tag `pending`.) -/
def Tracked (logs : Web3.Address → List UInt64) (addresses : List Web3.Address) : Prop :=
  (∀ addr ∈ addresses, logs addr = []) ∨
    (∀ addr ∈ addresses, logs addr ≠ [] ∧ 0 ∉ logs addr) ∧ ¬IsLeast (logBlocks logs addresses) (2 ^ 64 - 2)

theorem headD_le (h : sources.Serve logs head) {addr : Web3.Address} {n : UInt64} (hn : n ∈ logs addr) :
    (logs addr).headD 0 ≤ n := by
  have hordered := h.ordered addr
  cases hlogs : logs addr with
  | nil =>
    rw [hlogs] at hn
    cases hn
  | cons first rest =>
    rw [hlogs] at hn hordered
    rcases List.mem_cons.mp hn with heq | hrest
    · rw [heq]
      exact UInt64.le_refl _
    · exact (List.pairwise_cons.mp hordered).1 n hrest

theorem headD_mem {numbers : List UInt64} (h : numbers ≠ []) : numbers.headD 0 ∈ numbers := by
  cases numbers with
  | nil => exact absurd rfl h
  | cons first rest => exact List.mem_cons_self ..

theorem minBlock_isLeast (h : sources.Serve logs head) (hne : addresses ≠ [])
    (hrun : minBlock sources addresses (UInt64.ofNat (2 ^ 64 - 1)) = .ok lowest)
    (hlogs : ∀ addr ∈ addresses, logs addr ≠ []) : IsLeast (logBlocks logs addresses) lowest.toNat := by
  obtain ⟨hall, addr, haddr, heq⟩ := minBlock_attained h hne hrun
  refine ⟨⟨addr, haddr, lowest, ?_, rfl⟩, ?_⟩
  · rw [heq]
    exact headD_mem (hlogs addr haddr)
  · rintro _ ⟨addr, haddr, n, hn, rfl⟩
    exact UInt64.le_iff_toNat_le.mp (UInt64.le_trans (hall addr haddr) (headD_le h hn))

/-- **What fast-tracking skips.** The block that is returned is below every log of the addresses exactly if
all of them have logs, and none in block 0, or none of them has any. -/
theorem fastTrack_skips_none_iff (h : sources.Serve logs head) {b : Block}
    (hrun : fastTrack sources true 0 addresses = .ok (some b)) :
    (∀ addr ∈ addresses, ∀ n ∈ logs addr, b.Number < n.toNat) ↔ Tracked logs addresses := by
  obtain ⟨hne, lowest, hlowest, hblock⟩ := fastTrack_ok hrun
  obtain ⟨hall, addr, haddr, hattained⟩ := minBlock_attained h hne hlowest
  rcases block_before h hblock with ⟨htag, hhead⟩ | ⟨hzero, hpending, hlt⟩
  · -- no log is above the head, so this is right only if there are none
    constructor
    · intro hskips
      refine .inl fun addr haddr => List.eq_nil_iff_forall_not_mem.mpr fun n hn => ?_
      have hmined := h.mined addr n hn
      have hbelow := hskips addr haddr n hn
      omega
    · rintro (hnone | ⟨hsome, hleast⟩)
      · intro addr haddr n hn
        rw [hnone addr haddr] at hn
        cases hn
      · exfalso
        rcases htag with hzero | hpending
        · refine (hsome addr haddr).2 ?_
          rw [← hzero, hattained]
          exact headD_mem (hsome addr haddr).1
        · rw [← hpending] at hleast
          exact hleast (minBlock_isLeast h hne hlowest fun addr haddr => (hsome addr haddr).1)
  · constructor
    · intro hskips
      have hlogs : ∀ addr ∈ addresses, logs addr ≠ [] := by
        intro addr haddr hnil
        have hle := hall addr haddr
        rw [hnil] at hle
        exact hzero (UInt64.le_antisymm hle (UInt64.le_iff_toNat_le.mpr (Nat.zero_le _)))
      refine .inr ⟨fun addr haddr => ⟨hlogs addr haddr, fun hin => ?_⟩, fun hleast => ?_⟩
      · exact absurd (hskips addr haddr 0 hin) (Nat.not_lt_zero _)
      · exact hpending ((minBlock_isLeast h hne hlowest hlogs).unique hleast)
    · intro _ addr haddr n hn
      have hle := UInt64.le_iff_toNat_le.mp (UInt64.le_trans (hall addr haddr) (headD_le h hn))
      omega

def sampleSources (logs : Web3.Address → List UInt64) (head : ℕ) : Sources where
  chainID := .ok 1
  query addr := .ok ((logs addr).map fun n => some ('0' :: 'x' :: (hexNumber n.toNat).toList))
  getBlockByNumber
    | .latest => .ok (some { Number := head, Hash := Hash.zero, ParentHash := Hash.zero })
    | .earliest => .ok (some { Number := 0, Hash := Hash.zero, ParentHash := Hash.zero })
    | .pending => .ok (some { Number := head + 1, Hash := Hash.zero, ParentHash := Hash.zero })
    | .number n => .ok (if n ≤ head then some { Number := n, Hash := Hash.zero, ParentHash := Hash.zero } else none)

theorem sampleSources_serve (hordered : ∀ addr, (logs addr).Pairwise (· ≤ ·))
    (hmined : ∀ addr, ∀ n ∈ logs addr, n.toNat ≤ head) : (sampleSources logs head).Serve logs head where
  ordered := hordered
  query addr := by
    refine ⟨(logs addr).map fun n => '0' :: 'x' :: (hexNumber n.toNat).toList, ?_, ?_⟩
    · simp [sampleSources]
    · rw [List.forall₂_map_left_iff, List.forall₂_same]
      exact fun n _ => parseUint_hexNumber n
  mined := hmined
  latest b hb := by
    cases hb
    rfl
  earliest b hb := by
    cases hb
    rfl
  pending b hb := by
    cases hb
    exact Nat.le_succ _
  number n b hb := by
    simp only [sampleSources, Except.ok.injEq] at hb
    split at hb
    · cases hb
      rfl
    · cases hb

def twoLogs (addr : Web3.Address) : List UInt64 := if addr = bytesToAddress [1] then [5, 7] else [6]

def oneLog (addr : Web3.Address) : List UInt64 := if addr = bytesToAddress [1] then [] else [6]

theorem twoLogs_serve : (sampleSources twoLogs 9).Serve twoLogs 9 := by
  refine sampleSources_serve (fun addr => ?_) fun addr => ?_
  · rw [twoLogs]
    split <;> simp
  · rw [twoLogs]
    split <;> simp

theorem oneLog_serve : (sampleSources oneLog 9).Serve oneLog 9 := by
  refine sampleSources_serve (fun addr => ?_) fun addr => ?_
  · rw [oneLog]
    split <;> simp
  · rw [oneLog]
    split <;> simp

/-- Block 4 is before the first log. -/
theorem fastTrack_skips_none_two : fastTrack (sampleSources twoLogs 9) true 0 [bytesToAddress [1], bytesToAddress [2]] =
        .ok (some { Number := 4, Hash := Hash.zero, ParentHash := Hash.zero }) ∧
      Tracked twoLogs [bytesToAddress [1], bytesToAddress [2]] := by
  have hrun : fastTrack (sampleSources twoLogs 9) true 0 [bytesToAddress [1], bytesToAddress [2]] =
      .ok (some { Number := 4, Hash := Hash.zero, ParentHash := Hash.zero }) := by decide +kernel
  refine ⟨hrun, (fastTrack_skips_none_iff twoLogs_serve hrun).mp fun addr _ n hn => ?_⟩
  rw [twoLogs] at hn
  split at hn
  · rcases List.mem_pair.mp hn with rfl | rfl <;> decide
  · rw [List.mem_singleton.mp hn]
    decide

/-- With an address that has no logs, the block is the head of the chain, behind the log of the other. -/
theorem fastTrack_skips_log : (sampleSources oneLog 9).Serve oneLog 9 ∧
      fastTrack (sampleSources oneLog 9) true 0 [bytesToAddress [1], bytesToAddress [2]] =
        .ok (some { Number := 9, Hash := Hash.zero, ParentHash := Hash.zero }) ∧
      6 ∈ oneLog (bytesToAddress [2]) := by
  refine ⟨oneLog_serve, ?_, ?_⟩
  · decide +kernel
  · decide +kernel

end Web3.Tracker.FastTrack
