import Web3.Json.Strictness

/-! # What survives in a receiver

When the result of `UnmarshalJSON` does not depend on what the receiver held before. A hash or an address that cannot be
read is left as it was, and so are the recipient of a transaction that is null, the contract address of a receipt that
is missing or null, the event of a log that the registered parser does not recognise, and every field of a receipt or a
log if the text is not JSON. -/

namespace Web3
open Wallet (Transaction sampleTransaction)

attribute [ext] Log Receipt Block Wallet.Transaction

variable {E Doc : Type}

/-! ## Fields -/

def Parses (n : ℕ) (v : Json) (key : String) : Prop := ∃ a, unmarshalTextByte n (v.getStringBytes key) = .ok a

variable {ε α : Type} {Equal : α → α → Prop}

def onesHash : Hash := ⟨List.replicate 32 1, rfl⟩

def onesAddress : Address := ⟨List.replicate 20 1, rfl⟩

theorem zero_ne_onesHash : Hash.zero ≠ onesHash := by decide

theorem zero_ne_onesAddress : Address.zero ≠ onesAddress := by decide

theorem ok_unique {x : Except ε α} {a b : α} (ha : x = .ok a) (hb : x = .ok b) : a = b :=
  Except.ok.inj (ha.symm.trans hb)

section
variable {v : Json} {key : String} {n : ℕ} {a b c : { bs : Bytes // bs.length = n }}

theorem eq_of_decodeFixed (hc : unmarshalTextByte n (v.getStringBytes key) = .ok c)
    (ha : decodeFixed (unmarshalTextByte n) a v key = .ok b) : b = c := by
  rcases (decodeFixed_eq_ok.mp ha).2 with h | ⟨⟨e, he⟩, -⟩
  · exact ok_unique h hc
  · rw [hc] at he
    cases he

theorem decodeFixed_unique {a' b' : { bs : Bytes // bs.length = n }} (h : Parses n v key)
    (ha : decodeFixed (unmarshalTextByte n) a v key = .ok a')
    (hb : decodeFixed (unmarshalTextByte n) b v key = .ok b') : a' = b' := by
  obtain ⟨c, hc⟩ := h
  rw [eq_of_decodeFixed hc ha, eq_of_decodeFixed hc hb]

theorem parses_of_eq (hne : a ≠ b) (ha : decodeFixed (unmarshalTextByte n) a v key = .ok c)
    (hb : decodeFixed (unmarshalTextByte n) b v key = .ok c) : Parses n v key := by
  rcases (decodeFixed_eq_ok.mp ha).2 with h | ⟨-, rfl⟩
  · exact ⟨c, h⟩
  · rcases (decodeFixed_eq_ok.mp hb).2 with h | ⟨-, heq⟩
    · exact ⟨c, h⟩
    · exact absurd heq hne

theorem decodeHash_unique {a b a' b' : Hash} (h : Parses 32 v key) (ha : decodeHash a v key = .ok a')
    (hb : decodeHash b v key = .ok b') : a' = b' := decodeFixed_unique h ha hb

theorem decodeAddr_unique {a b a' b' : Address} (h : Parses 20 v key) (ha : decodeAddr a v key = .ok a')
    (hb : decodeAddr b v key = .ok b') : a' = b' := decodeFixed_unique h ha hb

theorem parses_hash {c : Hash} (ha : decodeHash Hash.zero v key = .ok c) (hb : decodeHash onesHash v key = .ok c) :
    Parses 32 v key := parses_of_eq zero_ne_onesHash ha hb

theorem parses_addr {c : Address} (ha : decodeAddr Address.zero v key = .ok c)
    (hb : decodeAddr onesAddress v key = .ok c) : Parses 20 v key := parses_of_eq zero_ne_onesAddress ha hb

theorem BytesField.unique {bs bs' : Bytes} (h : BytesField v key bs) (h' : BytesField v key bs') :
    bs = bs' := ok_unique (readBytes_eq_ok.mpr h) (readBytes_eq_ok.mpr h')

end

/-! ## Blocks -/

namespace Block

/-- The fields whose old values would survive are read. -/
structure Overwritten (v : Json) : Prop where
  hashes : ∀ key ∈ ["hash", "parentHash", "sha3Uncles", "transactionsRoot", "stateRoot", "receiptsRoot"], Parses 32 v key
  miner : Parses 20 v "miner"

def filled : Block :=
  { zero with
    Hash := onesHash, ParentHash := onesHash, Sha3Uncles := onesHash, TransactionsRoot := onesHash
    StateRoot := onesHash, ReceiptsRoot := onesHash, Miner := onesAddress }

variable {v : Json}

theorem Reads.unique {x y x' y' : Block} (hv : Overwritten v) (hx : Reads v x x')
    (hy : Reads v y y') : x' = y' := by
  have hhashes := hv.hashes
  simp only [List.forall_mem_cons, List.not_mem_nil, false_implies, implies_true, and_true] at hhashes
  obtain ⟨h1, h2, h3, h4, h5, h6⟩ := hhashes
  obtain ⟨n, hn, hxn⟩ := hx.difficulty
  obtain ⟨m, hm, hym⟩ := hy.difficulty
  have htransactions := ok_unique hx.transactions hy.transactions
  apply Block.ext
  · exact ok_unique hx.number hy.number
  · exact decodeHash_unique h1 hx.hash hy.hash
  · exact decodeHash_unique h2 hx.parentHash hy.parentHash
  · exact decodeHash_unique h3 hx.sha3Uncles hy.sha3Uncles
  · exact decodeHash_unique h4 hx.transactionsRoot hy.transactionsRoot
  · exact decodeHash_unique h5 hx.stateRoot hy.stateRoot
  · exact decodeHash_unique h6 hx.receiptsRoot hy.receiptsRoot
  · exact decodeAddr_unique hv.miner hx.miner hy.miner
  · rw [hxn, hym, ok_unique hn hm]
  · exact ok_unique hx.extraData hy.extraData
  · exact ok_unique hx.gasLimit hy.gasLimit
  · exact ok_unique hx.gasUsed hy.gasUsed
  · exact ok_unique hx.timestamp hy.timestamp
  · exact congrArg Prod.snd htransactions
  · exact congrArg Prod.fst htransactions
  · exact ok_unique hx.uncles hy.uncles

theorem Reads.overwritten {b : Block} (hx : Reads v zero b) (hy : Reads v filled b) : Overwritten v := by
  refine ⟨?_, parses_addr hx.miner hy.miner⟩
  simp only [List.forall_mem_cons, List.not_mem_nil, false_implies, implies_true, and_true]
  exact ⟨parses_hash hx.hash hy.hash, parses_hash hx.parentHash hy.parentHash,
    parses_hash hx.sha3Uncles hy.sha3Uncles, parses_hash hx.transactionsRoot hy.transactionsRoot,
    parses_hash hx.stateRoot hy.stateRoot, parses_hash hx.receiptsRoot hy.receiptsRoot⟩

end Block

/-! ## Transactions -/

namespace Wallet.Transaction

structure Overwritten (v : Json) : Prop where
  hash : Parses 32 v "hash"
  sender : Parses 20 v "from"
  recipient : ¬IsNull v "to"
  blockHash : IsNull v "blockHash" ∨ Parses 32 v "blockHash"

def filled : Transaction :=
  { zero with hash := onesHash, From := onesAddress, To := some onesAddress, BlockHash := onesHash }

variable {v : Json}

theorem Reads.unique {x y x' y' : Transaction} (hv : Overwritten v) (hx : Reads v x x') (hy : Reads v y y') : x' = y' := by
  obtain ⟨n, hn, hxn⟩ := hx.value
  obtain ⟨m, hm, hym⟩ := hy.value
  have hread {t t' : Transaction} (h : Reads v t t') :
      ∃ a, t'.To = some a ∧ decodeAddr Address.zero v "to" = .ok a := by
    rcases readTo_eq_ok.mp h.recipient with ⟨hnull, -⟩ | ⟨-, hsome⟩
    · exact absurd hnull hv.recipient
    · exact hsome
  obtain ⟨a, hxa, ha⟩ := hread hx
  obtain ⟨b, hyb, hb⟩ := hread hy
  have hblockHash : x'.BlockHash = y'.BlockHash := by
    rcases decodeHashOrNull_eq_ok.mp hx.blockHash with ⟨hnull, hxz⟩ | ⟨hnull, hxr⟩
    · rcases decodeHashOrNull_eq_ok.mp hy.blockHash with ⟨-, hyz⟩ | ⟨hnot, -⟩
      · rw [hxz, hyz]
      · exact absurd hnull hnot
    · rcases decodeHashOrNull_eq_ok.mp hy.blockHash with ⟨hnull', -⟩ | ⟨-, hyr⟩
      · exact absurd hnull' hnull
      · exact decodeHash_unique (hv.blockHash.resolve_left hnull) hxr hyr
  apply Transaction.ext
  · exact decodeHash_unique hv.hash hx.hash hy.hash
  · exact decodeAddr_unique hv.sender hx.sender hy.sender
  · rw [hxa, hyb, ok_unique ha hb]
  · exact ok_unique hx.input hy.input
  · exact ok_unique hx.gasPrice hy.gasPrice
  · exact ok_unique hx.gas hy.gas
  · rw [hxn, hym, ok_unique hn hm]
  · exact ok_unique hx.nonce hy.nonce
  · exact ok_unique hx.sigV hy.sigV
  · exact ok_unique hx.sigR hy.sigR
  · exact ok_unique hx.sigS hy.sigS
  · exact hblockHash
  · exact ok_unique hx.blockNumber hy.blockNumber
  · exact ok_unique hx.txnIndex hy.txnIndex

theorem Reads.overwritten {t : Transaction} (hx : Reads v zero t) (hy : Reads v filled t) : Overwritten v := by
  refine ⟨parses_hash hx.hash hy.hash, parses_addr hx.sender hy.sender, fun hnull => ?_, ?_⟩
  · -- the recipient of the receiver is left
    have hkeep {r : Transaction} (h : Reads v r t) : t.To = r.To := by
      rcases readTo_eq_ok.mp h.recipient with ⟨-, hold⟩ | ⟨hnot, -⟩
      · exact hold
      · exact absurd hnull hnot
    have heq : zero.To = filled.To := (hkeep hx).symm.trans (hkeep hy)
    cases heq
  · rcases decodeHashOrNull_eq_ok.mp hx.blockHash with ⟨hnull, -⟩ | ⟨hnull, hxr⟩
    · exact .inl hnull
    · rcases decodeHashOrNull_eq_ok.mp hy.blockHash with ⟨hnull', -⟩ | ⟨-, hyr⟩
      · exact .inl hnull'
      · exact .inr (parses_hash hxr hyr)

end Wallet.Transaction

/-! ## Receipts -/

namespace Receipt

structure Overwritten (v : Json) : Prop where
  sender : Parses 20 v "from"
  contractAddress : ¬Absent v "contractAddress" ∧ Parses 20 v "contractAddress"
  transactionHash : Parses 32 v "transactionHash"
  blockHash : Parses 32 v "blockHash"

def filled : Receipt E :=
  { zero with
    From := onesAddress, ContractAddress := onesAddress, TransactionHash := onesHash, BlockHash := onesHash }

variable {parseLog : Log E → Option E} {v : Json}

theorem Reads.unique {x y x' y' : Receipt E} (hv : Overwritten v) (hx : Reads parseLog v x x')
    (hy : Reads parseLog v y y') : x' = y' := by
  have hread {r r' : Receipt E} (h : Reads parseLog v r r') :
      decodeAddr r.ContractAddress v "contractAddress" = .ok r'.ContractAddress := by
    rcases readContractAddress_eq_ok.mp h.contractAddress with ⟨habsent, -⟩ | ⟨-, hread⟩
    · exact absurd habsent hv.contractAddress.1
    · exact hread
  apply Receipt.ext
  · exact ok_unique hx.status hy.status
  · exact decodeHash_unique hv.transactionHash hx.transactionHash hy.transactionHash
  · exact ok_unique hx.transactionIndex hy.transactionIndex
  · exact decodeAddr_unique hv.contractAddress.2 (hread hx) (hread hy)
  · exact decodeHash_unique hv.blockHash hx.blockHash hy.blockHash
  · exact decodeAddr_unique hv.sender hx.sender hy.sender
  · exact ok_unique hx.blockNumber hy.blockNumber
  · exact ok_unique hx.gasUsed hy.gasUsed
  · exact ok_unique hx.cumulativeGasUsed hy.cumulativeGasUsed
  · exact ok_unique hx.logsBloom hy.logsBloom
  · exact ok_unique hx.logs hy.logs

theorem Reads.overwritten {r : Receipt E} (hx : Reads parseLog v zero r)
    (hy : Reads parseLog v filled r) : Overwritten v := by
  refine ⟨parses_addr hx.sender hy.sender, ?_, parses_hash hx.transactionHash hy.transactionHash,
    parses_hash hx.blockHash hy.blockHash⟩
  rcases readContractAddress_eq_ok.mp hx.contractAddress with ⟨habsent, hold⟩ | ⟨habsent, hxr⟩
  · rcases readContractAddress_eq_ok.mp hy.contractAddress with ⟨-, hold'⟩ | ⟨hnot, -⟩
    · exact absurd (hold.symm.trans hold') zero_ne_onesAddress
    · exact absurd habsent hnot
  · rcases readContractAddress_eq_ok.mp hy.contractAddress with ⟨habsent', -⟩ | ⟨-, hyr⟩
    · exact absurd habsent' habsent
    · exact ⟨habsent, parses_addr hxr hyr⟩

end Receipt

/-! ## Logs -/

namespace Log

/-- Equal logs, a nil `Data` being an empty one. -/
def Alike (l l' : Log E) : Prop := l.Same l' ∧ l.Event = l'.Event

structure Written (v : Json) (l : Log E) : Prop where
  removed : v.get "removed" = some (.bool l.Removed)
  logIndex : UintField v "logIndex" l.LogIndex
  blockNumber : UintField v "blockNumber" l.BlockNumber
  transactionIndex : UintField v "transactionIndex" l.TransactionIndex
  transactionHash : Hash.unmarshalText (v.getStringBytes "transactionHash") = .ok l.TransactionHash
  blockHash : Hash.unmarshalText (v.getStringBytes "blockHash") = .ok l.BlockHash
  address : Address.unmarshalText (v.getStringBytes "address") = .ok l.Address
  data : BytesField v "data" (l.Data.getD [])
  topics : List.Forall₂ (fun w topic => decodeTopic w = .ok topic) (v.getArray "topics") l.Topics

/-- The text has all fields of a log, and the registered parser recognises the log. -/
def Overwritten (parseLog : Log E → Option E) (v : Json) : Prop := ∃ l, Written v l ∧ (parseLog l).isSome

/-- A receiver that differs from a zero log in its hashes, its address and its event. -/
def filled [Inhabited E] : Log E :=
  { (zero : Log E) with TransactionHash := onesHash, BlockHash := onesHash, Address := onesAddress, Event := some default }

variable {parseLog : Log E → Option E} {v : Json}

theorem Same.trans {l₁ l₂ l₃ : Log E} (h : l₁.Same l₂) (h' : l₂.Same l₃) : l₁.Same l₃ := Eq.trans h h'

variable {l l' r lx ly : Log E}

theorem Same.symm (h : l.Same l') : l'.Same l := Eq.symm h

theorem same_parseEvent (l : Log E) : (parseEvent parseLog l).Same l := bare_parseEvent parseLog l

theorem Event_parseEvent (l : Log E) : (parseEvent parseLog l).Event = (parseLog l).or l.Event := by
  unfold parseEvent
  split
  · next h => rw [h]; rfl
  · next h => rw [h]; rfl

theorem Reads.same (h : Reads v r l) (hl : Written v l') : l.Same l' := by
  have hremoved := decodeBool_eq_ok.mp h.removed
  rw [hl.removed, Option.some.injEq, Json.bool.injEq] at hremoved
  obtain ⟨bs, hbs, -, hdata⟩ := decodeBytes_eq_ok.mp h.data
  apply Log.ext
  · exact hremoved.symm
  · exact ok_unique h.logIndex (decodeUint_eq_ok.mpr hl.logIndex)
  · exact ok_unique h.transactionIndex (decodeUint_eq_ok.mpr hl.transactionIndex)
  · exact eq_of_decodeFixed hl.transactionHash h.transactionHash
  · exact eq_of_decodeFixed hl.blockHash h.blockHash
  · exact ok_unique h.blockNumber (decodeUint_eq_ok.mpr hl.blockNumber)
  · exact eq_of_decodeFixed hl.address h.address
  · exact ok_unique h.topics (except_mapM_eq_ok.mpr hl.topics)
  · show some (l.Data.getD []) = some (l'.Data.getD [])
    rw [hdata, getD_appendBytes, hbs.unique hl.data]
  · rfl

theorem Reads.written (h : Reads v r l)
    (htransactionHash : Parses 32 v "transactionHash") (hblockHash : Parses 32 v "blockHash")
    (haddress : Parses 20 v "address") : Written v l := by
  have hfixed {n : ℕ} {a b : { bs : Bytes // bs.length = n }} {key : String} (hkey : Parses n v key)
      (ha : decodeFixed (unmarshalTextByte n) a v key = .ok b) :
      unmarshalTextByte n (v.getStringBytes key) = .ok b := by
    obtain ⟨c, hc⟩ := hkey
    rw [eq_of_decodeFixed hc ha, hc]
  obtain ⟨bs, hbs, -, hdata⟩ := decodeBytes_eq_ok.mp h.data
  have hbytes : l.Data.getD [] = bs := by rw [hdata, getD_appendBytes]
  exact
    { removed := decodeBool_eq_ok.mp h.removed
      logIndex := decodeUint_eq_ok.mp h.logIndex
      blockNumber := decodeUint_eq_ok.mp h.blockNumber
      transactionIndex := decodeUint_eq_ok.mp h.transactionIndex
      transactionHash := hfixed htransactionHash h.transactionHash
      blockHash := hfixed hblockHash h.blockHash
      address := hfixed haddress h.address
      data := hbytes ▸ hbs
      topics := except_mapM_eq_ok.mp h.topics }

theorem Described.written (h : Described v l) : Written v l where
  removed := h.removed
  logIndex := decodeUint_eq_ok.mp (decodeUint_eq h.logIndex)
  blockNumber := decodeUint_eq_ok.mp (decodeUint_eq h.blockNumber)
  transactionIndex := decodeUint_eq_ok.mp (decodeUint_eq h.transactionIndex)
  transactionHash := by
    rw [Json.getStringBytes, h.transactionHash]
    exact unmarshalText_hash l.TransactionHash
  blockHash := by
    rw [Json.getStringBytes, h.blockHash]
    exact unmarshalText_hash l.BlockHash
  address := by
    rw [Json.getStringBytes, h.address]
    exact unmarshalText_address l.Address
  data := readBytes_eq_ok.mp (readBytes_hexString h.data)
  topics := by
    rw [← except_mapM_eq_ok, h.topics]
    exact mapM_decodeTopic l.Topics

/-- The parser of events looks at the fields of a log, not at the event that it has. -/
def Extensional (parseLog : Log E → Option E) : Prop := ∀ l l' : Log E, l.Same l' → parseLog l = parseLog l'

theorem Reads.overwritten [Inhabited E] (hparse : Extensional parseLog)
    (hx : Reads v zero lx) (hy : Reads v filled ly)
    (h : (parseEvent parseLog lx).Alike (parseEvent parseLog ly)) : Overwritten parseLog v := by
  have hsame : lx.Same ly := (same_parseEvent lx).symm.trans (h.1.trans (same_parseEvent ly))
  have hbare : lx.bare = ly.bare := hsame
  have htransactionHash : lx.TransactionHash = ly.TransactionHash := congrArg (fun l => l.TransactionHash) hbare
  have hblockHash : lx.BlockHash = ly.BlockHash := congrArg (fun l => l.BlockHash) hbare
  have haddress : lx.Address = ly.Address := congrArg (fun l => l.Address) hbare
  have hwritten : Written v lx := hx.written (parses_hash hx.transactionHash (htransactionHash ▸ hy.transactionHash))
    (parses_hash hx.blockHash (hblockHash ▸ hy.blockHash)) (parses_addr hx.address (haddress ▸ hy.address))
  refine ⟨lx, hwritten, ?_⟩
  rw [Option.isSome_iff_ne_none]
  intro hnone
  -- the event of the receiver is left
  have hevent := h.2
  rw [Event_parseEvent, Event_parseEvent, ← hparse lx ly hsame, hnone, hx.event, hy.event] at hevent
  cases hevent

end Log

/-! ## The four types -/

end Web3
