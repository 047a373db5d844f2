import Web3.Json.Blocks
import Web3.Json.Fields
import Web3.Json.Receipts

/-! # Strict parsing

When `UnmarshalJSON` into a zero object does not panic, and only succeeds on an object whose fields are well formed. For
each type, `Strict` says that the fields are present and well formed and that the result has the values written there,
`Accepted` which documents are read without an error, and `Exact` that the fields whose errors are not looked at are well
formed. `Block.MarshalJSON` leaves out the transactions and an empty list of uncles, so these two may be missing; like
the topics of a log and the logs of a receipt, they may not be something else than an array, which `GetArray` reads as
an empty one. The registered parser of events may panic here: `abi.Decode` does, for the data of some logs. -/

namespace Web3
open Wallet (Transaction)

variable {E Doc : Type}

/-! ## Logs -/

namespace Log

/-- The fields of the log are those written in the document. -/
@[mk_iff]
structure Strict (v : Json) (l : Log E) : Prop where
  removed : v.get "removed" = some (.bool l.Removed)
  logIndex : UintField v "logIndex" l.LogIndex
  blockNumber : UintField v "blockNumber" l.BlockNumber
  transactionIndex : UintField v "transactionIndex" l.TransactionIndex
  transactionHash : FixedField v "transactionHash" l.TransactionHash.1
  blockHash : FixedField v "blockHash" l.BlockHash.1
  address : FixedField v "address" l.Address.1
  data : BytesField v "data" (l.Data.getD [])
  topics : IsArray v "topics" ∧ List.Forall₂ HashValue (v.getArray "topics") l.Topics

/-- The documents that are read as a log without an error. -/
@[mk_iff]
structure Accepted (v : Json) : Prop where
  removed : ∃ b, v.get "removed" = some (.bool b)
  logIndex : IsUint v "logIndex"
  blockNumber : IsUint v "blockNumber"
  transactionIndex : IsUint v "transactionIndex"
  transactionHash : Present v "transactionHash"
  blockHash : Present v "blockHash"
  address : Present v "address"
  data : IsBytes v "data"
  topics : ∀ w ∈ v.getArray "topics", LooseHash w

/-- What is still asked of the document of a log that is accepted. -/
@[mk_iff]
structure Exact (v : Json) : Prop where
  transactionHash : ExactField 32 v "transactionHash"
  blockHash : ExactField 32 v "blockHash"
  address : ExactField 20 v "address"
  topics : IsArray v "topics" ∧ ∀ w ∈ v.getArray "topics", ∃ h, HashValue w h

variable {v : Json}

theorem exists_unmarshalJSON_iff (parseLog : Log E → Option E) (r : Log E) :
    (∃ l, r.unmarshalJSON parseLog v = .ok l) ↔ Accepted v := by
  simp only [accepted_iff, unmarshalJSON, readFields, exists_do_iff, exists_pure_iff, exists_and_right, and_true,
    decodeBool_eq_ok, exists_decodeUint_iff, exists_decodeHash_iff, exists_decodeAddr_iff,
    exists_decodeBytes_iff, exists_except_mapM_iff, exists_decodeTopic_iff]

variable {r l : Log E} {parseLog : Log E → Option E}

theorem Reads.strict_iff_exact (h : Reads v r l) : Strict v l ↔ Exact v := by
  have hdata : BytesField v "data" (l.Data.getD []) := by
    obtain ⟨bs, hbs, -, hdata⟩ := decodeBytes_eq_ok.mp h.data
    rwa [hdata, getD_appendBytes]
  have htopics : List.Forall₂ HashValue (v.getArray "topics") l.Topics ↔ ∀ w ∈ v.getArray "topics", ∃ h, HashValue w h :=
    forall₂_iff_of_mapM h.topics fun w _ topic => hashValue_iff
  simp only [strict_iff, exact_iff, decodeBool_eq_ok.mp h.removed, decodeUint_eq_ok.mp h.logIndex,
    decodeUint_eq_ok.mp h.blockNumber, decodeUint_eq_ok.mp h.transactionIndex,
    decodeHash_strict_iff h.transactionHash, decodeHash_strict_iff h.blockHash, decodeAddr_strict_iff h.address, hdata,
    htopics, true_and]

theorem strict_parseEvent : Strict v (parseEvent parseLog l) ↔ Strict v l := by
  unfold parseEvent
  split
  · simp only [strict_iff]
  · exact Iff.rfl

theorem unmarshalJSON_strict_iff {r' : Log E}
    (h : r.unmarshalJSON parseLog v = .ok r') : Strict v r' ↔ Exact v := by
  obtain ⟨l, hl, rfl⟩ := unmarshalJSON_eq_ok.mp h
  rw [strict_parseEvent, hl.strict_iff_exact]

/-! ### Panics of the parser -/

variable (parseLog : Log E → Except Fault E)

/-- `unmarshalJSON`, for a registered parser that may panic. An error that it returns is not looked at. -/
def unmarshalJSONWith (r : Log E) (v : Json) : Except Fault (Log E) := do
  let r ← (r.readFields v).mapError Fault.ofField
  match parseLog r with
  | .ok parsed => return { r with Event := some parsed }
  | .error (.error _) => return r
  | .error (.panic e) => throw (.panic e)

/-- The parser does not panic on the log of the document. -/
def Safe (v : Json) : Prop := ∀ l, Reads v zero l → NoPanic (parseLog l)

/-- The parser does not panic on the logs up to the first one that is not accepted. -/
def AllSafe (parseLog : Log E → Except Fault E) : List Json → Prop
  | [] => True
  | w :: ws => Safe parseLog w ∧ (Accepted w → AllSafe parseLog ws)

variable {parseLog : Log E → Except Fault E}

theorem noPanic_unmarshalJSONWith_iff : NoPanic (zero.unmarshalJSONWith parseLog v) ↔ Safe parseLog v := by
  have hparse (l : Log E) : NoPanic (match parseLog l with
      | .ok parsed => (return { l with Event := some parsed } : Except Fault (Log E))
      | .error (.error _) => return l
      | .error (.panic e) => throw (.panic e)) ↔ NoPanic (parseLog l) := by
    cases parseLog l with
    | ok parsed => exact iff_of_true (noPanic_ok _) (noPanic_ok _)
    | error e =>
      cases e with
      | error e => exact iff_of_true (noPanic_ok _) fun _ h => (by cases h)
      | panic e => exact iff_of_false (fun h => h e rfl) fun h => h e rfl
  simp only [unmarshalJSONWith, noPanic_bind, noPanic_ofField, true_and, mapError_eq_ok, readFields_eq_ok, hparse, Safe]

/-- Without a panic, the parser is one that returns an event or none. -/
theorem unmarshalJSONWith_eq (h : Safe parseLog v) : zero.unmarshalJSONWith parseLog v =
    (zero.unmarshalJSON (fun l => (parseLog l).toOption) v).mapError Fault.ofField := by
  unfold unmarshalJSONWith unmarshalJSON
  cases hread : zero.readFields v with
  | error e => rfl
  | ok l =>
    have hsafe : NoPanic (parseLog l) := h l (readFields_eq_ok.mp hread)
    cases hparsed : parseLog l with
    | ok parsed => simp [bind, Except.bind, Except.mapError, pure, Except.pure, parseEvent, hparsed, Except.toOption]
    | error e =>
      cases e with
      | error e => simp [bind, Except.bind, Except.mapError, pure, Except.pure, parseEvent, hparsed, Except.toOption]
      | panic e => exact absurd hparsed (hsafe e)

theorem noPanic_mapM_unmarshalJSONWith_iff (ws : List Json) :
    NoPanic (ws.mapM (zero.unmarshalJSONWith parseLog)) ↔ AllSafe parseLog ws := by
  induction ws with
  | nil => exact iff_of_true (noPanic_ok _) trivial
  | cons w ws ih =>
    rw [noPanic_mapM_cons, noPanic_unmarshalJSONWith_iff, AllSafe, ih]
    refine and_congr_right fun hsafe => ?_
    rw [unmarshalJSONWith_eq hsafe]
    simp only [mapError_eq_ok, exists_unmarshalJSON_iff]

theorem mapM_unmarshalJSONWith_eq {ws : List Json} (h : AllSafe parseLog ws) :
    ws.mapM (zero.unmarshalJSONWith parseLog) =
      (ws.mapM (zero.unmarshalJSON fun l => (parseLog l).toOption)).mapError Fault.ofField := by
  induction ws with
  | nil => rfl
  | cons w ws ih =>
    rw [List.mapM_cons, List.mapM_cons, unmarshalJSONWith_eq h.1]
    cases hread : zero.unmarshalJSON (fun l => (parseLog l).toOption) w with
    | error e => rfl
    | ok l =>
      have hrest := ih (h.2 ((exists_unmarshalJSON_iff _ _).mp ⟨l, hread⟩))
      simp only [Except.mapError, bind, Except.bind, hrest]
      cases ws.mapM (zero.unmarshalJSON fun l => (parseLog l).toOption) with
      | error | ok => rfl

end Log

/-! ## Receipts -/

namespace Receipt

/-- The fields of the receipt and its logs are those written in the document. -/
@[mk_iff]
structure Strict (v : Json) (r : Receipt E) : Prop where
  sender : FixedField v "from" r.From.1
  contractAddress : (Absent v "contractAddress" ∧ r.ContractAddress = Address.zero) ∨
    FixedField v "contractAddress" r.ContractAddress.1
  transactionHash : FixedField v "transactionHash" r.TransactionHash.1
  blockHash : FixedField v "blockHash" r.BlockHash.1
  transactionIndex : UintField v "transactionIndex" r.TransactionIndex
  blockNumber : UintField v "blockNumber" r.BlockNumber
  gasUsed : UintField v "gasUsed" r.GasUsed
  status : UintField v "status" r.Status
  cumulativeGasUsed : UintField v "cumulativeGasUsed" r.CumulativeGasUsed
  logsBloom : BytesField v "logsBloom" r.LogsBloom ∧ r.LogsBloom.length = 256
  logs : IsArray v "logs" ∧ List.Forall₂ Log.Strict (v.getArray "logs") r.Logs

/-- The fields in front of the logs are read. -/
@[mk_iff]
structure Opened (v : Json) : Prop where
  sender : Present v "from"
  contractAddress : Absent v "contractAddress" ∨ Present v "contractAddress"
  transactionHash : Present v "transactionHash"
  blockHash : Present v "blockHash"
  transactionIndex : IsUint v "transactionIndex"
  blockNumber : IsUint v "blockNumber"
  gasUsed : IsUint v "gasUsed"
  status : IsUint v "status"
  cumulativeGasUsed : IsUint v "cumulativeGasUsed"
  logsBloom : ∃ bs, BytesField v "logsBloom" bs ∧ bs.length = 256

/-- The documents that are read as a receipt without an error. -/
@[mk_iff]
structure Accepted (v : Json) : Prop where
  opened : Opened v
  logs : ∀ w ∈ v.getArray "logs", Log.Accepted w

/-- What is still asked of the document of a receipt that is accepted. -/
@[mk_iff]
structure Exact (v : Json) : Prop where
  sender : ExactField 20 v "from"
  contractAddress : Absent v "contractAddress" ∨ ExactField 20 v "contractAddress"
  transactionHash : ExactField 32 v "transactionHash"
  blockHash : ExactField 32 v "blockHash"
  logs : IsArray v "logs" ∧ ∀ w ∈ v.getArray "logs", Log.Exact w

variable {v : Json} {parseLog : Log E → Option E} {a : Address}

theorem readContractAddress_eq_ok {b : Address} : readContractAddress a v = .ok b ↔
    (Absent v "contractAddress" ∧ b = a) ∨
      (¬Absent v "contractAddress" ∧ decodeAddr a v "contractAddress" = .ok b) := by
  rw [absent_iff]
  unfold readContractAddress
  split
  · next h => simp [h]
  · next h => simp [h, eq_comm]

theorem exists_readContractAddress_iff :
    (∃ b, readContractAddress a v = .ok b) ↔ Absent v "contractAddress" ∨ Present v "contractAddress" := by
  simp only [readContractAddress_eq_ok, exists_or, exists_and_left, exists_eq, and_true, exists_decodeAddr_iff]
  by_cases habsent : Absent v "contractAddress"
  · simp [habsent]
  · simp [habsent]

theorem exists_readFields_iff (r : Receipt E) : (∃ r', r.readFields v = .ok r') ↔ Opened v := by
  simp only [opened_iff, readFields, exists_do_iff, exists_pure_iff, exists_and_right, and_true, exists_decodeUint_iff,
    exists_decodeHash_iff, exists_decodeAddr_iff, exists_readContractAddress_iff, readBloom_eq_ok]

theorem exists_unmarshalJSON_iff (r : Receipt E) : (∃ r', r.unmarshalJSON parseLog v = .ok r') ↔ Accepted v := by
  simp only [accepted_iff, unmarshalJSON, exists_do_iff, exists_pure_iff, exists_and_right, and_true,
    exists_readFields_iff, exists_except_mapM_iff, Log.exists_unmarshalJSON_iff]

theorem Reads.strict_iff_exact {r r' : Receipt E} (h : Reads parseLog v r r')
    (hr : r.ContractAddress = Address.zero) : Strict v r' ↔ Exact v := by
  have hcontract : (Absent v "contractAddress" ∧ r'.ContractAddress = Address.zero) ∨
      FixedField v "contractAddress" r'.ContractAddress.1 ↔
      Absent v "contractAddress" ∨ ExactField 20 v "contractAddress" := by
    have hread := readContractAddress_eq_ok.mp h.contractAddress
    rw [hr] at hread
    exact nullable_iff (hread.imp_right fun h => ⟨h.1, decodeAddr_strict_iff h.2⟩)
  have hlogs : List.Forall₂ Log.Strict (v.getArray "logs") r'.Logs ↔ ∀ w ∈ v.getArray "logs", Log.Exact w :=
    forall₂_iff_of_mapM h.logs fun w _ l => Log.unmarshalJSON_strict_iff
  simp only [strict_iff, exact_iff, decodeAddr_strict_iff h.sender, hcontract, decodeHash_strict_iff h.transactionHash,
    decodeHash_strict_iff h.blockHash, decodeUint_eq_ok.mp h.transactionIndex,
    decodeUint_eq_ok.mp h.blockNumber, decodeUint_eq_ok.mp h.gasUsed, decodeUint_eq_ok.mp h.status,
    decodeUint_eq_ok.mp h.cumulativeGasUsed, readBloom_eq_ok.mp h.logsBloom, hlogs, true_and, and_self]

/-! ### Panics of the parser -/

/-- `unmarshalJSON`, for a registered parser of events that may panic. -/
def unmarshalJSONWith (parseLog : Log E → Except Fault E) (r : Receipt E) (v : Json) : Except Fault (Receipt E) := do
  let r ← (r.readFields v).mapError Fault.ofField
  let Logs ← (v.getArray "logs").mapM (Log.zero.unmarshalJSONWith parseLog)
  return { r with Logs }

/-- The parser does not panic on the logs of a receipt whose fields are read. -/
def Safe (parseLog : Log E → Except Fault E) (v : Json) : Prop := Opened v → Log.AllSafe parseLog (v.getArray "logs")

variable {parseLog : Log E → Except Fault E}

theorem noPanic_unmarshalJSONWith_iff (r : Receipt E) : NoPanic (r.unmarshalJSONWith parseLog v) ↔ Safe parseLog v := by
  simp only [unmarshalJSONWith, noPanic_bind, noPanic_ofField, noPanic_pure, true_and, implies_true, and_true,
    mapError_eq_ok, forall_ok_imp_iff, Log.noPanic_mapM_unmarshalJSONWith_iff, exists_readFields_iff, Safe]

theorem unmarshalJSONWith_eq (r : Receipt E) (h : Safe parseLog v) : r.unmarshalJSONWith parseLog v =
    (r.unmarshalJSON (fun l => (parseLog l).toOption) v).mapError Fault.ofField := by
  unfold unmarshalJSONWith unmarshalJSON
  cases hread : r.readFields v with
  | error e => rfl
  | ok r' =>
    have hlogs := Log.mapM_unmarshalJSONWith_eq (h ((exists_readFields_iff r).mp ⟨r', hread⟩))
    simp only [Except.mapError, bind, Except.bind, hlogs]
    cases (v.getArray "logs").mapM (Log.zero.unmarshalJSON fun l => (parseLog l).toOption) with
    | error | ok => rfl

end Receipt

/-! ## Transactions -/

namespace Wallet.Transaction

@[mk_iff]
structure Strict (v : Json) (t : Transaction) : Prop where
  hash : FixedField v "hash" t.hash.1
  sender : FixedField v "from" t.From.1
  gasPrice : UintField v "gasPrice" t.GasPrice
  gas : UintField v "gas" t.Gas
  input : BytesField v "input" t.Input
  value : ∃ n, t.Value = some n ∧ NatField v "value" n
  nonce : UintField v "nonce" t.Nonce
  recipient : (IsNull v "to" ∧ t.To = none) ∨ ∃ a, t.To = some a ∧ FixedField v "to" a.1
  sigV : BytesField v "v" t.V
  sigR : BytesField v "r" t.R
  sigS : BytesField v "s" t.S
  blockHash : (IsNull v "blockHash" ∧ t.BlockHash = Web3.Hash.zero) ∨ FixedField v "blockHash" t.BlockHash.1
  blockNumber : (IsNull v "blockNumber" ∧ t.BlockNumber = 0) ∨ UintField v "blockNumber" t.BlockNumber
  txnIndex : (IsNull v "transactionIndex" ∧ t.TxnIndex = 0) ∨ UintField v "transactionIndex" t.TxnIndex

/-- The fields in front of the signature are read. -/
@[mk_iff]
structure Opened (v : Json) : Prop where
  hash : Present v "hash"
  sender : Present v "from"
  gasPrice : IsUint v "gasPrice"
  gas : IsUint v "gas"
  input : IsBytes v "input"
  value : ∃ n, SignedField v "value" n
  nonce : IsUint v "nonce"
  recipient : IsNull v "to" ∨ Present v "to"

def Signed (v : Json) : Prop := IsBytes v "v" ∧ IsBytes v "r" ∧ IsBytes v "s"

@[mk_iff]
structure Accepted (v : Json) : Prop where
  opened : Opened v
  signed : Signed v
  blockHash : IsNull v "blockHash" ∨ Present v "blockHash"
  blockNumber : IsNull v "blockNumber" ∨ IsUint v "blockNumber"
  txnIndex : IsNull v "transactionIndex" ∨ IsUint v "transactionIndex"

@[mk_iff]
structure Exact (v : Json) : Prop where
  hash : ExactField 32 v "hash"
  sender : ExactField 20 v "from"
  value : ∃ n, NatField v "value" n
  recipient : IsNull v "to" ∨ ExactField 20 v "to"
  blockHash : IsNull v "blockHash" ∨ ExactField 32 v "blockHash"

variable {v : Json} {old : Option Address}

theorem readTo_eq_ok {to' : Option Address} : readTo old v = .ok to' ↔
    (IsNull v "to" ∧ to' = old) ∨ (¬IsNull v "to" ∧ ∃ a, to' = some a ∧ decodeAddr Address.zero v "to" = .ok a) := by
  unfold readTo IsNull
  cases hget : v.get "to" with
  | none =>
    have hread (a : Address) : decodeAddr Address.zero v "to" ≠ .ok a := by
      intro h
      have hpresent : Present v "to" := exists_decodeFixed_iff.mp ⟨a, h⟩
      exact hpresent.not_absent (.inl hget)
    simp [hread]
  | some w =>
    have hnull : w.text = "null" ↔ w = .null := Literal.null.text_eq_iff
    dsimp only
    split
    · next hne =>
      have hw : w ≠ .null := fun h => hne (hnull.mpr h)
      rw [mapError_eq_ok]
      cases decodeAddr Address.zero v "to" with
      | ok a => simp [hw, Except.map, eq_comm]
      | error e => simp [hw, Except.map]
    · next heq => simp [hnull.mp (not_not.mp heq), eq_comm]

theorem exists_readTo_iff : (∃ to', readTo old v = .ok to') ↔ IsNull v "to" ∨ Present v "to" := by
  simp only [readTo_eq_ok]
  rw [← exists_decodeAddr_iff]
  by_cases hnull : IsNull v "to"
  · simp [hnull]
  · simp only [hnull, false_and, not_false_eq_true, true_and, false_or]
    constructor
    · rintro ⟨_, a, -, ha⟩
      exact ⟨a, ha⟩
    · rintro ⟨a, ha⟩
      exact ⟨some a, a, rfl, ha⟩

theorem exists_unmarshalJSON_iff (t : Transaction) : (∃ t', t.unmarshalJSON v = .ok t') ↔ Accepted v := by
  simp only [accepted_iff, opened_iff, Signed, unmarshalJSON, exists_do_iff, exists_pure_iff, exists_and_right,
    and_true, and_assoc, mapError_eq_ok, exists_decodeHash_iff, exists_decodeAddr_iff, exists_decodeUint_iff,
    exists_readBytes_iff, exists_decodeBigInt_iff, exists_readTo_iff, exists_decodeHashOrNull_iff,
    exists_decodeUintOrNull_iff]

theorem Reads.strict_iff_exact {t t' : Transaction} (h : Reads v t t') (ht : t.To = none) :
    Strict v t' ↔ Exact v := by
  have hrecipient : ((IsNull v "to" ∧ t'.To = none) ∨ ∃ a, t'.To = some a ∧ FixedField v "to" a.1) ↔
      IsNull v "to" ∨ ExactField 20 v "to" := by
    have hread := readTo_eq_ok.mp h.recipient
    rw [ht] at hread
    refine nullable_iff (hread.imp_right fun ⟨hnull, a, hsome, ha⟩ => ⟨hnull, ?_⟩)
    rw [← decodeAddr_strict_iff ha, hsome]
    simp
  simp only [strict_iff, exact_iff, decodeHash_strict_iff h.hash, decodeAddr_strict_iff h.sender,
    decodeUint_eq_ok.mp h.gasPrice, decodeUint_eq_ok.mp h.gas, readBytes_eq_ok.mp h.input,
    decodeBigInt_strict_iff h.value, decodeUint_eq_ok.mp h.nonce, hrecipient, readBytes_eq_ok.mp h.sigV,
    readBytes_eq_ok.mp h.sigR, readBytes_eq_ok.mp h.sigS, decodeHashOrNull_strict_iff h.blockHash,
    decodeUintOrNull_eq_ok.mp h.blockNumber, decodeUintOrNull_eq_ok.mp h.txnIndex, true_and, and_true]

end Wallet.Transaction

/-! ## Blocks -/

namespace Block

def hashesOnly : List Json → Bool
  | [] => false
  | first :: _ => isString first

@[mk_iff]
structure Strict (v : Json) (b : Block) : Prop where
  hash : FixedField v "hash" b.Hash.1
  parentHash : FixedField v "parentHash" b.ParentHash.1
  sha3Uncles : FixedField v "sha3Uncles" b.Sha3Uncles.1
  transactionsRoot : FixedField v "transactionsRoot" b.TransactionsRoot.1
  stateRoot : FixedField v "stateRoot" b.StateRoot.1
  receiptsRoot : FixedField v "receiptsRoot" b.ReceiptsRoot.1
  miner : FixedField v "miner" b.Miner.1
  number : UintField v "number" b.Number
  gasLimit : UintField v "gasLimit" b.GasLimit
  gasUsed : UintField v "gasUsed" b.GasUsed
  timestamp : UintField v "timestamp" b.Timestamp
  difficulty : ∃ n, b.Difficulty = some n ∧ NatField v "difficulty" n
  extraData : BytesField v "extraData" b.ExtraData
  transactions : (List.Forall₂ HashValue (v.getArray "transactions") b.TransactionsHashes ∧ b.Transactions = []) ∨
    (b.TransactionsHashes = [] ∧ List.Forall₂ Transaction.Strict (v.getArray "transactions") b.Transactions)
  uncles : List.Forall₂ HashValue (v.getArray "uncles") b.Uncles
  arrays : (v.get "transactions" = none ∨ IsArray v "transactions") ∧ (v.get "uncles" = none ∨ IsArray v "uncles")

/-- The fields in front of the transactions are read. -/
@[mk_iff]
structure Opened (v : Json) : Prop where
  hash : Present v "hash"
  parentHash : Present v "parentHash"
  sha3Uncles : Present v "sha3Uncles"
  transactionsRoot : Present v "transactionsRoot"
  stateRoot : Present v "stateRoot"
  receiptsRoot : Present v "receiptsRoot"
  miner : Present v "miner"
  number : IsUint v "number"
  gasLimit : IsUint v "gasLimit"
  gasUsed : IsUint v "gasUsed"
  timestamp : IsUint v "timestamp"
  difficulty : ∃ n, SignedField v "difficulty" n
  extraData : IsBytes v "extraData"

@[mk_iff]
structure Accepted (v : Json) : Prop where
  opened : Opened v
  hashes : hashesOnly (v.getArray "transactions") = true → ∀ w ∈ v.getArray "transactions", LooseHash w
  transactions : hashesOnly (v.getArray "transactions") = false →
    ∀ w ∈ v.getArray "transactions", Transaction.Accepted w
  uncles : ∀ w ∈ v.getArray "uncles", LooseHash w

@[mk_iff]
structure Exact (v : Json) : Prop where
  hash : ExactField 32 v "hash"
  parentHash : ExactField 32 v "parentHash"
  sha3Uncles : ExactField 32 v "sha3Uncles"
  transactionsRoot : ExactField 32 v "transactionsRoot"
  stateRoot : ExactField 32 v "stateRoot"
  receiptsRoot : ExactField 32 v "receiptsRoot"
  miner : ExactField 20 v "miner"
  difficulty : ∃ n, NatField v "difficulty" n
  hashes : hashesOnly (v.getArray "transactions") = true → ∀ w ∈ v.getArray "transactions", ∃ h, HashValue w h
  transactions : hashesOnly (v.getArray "transactions") = false → ∀ w ∈ v.getArray "transactions", Transaction.Exact w
  uncles : ∀ w ∈ v.getArray "uncles", ∃ h, HashValue w h
  arrays : (v.get "transactions" = none ∨ IsArray v "transactions") ∧ (v.get "uncles" = none ∨ IsArray v "uncles")

variable {v : Json}

/-! ### Elements -/

theorem readHash_eq_ok {w : Json} {h : Web3.Hash} : readHash w = .ok h ↔ Log.decodeTopic w = .ok h := by
  have hempty : Web3.Hash.unmarshalText "" ≠ .ok h := by
    intro hread
    obtain ⟨cs, hcs, -⟩ := unmarshalText_eq_ok.mp hread
    simp [trimQuotes] at hcs
  rw [readHash, mapError_eq_ok]
  cases w with
  | string s => exact Iff.rfl
  | _ => exact iff_of_false hempty fun hread => (by cases hread)

variable {ws : List Json} {hs : List Web3.Hash} {ts : List Transaction}

theorem exists_mapM_readHash_iff : (∃ hs, ws.mapM readHash = .ok hs) ↔ ∀ w ∈ ws, LooseHash w := by
  rw [exists_except_mapM_iff]
  simp only [readHash_eq_ok, exists_decodeTopic_iff]

theorem mapM_readHash_strict_iff (h : ws.mapM readHash = .ok hs) :
    List.Forall₂ HashValue ws hs ↔ ∀ w ∈ ws, ∃ h, HashValue w h :=
  forall₂_iff_of_mapM h fun _ _ _ hread => hashValue_iff (readHash_eq_ok.mp hread)

theorem readTransactions_eq_ok :
    readTransactions ws = .ok (hs, ts) ↔ (hashesOnly ws = true ∧ ws.mapM readHash = .ok hs ∧ ts = []) ∨
      (hashesOnly ws = false ∧ hs = [] ∧ ws.mapM Transaction.zero.unmarshalJSON = .ok ts) := by
  cases ws with
  | nil =>
    have hnil : (Except.ok [] : Except Fault (List Transaction)) = .ok ts ↔ ts = [] := by simp [eq_comm]
    simp [readTransactions, hashesOnly, List.mapM_nil, pure, Except.pure, hnil, eq_comm]
  | cons w ws =>
    rw [readTransactions, hashesOnly]
    split
    · next hstring =>
      rw [except_do_eq_ok]
      simp only [hstring, true_and, Bool.true_eq_false, false_and, or_false]
      constructor
      · rintro ⟨hs', hread, heq⟩
        cases heq
        exact ⟨hread, rfl⟩
      · rintro ⟨hread, rfl⟩
        exact ⟨hs, hread, rfl⟩
    · next hstring =>
      rw [except_do_eq_ok]
      simp only [hstring, Bool.false_eq_true, false_and, false_or, true_and, except_mapM_eq_ok, mapError_eq_ok]
      constructor
      · rintro ⟨ts', hread, heq⟩
        cases heq
        exact ⟨rfl, hread⟩
      · rintro ⟨rfl, hread⟩
        exact ⟨ts, hread, rfl⟩

theorem exists_readTransactions_iff :
    (∃ r, readTransactions ws = .ok r) ↔ (hashesOnly ws = true → ∀ w ∈ ws, LooseHash w) ∧
      (hashesOnly ws = false → ∀ w ∈ ws, Transaction.Accepted w) := by
  have htransactions : (∃ ts, ws.mapM Transaction.zero.unmarshalJSON = .ok ts) ↔ ∀ w ∈ ws, Transaction.Accepted w := by
    rw [exists_except_mapM_iff]
    exact forall₂_congr fun w _ => Transaction.exists_unmarshalJSON_iff Transaction.zero
  rw [← htransactions, ← exists_mapM_readHash_iff, Prod.exists]
  simp only [readTransactions_eq_ok]
  cases hashesOnly ws with
  | true | false => simp

theorem exists_unmarshalJSON_iff (b : Block) : (∃ b', b.unmarshalJSON v = .ok b') ↔ Accepted v := by
  simp only [accepted_iff, opened_iff, unmarshalJSON, exists_do_iff, exists_pure_iff, exists_and_right, and_true,
    and_assoc, mapError_eq_ok, exists_decodeHash_iff, exists_decodeAddr_iff, exists_decodeUint_iff,
    exists_decodeBigInt_iff, exists_readBytes_iff, exists_mapM_readHash_iff, exists_readTransactions_iff]

theorem readTransactions_strict_iff (h : readTransactions ws = .ok (hs, ts)) :
    ((List.Forall₂ HashValue ws hs ∧ ts = []) ∨ (hs = [] ∧ List.Forall₂ Transaction.Strict ws ts)) ↔
      (hashesOnly ws = true → ∀ w ∈ ws, ∃ h, HashValue w h) ∧
      (hashesOnly ws = false → ∀ w ∈ ws, Transaction.Exact w) := by
  rcases readTransactions_eq_ok.mp h with ⟨hfirst, hread, rfl⟩ | ⟨hfirst, rfl, hread⟩
  · rw [mapM_readHash_strict_iff hread]
    simp only [hfirst, forall_const, Bool.true_eq_false, false_implies, and_true, or_iff_left_iff_imp]
    -- no element is read as a transaction
    rintro ⟨-, hnone⟩ w hw
    cases hnone
    cases hw
  · have hstrict : List.Forall₂ Transaction.Strict ws ts ↔ ∀ w ∈ ws, Transaction.Exact w :=
      forall₂_iff_of_mapM hread fun w _ t ht => (Transaction.unmarshalJSON_eq_ok.mp ht).strict_iff_exact rfl
    rw [hstrict]
    simp only [hfirst, Bool.false_eq_true, false_implies, forall_const, true_and, or_iff_right_iff_imp]
    rintro ⟨hnone, -⟩ w hw
    cases hnone
    cases hw

theorem Reads.strict_iff_exact {b b' : Block} (h : Reads v b b') : Strict v b' ↔ Exact v := by
  simp only [strict_iff, exact_iff, decodeHash_strict_iff h.hash, decodeHash_strict_iff h.parentHash,
    decodeHash_strict_iff h.sha3Uncles, decodeHash_strict_iff h.transactionsRoot, decodeHash_strict_iff h.stateRoot,
    decodeHash_strict_iff h.receiptsRoot, decodeAddr_strict_iff h.miner, decodeUint_eq_ok.mp h.number,
    decodeUint_eq_ok.mp h.gasLimit, decodeUint_eq_ok.mp h.gasUsed, decodeUint_eq_ok.mp h.timestamp,
    decodeBigInt_strict_iff h.difficulty, readBytes_eq_ok.mp h.extraData,
    readTransactions_strict_iff h.transactions, mapM_readHash_strict_iff h.uncles,
    true_and, and_assoc]

end Block

/-! ## The four types -/

section
variable {α : Type} {x : Except Fault α} {Strict : Json → α → Prop}

end

end Web3
