import Web3.Json.Logs
import Web3.Json.Transactions

/-! # Blocks in JSON

`Block.MarshalJSON` and `Block.UnmarshalJSON`. The transactions of a block are not printed. They are read as hashes or
as whole transactions, as the first of them is; a transaction that cannot be read is a panic. -/

namespace Web3
open Wallet (Transaction)

/-- `web3.Block`. A nil `Difficulty` is `none`. -/
structure Block where
  Number : UInt64
  Hash : Web3.Hash
  ParentHash : Web3.Hash
  Sha3Uncles : Web3.Hash
  TransactionsRoot : Web3.Hash
  StateRoot : Web3.Hash
  ReceiptsRoot : Web3.Hash
  Miner : Address
  Difficulty : Option ℤ
  ExtraData : Bytes
  GasLimit : UInt64
  GasUsed : UInt64
  Timestamp : UInt64
  Transactions : List Transaction
  TransactionsHashes : List Web3.Hash
  Uncles : List Web3.Hash
  deriving DecidableEq

namespace Block

def zero : Block where
  Number := 0
  Hash := Web3.Hash.zero
  ParentHash := Web3.Hash.zero
  Sha3Uncles := Web3.Hash.zero
  TransactionsRoot := Web3.Hash.zero
  StateRoot := Web3.Hash.zero
  ReceiptsRoot := Web3.Hash.zero
  Miner := Address.zero
  Difficulty := none
  ExtraData := []
  GasLimit := 0
  GasUsed := 0
  Timestamp := 0
  Transactions := []
  TransactionsHashes := []
  Uncles := []

/-! ## Printing -/

def document (t : Block) : Json :=
  let o := []
  let o := Json.setField "number" (.string ("0x" ++ hexNumber t.Number.toNat)) o
  let o := Json.setField "hash" (.string t.Hash.string) o
  let o := Json.setField "parentHash" (.string t.ParentHash.string) o
  let o := Json.setField "sha3Uncles" (.string t.Sha3Uncles.string) o
  let o := Json.setField "transactionsRoot" (.string t.TransactionsRoot.string) o
  let o := Json.setField "stateRoot" (.string t.StateRoot.string) o
  let o := Json.setField "receiptsRoot" (.string t.ReceiptsRoot.string) o
  let o := Json.setField "miner" (.string t.Miner.string) o
  let o := Json.setField "gasLimit" (.string ("0x" ++ hexNumber t.GasLimit.toNat)) o
  let o := Json.setField "gasUsed" (.string ("0x" ++ hexNumber t.GasUsed.toNat)) o
  let o := Json.setField "timestamp" (.string ("0x" ++ hexNumber t.Timestamp.toNat)) o
  let o := Json.setField "difficulty" (.string ("0x" ++ hexBig t.Difficulty)) o
  let o := Json.setField "extraData" (.string ("0x" ++ hexString t.ExtraData)) o
  let o := Json.setOptional "uncles"
    (if t.Uncles ≠ [] then some (.array (t.Uncles.map fun uncle => .string uncle.string)) else none) o
  .object o

def marshalJSON {Doc : Type} (fastjson : FastJson Doc) (t : Block) : Doc := fastjson.marshalTo t.document

/-! ## Reading -/

def stringBytes : Json → String
  | .string s => s
  | _ => ""

def readHash (elem : Json) : Except Fault Web3.Hash := (Web3.Hash.unmarshalText (stringBytes elem)).mapError Fault.ofField

def isString : Json → Bool
  | .string _ => true
  | _ => false

def readTransactions (elems : List Json) : Except Fault (List Web3.Hash × List Transaction) :=
  match elems with
  | [] => .ok ([], [])
  | first :: _ =>
    if isString first then do
      let hashes ← elems.mapM readHash
      return (hashes, [])
    else do
      let txns ← elems.mapM fun elem => (Transaction.zero.unmarshalJSON elem).mapError Fault.fatal
      return ([], txns)

def unmarshalJSON (b : Block) (v : Json) : Except Fault Block := do
  let Hash ← (decodeHash b.Hash v "hash").mapError Fault.ofField
  let ParentHash ← (decodeHash b.ParentHash v "parentHash").mapError Fault.ofField
  let Sha3Uncles ← (decodeHash b.Sha3Uncles v "sha3Uncles").mapError Fault.ofField
  let TransactionsRoot ← (decodeHash b.TransactionsRoot v "transactionsRoot").mapError Fault.ofField
  let StateRoot ← (decodeHash b.StateRoot v "stateRoot").mapError Fault.ofField
  let ReceiptsRoot ← (decodeHash b.ReceiptsRoot v "receiptsRoot").mapError Fault.ofField
  let Miner ← (decodeAddr b.Miner v "miner").mapError Fault.ofField
  let Number ← (decodeUint v "number").mapError Fault.ofField
  let GasLimit ← (decodeUint v "gasLimit").mapError Fault.ofField
  let GasUsed ← (decodeUint v "gasUsed").mapError Fault.ofField
  let Timestamp ← (decodeUint v "timestamp").mapError Fault.ofField
  let Difficulty ← (decodeBigInt v "difficulty").mapError Fault.error
  let ExtraData ← (readBytes v "extraData").mapError Fault.ofField
  let (TransactionsHashes, Transactions) ← readTransactions (v.getArray "transactions")
  let Uncles ← (v.getArray "uncles").mapM readHash
  return { Number, Hash, ParentHash, Sha3Uncles, TransactionsRoot, StateRoot, ReceiptsRoot, Miner,
           Difficulty := some Difficulty, ExtraData, GasLimit, GasUsed, Timestamp, Transactions, TransactionsHashes,
           Uncles }

def UnmarshalJSON {Doc : Type} (fastjson : FastJson Doc) (b : Block) (buf : Doc) : Except Fault Block :=
  match fastjson.parse buf with
  | none => .error (.error .json)
  | some v => b.unmarshalJSON v

structure Reads (v : Json) (b b' : Block) : Prop where
  hash : decodeHash b.Hash v "hash" = .ok b'.Hash
  parentHash : decodeHash b.ParentHash v "parentHash" = .ok b'.ParentHash
  sha3Uncles : decodeHash b.Sha3Uncles v "sha3Uncles" = .ok b'.Sha3Uncles
  transactionsRoot : decodeHash b.TransactionsRoot v "transactionsRoot" = .ok b'.TransactionsRoot
  stateRoot : decodeHash b.StateRoot v "stateRoot" = .ok b'.StateRoot
  receiptsRoot : decodeHash b.ReceiptsRoot v "receiptsRoot" = .ok b'.ReceiptsRoot
  miner : decodeAddr b.Miner v "miner" = .ok b'.Miner
  number : decodeUint v "number" = .ok b'.Number
  gasLimit : decodeUint v "gasLimit" = .ok b'.GasLimit
  gasUsed : decodeUint v "gasUsed" = .ok b'.GasUsed
  timestamp : decodeUint v "timestamp" = .ok b'.Timestamp
  difficulty : ∃ n, decodeBigInt v "difficulty" = .ok n ∧ b'.Difficulty = some n
  extraData : readBytes v "extraData" = .ok b'.ExtraData
  transactions : readTransactions (v.getArray "transactions") = .ok (b'.TransactionsHashes, b'.Transactions)
  uncles : (v.getArray "uncles").mapM readHash = .ok b'.Uncles

variable {b : Block} {v : Json}

theorem unmarshalJSON_eq_ok {b' : Block} : b.unmarshalJSON v = .ok b' ↔ Reads v b b' := by
  unfold unmarshalJSON
  simp only [except_do_eq_ok, mapError_eq_ok]
  constructor
  · rintro ⟨_, h1, _, h2, _, h3, _, h4, _, h5, _, h6, _, h7, _, h8, _, h9, _, h10, _, h11, _, h12, _, h13, _, h14, _, h15, h⟩
    cases h
    exact ⟨h1, h2, h3, h4, h5, h6, h7, h8, h9, h10, h11, ⟨_, h12, rfl⟩, h13, h14, h15⟩
  · rintro ⟨h1, h2, h3, h4, h5, h6, h7, h8, h9, h10, h11, ⟨n, h12, hn⟩, h13, h14, h15⟩
    refine ⟨_, h1, _, h2, _, h3, _, h4, _, h5, _, h6, _, h7, _, h8, _, h9, _, h10, _, h11, _, h12, _, h13, _, h14, _, h15, ?_⟩
    rw [← hn]
    rfl

/-! ## Round trip -/

def header (b : Block) : Block := { b with Transactions := [], TransactionsHashes := [] }

structure Described (v : Json) (b : Block) : Prop where
  number : v.get "number" = some (.string ("0x" ++ hexNumber b.Number.toNat))
  hash : v.get "hash" = some (.string b.Hash.string)
  parentHash : v.get "parentHash" = some (.string b.ParentHash.string)
  sha3Uncles : v.get "sha3Uncles" = some (.string b.Sha3Uncles.string)
  transactionsRoot : v.get "transactionsRoot" = some (.string b.TransactionsRoot.string)
  stateRoot : v.get "stateRoot" = some (.string b.StateRoot.string)
  receiptsRoot : v.get "receiptsRoot" = some (.string b.ReceiptsRoot.string)
  miner : v.get "miner" = some (.string b.Miner.string)
  gasLimit : v.get "gasLimit" = some (.string ("0x" ++ hexNumber b.GasLimit.toNat))
  gasUsed : v.get "gasUsed" = some (.string ("0x" ++ hexNumber b.GasUsed.toNat))
  timestamp : v.get "timestamp" = some (.string ("0x" ++ hexNumber b.Timestamp.toNat))
  difficulty : v.get "difficulty" = some (.string ("0x" ++ hexBig b.Difficulty))
  extraData : v.get "extraData" = some (.string ("0x" ++ hexString b.ExtraData))
  transactions : v.get "transactions" = none
  uncles : v.get "uncles" =
    if b.Uncles ≠ [] then some (.array (b.Uncles.map fun uncle => .string uncle.string)) else none

theorem described_document (b : Block) : Described b.document b := by
  constructor
  all_goals simp (disch := decide) only [document, Json.get, Json.lookup_setField_self, Json.lookup_setField_ne,
    Json.lookup_setOptional_ne, List.lookup_nil]
  refine Json.lookup_setOptional_self _ ?_
  simp (disch := decide) only [Json.lookup_setField_ne, List.lookup_nil]

theorem mapM_readHash (hashes : List Web3.Hash) :
    (hashes.map fun hash => Json.string hash.string).mapM readHash = .ok hashes := by
  rw [except_mapM_eq_ok, List.forall₂_map_left_iff]
  refine List.forall₂_same.mpr fun hash _ => ?_
  rw [readHash, mapError_eq_ok]
  exact unmarshalText_hash hash

theorem Described.reads (h : Described v b) {n : ℕ} (hdifficulty : b.Difficulty = some (n : ℤ)) :
    Reads v zero b.header where
  hash := decodeHash_eq _ h.hash
  parentHash := decodeHash_eq _ h.parentHash
  sha3Uncles := decodeHash_eq _ h.sha3Uncles
  transactionsRoot := decodeHash_eq _ h.transactionsRoot
  stateRoot := decodeHash_eq _ h.stateRoot
  receiptsRoot := decodeHash_eq _ h.receiptsRoot
  miner := decodeAddr_eq _ h.miner
  number := decodeUint_eq h.number
  gasLimit := decodeUint_eq h.gasLimit
  gasUsed := decodeUint_eq h.gasUsed
  timestamp := decodeUint_eq h.timestamp
  difficulty := ⟨n, decodeBigInt_hexBig (by rw [h.difficulty, hdifficulty]), hdifficulty⟩
  extraData := readBytes_hexString h.extraData
  transactions := by
    rw [Json.getArray, h.transactions]
    rfl
  uncles := by
    have huncles : v.getArray "uncles" = b.Uncles.map fun uncle => .string uncle.string := by
      rw [Json.getArray, h.uncles]
      split
      · next vs heq =>
        split at heq
        · cases heq
          rfl
        · cases heq
      · next hnone =>
        by_cases hempty : b.Uncles = []
        · rw [hempty]
          rfl
        · exact absurd (if_pos hempty) (hnone _)
    rw [huncles]
    exact mapM_readHash b.Uncles

end Block

/-- **Logs and block headers are read back from JSON.** -/
theorem json_roundtrip {E Doc : Type} (fastjson : FastJson Doc) (marshalEvent : E → Option Json)
    (parseLog : Log E → Option E) :
    (∀ l : Log E, ∃ l', Log.zero.UnmarshalJSON parseLog fastjson (l.marshalJSON marshalEvent fastjson) = .ok l' ∧
      l'.Same l) ∧
    ∀ (b : Block) (n : ℕ), b.Difficulty = some (n : ℤ) →
      ∃ b', Block.zero.UnmarshalJSON fastjson (b.marshalJSON fastjson) = .ok b' ∧ b'.header = b.header := by
  constructor
  · exact fun l => Log.UnmarshalJSON_marshalJSON marshalEvent parseLog fastjson l Log.zero
  · intro b n hdifficulty
    refine ⟨b.header, ?_, rfl⟩
    rw [Block.UnmarshalJSON, Block.marshalJSON, fastjson.parse_marshal]
    exact Block.unmarshalJSON_eq_ok.mpr ((Block.described_document b).reads hdifficulty)

def sampleLog : Log Unit := { Log.zero with LogIndex := 5, Topics := [bytesToHash [3], Hash.zero], Data := some [1] }

def sampleBlock : Block := { Block.zero with Difficulty := some 17, Uncles := [Hash.zero] }

theorem json_roundtrip_sample : (∃ l', Log.zero.UnmarshalJSON (fun _ => none) FastJson.ofValues
      (sampleLog.marshalJSON (fun _ => none) FastJson.ofValues) = .ok l' ∧ l'.Same sampleLog) ∧
    ∃ b', Block.zero.UnmarshalJSON FastJson.ofValues (sampleBlock.marshalJSON FastJson.ofValues) = .ok b' ∧
      b'.header = sampleBlock :=
  ⟨(json_roundtrip FastJson.ofValues (fun _ => none) (fun _ => none)).1 sampleLog,
    (json_roundtrip (E := Unit) FastJson.ofValues (fun _ => none) (fun _ => none)).2 sampleBlock 17 rfl⟩

end Web3
