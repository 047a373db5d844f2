import Web3.Json.Logs
import Web3.Json.Readers

/-! # Receipts in JSON

`Receipt.UnmarshalJSON`, and `Log.unmarshalJSON` by what it reads. The address of a created contract is read if it is
there and not null. -/

namespace Web3

variable {E Doc : Type}

namespace Log

structure Reads (v : Json) (r l : Log E) : Prop where
  removed : decodeBool v "removed" = .ok l.Removed
  logIndex : decodeUint v "logIndex" = .ok l.LogIndex
  blockNumber : decodeUint v "blockNumber" = .ok l.BlockNumber
  transactionIndex : decodeUint v "transactionIndex" = .ok l.TransactionIndex
  transactionHash : decodeHash r.TransactionHash v "transactionHash" = .ok l.TransactionHash
  blockHash : decodeHash r.BlockHash v "blockHash" = .ok l.BlockHash
  address : decodeAddr r.Address v "address" = .ok l.Address
  data : decodeBytes (r.Data.map fun _ => []) v "data" none = .ok l.Data
  topics : (v.getArray "topics").mapM decodeTopic = .ok l.Topics
  event : l.Event = r.Event

theorem readFields_eq_ok {r l : Log E} {v : Json} : r.readFields v = .ok l ↔ Reads v r l := by
  unfold readFields
  simp only [except_do_eq_ok]
  constructor
  · rintro ⟨_, h1, _, h2, _, h3, _, h4, _, h5, _, h6, _, h7, _, h8, _, h9, h⟩
    cases h
    exact ⟨h1, h2, h3, h4, h5, h6, h7, h8, h9, rfl⟩
  · rintro ⟨h1, h2, h3, h4, h5, h6, h7, h8, h9, h10⟩
    refine ⟨_, h1, _, h2, _, h3, _, h4, _, h5, _, h6, _, h7, _, h8, _, h9, ?_⟩
    rw [← h10]
    rfl

theorem unmarshalJSON_eq_ok {parseLog : Log E → Option E} {r r' : Log E} {v : Json} :
    r.unmarshalJSON parseLog v = .ok r' ↔ ∃ l, Reads v r l ∧ r' = parseEvent parseLog l := by
  simp only [unmarshalJSON, except_do_eq_ok, readFields_eq_ok]
  refine exists_congr fun l => and_congr_right fun _ => ?_
  constructor
  · intro h
    cases h
    rfl
  · rintro rfl
    rfl

end Log

structure Receipt (E : Type) where
  Status : UInt64
  TransactionHash : Hash
  TransactionIndex : UInt64
  ContractAddress : Address
  BlockHash : Hash
  From : Address
  BlockNumber : UInt64
  GasUsed : UInt64
  CumulativeGasUsed : UInt64
  LogsBloom : Bytes
  Logs : List (Log E)

namespace Receipt

def zero : Receipt E where
  Status := 0
  TransactionHash := Hash.zero
  TransactionIndex := 0
  ContractAddress := Address.zero
  BlockHash := Hash.zero
  From := Address.zero
  BlockNumber := 0
  GasUsed := 0
  CumulativeGasUsed := 0
  LogsBloom := []
  Logs := []

def readBloom (v : Json) : Except DecodeError Bytes :=
  (decodeBytes none v "logsBloom" (some 256)).map fun dst => dst.getD []

def readContractAddress (old : Address) (v : Json) : Except DecodeError Address :=
  if fieldNotFull v "contractAddress" then decodeAddr old v "contractAddress" else .ok old

/-- The fields of a receipt, in the order in which they are read. -/
def readFields (r : Receipt E) (v : Json) : Except DecodeError (Receipt E) := do
  let From ← decodeAddr r.From v "from"
  let ContractAddress ← readContractAddress r.ContractAddress v
  let TransactionHash ← decodeHash r.TransactionHash v "transactionHash"
  let BlockHash ← decodeHash r.BlockHash v "blockHash"
  let TransactionIndex ← decodeUint v "transactionIndex"
  let BlockNumber ← decodeUint v "blockNumber"
  let GasUsed ← decodeUint v "gasUsed"
  let Status ← decodeUint v "status"
  let CumulativeGasUsed ← decodeUint v "cumulativeGasUsed"
  let LogsBloom ← readBloom v
  return { r with From, ContractAddress, TransactionHash, BlockHash, TransactionIndex, BlockNumber, GasUsed, Status,
                  CumulativeGasUsed, LogsBloom }

variable (parseLog : Log E → Option E)

def unmarshalJSON (r : Receipt E) (v : Json) : Except DecodeError (Receipt E) := do
  let r ← r.readFields v
  let Logs ← (v.getArray "logs").mapM (Log.zero.unmarshalJSON parseLog)
  return { r with Logs }

def UnmarshalJSON (fastjson : FastJson Doc) (r : Receipt E) (buf : Doc) : Except DecodeError (Receipt E) :=
  match fastjson.parse buf with
  -- the error of the parser is not returned
  | none => .ok r
  | some v => r.unmarshalJSON parseLog v

structure Reads (v : Json) (r r' : Receipt E) : Prop where
  sender : decodeAddr r.From v "from" = .ok r'.From
  contractAddress : readContractAddress r.ContractAddress v = .ok r'.ContractAddress
  transactionHash : decodeHash r.TransactionHash v "transactionHash" = .ok r'.TransactionHash
  blockHash : decodeHash r.BlockHash v "blockHash" = .ok r'.BlockHash
  transactionIndex : decodeUint v "transactionIndex" = .ok r'.TransactionIndex
  blockNumber : decodeUint v "blockNumber" = .ok r'.BlockNumber
  gasUsed : decodeUint v "gasUsed" = .ok r'.GasUsed
  status : decodeUint v "status" = .ok r'.Status
  cumulativeGasUsed : decodeUint v "cumulativeGasUsed" = .ok r'.CumulativeGasUsed
  logsBloom : readBloom v = .ok r'.LogsBloom
  logs : (v.getArray "logs").mapM (Log.zero.unmarshalJSON parseLog) = .ok r'.Logs

variable {parseLog} {v : Json}

theorem unmarshalJSON_eq_ok {r r' : Receipt E} : r.unmarshalJSON parseLog v = .ok r' ↔ Reads parseLog v r r' := by
  unfold unmarshalJSON readFields
  simp only [except_do_eq_ok]
  constructor
  · rintro ⟨_, ⟨_, h1, _, h2, _, h3, _, h4, _, h5, _, h6, _, h7, _, h8, _, h9, _, h10, hr⟩, _, h11, h⟩
    cases hr
    cases h
    exact ⟨h1, h2, h3, h4, h5, h6, h7, h8, h9, h10, h11⟩
  · rintro ⟨h1, h2, h3, h4, h5, h6, h7, h8, h9, h10, h11⟩
    exact ⟨_, ⟨_, h1, _, h2, _, h3, _, h4, _, h5, _, h6, _, h7, _, h8, _, h9, _, h10, rfl⟩, _, h11, rfl⟩

theorem readBloom_eq_ok {bs : Bytes} : readBloom v = .ok bs ↔ BytesField v "logsBloom" bs ∧ bs.length = 256 := by
  have hmap : readBloom v = .ok bs ↔ ∃ r, decodeBytes none v "logsBloom" (some 256) = .ok r ∧ r.getD [] = bs := by
    rw [readBloom]
    cases decodeBytes none v "logsBloom" (some 256) with
    | error | ok => simp [Except.map]
  rw [hmap]
  simp only [decodeBytes_eq_ok]
  constructor
  · rintro ⟨r, ⟨bs, hbs, hlen, rfl⟩, rfl⟩
    rw [getD_appendBytes_none]
    exact ⟨hbs, hlen 256 rfl⟩
  · rintro ⟨hbs, hlen⟩
    refine ⟨_, ⟨bs, hbs, fun n h => ?_, rfl⟩, getD_appendBytes_none bs⟩
    cases h
    exact hlen

end Receipt
end Web3
