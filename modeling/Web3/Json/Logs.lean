import Web3.Json.Values

/-! # Logs in JSON

`Log.MarshalJSON` and `Log.UnmarshalJSON`. An event is printed and not read: `UnmarshalJSON` asks the
registered parser of events for it. -/

namespace Web3

variable {E Doc : Type}

/-- `web3.Log`, with its event of type `E`. A nil `Data` is `none`; nothing tells nil `Topics` from empty ones. -/
structure Log (E : Type) where
  Removed : Bool
  LogIndex : UInt64
  TransactionIndex : UInt64
  TransactionHash : Hash
  BlockHash : Hash
  BlockNumber : UInt64
  Address : Web3.Address
  Topics : List Hash
  Data : Option Bytes
  Event : Option E
  deriving DecidableEq

namespace Log

def zero : Log E where
  Removed := false
  LogIndex := 0
  TransactionIndex := 0
  TransactionHash := Hash.zero
  BlockHash := Hash.zero
  BlockNumber := 0
  Address := Address.zero
  Topics := []
  Data := none
  Event := none

def bare (l : Log E) : Log E := { l with Data := some (l.Data.getD []), Event := none }

/-- The logs have the same fields, except for their events. -/
def Same (l l' : Log E) : Prop := l.bare = l'.bare

instance [DecidableEq E] (l l' : Log E) : Decidable (l.Same l') := inferInstanceAs (Decidable (l.bare = l'.bare))

variable {l : Log E}

theorem Same.rfl : l.Same l := Eq.refl _

/-! ## Printing -/

section Printing
-- what `json.Marshal` gives for an event, as a value
variable (marshalEvent : E → Option Json)

def document (l : Log E) : Json :=
  let o := []
  let o := Json.setField "removed" (.bool l.Removed) o
  let o := Json.setField "logIndex" (.string ("0x" ++ hexNumber l.LogIndex.toNat)) o
  let o := Json.setField "transactionIndex" (.string ("0x" ++ hexNumber l.TransactionIndex.toNat)) o
  let o := Json.setField "transactionHash" (.string l.TransactionHash.string) o
  let o := Json.setField "blockHash" (.string l.BlockHash.string) o
  let o := Json.setField "blockNumber" (.string ("0x" ++ hexNumber l.BlockNumber.toNat)) o
  let o := Json.setField "address" (.string l.Address.string) o
  let o := Json.setOptional "event" (l.Event.bind marshalEvent) o
  let o := Json.setField "data" (.string ("0x" ++ hexString (l.Data.getD []))) o
  let o := Json.setField "topics" (.array (l.Topics.map fun topic => .string topic.string)) o
  .object o

def marshalJSON (fastjson : FastJson Doc) (l : Log E) : Doc := fastjson.marshalTo (l.document marshalEvent)

end Printing

/-! ## Reading -/

def decodeTopic : Json → Except DecodeError Hash
  | .string s => Hash.unmarshalText s
  | _ => .error .notString

/-- The fields of a log, in the order in which they are read. -/
def readFields (r : Log E) (v : Json) : Except DecodeError (Log E) := do
  let Removed ← decodeBool v "removed"
  let LogIndex ← decodeUint v "logIndex"
  let BlockNumber ← decodeUint v "blockNumber"
  let TransactionIndex ← decodeUint v "transactionIndex"
  let TransactionHash ← decodeHash r.TransactionHash v "transactionHash"
  let BlockHash ← decodeHash r.BlockHash v "blockHash"
  let Address ← decodeAddr r.Address v "address"
  let Data ← decodeBytes (r.Data.map fun _ => []) v "data" none
  let Topics ← (v.getArray "topics").mapM decodeTopic
  return { r with Removed, LogIndex, BlockNumber, TransactionIndex, TransactionHash, BlockHash, Address, Data, Topics }

section Reading
-- the registered parser of events, which returns; `Json/Strictness` has a parser that may panic
variable (parseLog : Log E → Option E)

/-- `ParseEvent`: a log that cannot be parsed keeps the event that it has. -/
def parseEvent (r : Log E) : Log E :=
  match parseLog r with
  | some parsed => { r with Event := some parsed }
  | none => r

def unmarshalJSON (r : Log E) (v : Json) : Except DecodeError (Log E) := do
  let r ← r.readFields v
  return parseEvent parseLog r

def UnmarshalJSON (fastjson : FastJson Doc) (r : Log E) (buf : Doc) : Except DecodeError (Log E) :=
  match fastjson.parse buf with
  -- the error of the parser is not returned
  | none => .ok r
  | some v => unmarshalJSON parseLog r v

end Reading

/-! ## Round trip -/

variable (marshalEvent : E → Option Json) (parseLog : Log E → Option E)

theorem decodeTopic_string (topic : Hash) : decodeTopic (.string topic.string) = .ok topic := unmarshalText_hash topic

theorem mapM_decodeTopic (topics : List Hash) :
    (topics.map fun topic => Json.string topic.string).mapM decodeTopic = .ok topics := by
  induction topics with
  | nil => rfl
  | cons topic topics ih =>
    rw [List.map_cons, List.mapM_cons, ih, decodeTopic_string]
    rfl

structure Described (v : Json) (l : Log E) : Prop where
  removed : v.get "removed" = some (.bool l.Removed)
  logIndex : v.get "logIndex" = some (.string ("0x" ++ hexNumber l.LogIndex.toNat))
  transactionIndex : v.get "transactionIndex" = some (.string ("0x" ++ hexNumber l.TransactionIndex.toNat))
  transactionHash : v.get "transactionHash" = some (.string l.TransactionHash.string)
  blockHash : v.get "blockHash" = some (.string l.BlockHash.string)
  blockNumber : v.get "blockNumber" = some (.string ("0x" ++ hexNumber l.BlockNumber.toNat))
  address : v.get "address" = some (.string l.Address.string)
  data : v.get "data" = some (.string ("0x" ++ hexString (l.Data.getD [])))
  topics : v.getArray "topics" = l.Topics.map fun topic => .string topic.string

theorem described_document (l : Log E) : Described (l.document marshalEvent) l := by
  constructor
  all_goals simp (disch := decide) only [document, Json.getArray, Json.get, Json.lookup_setField_self,
    Json.lookup_setField_ne, Json.lookup_setOptional_ne]

theorem Described.unmarshalJSON {v : Json} (h : Described v l) (r : Log E) :
    Log.unmarshalJSON parseLog r v = .ok (parseEvent parseLog
      { l with Data := appendBytes (r.Data.map fun _ => []) (l.Data.getD []), Event := r.Event }) := by
  unfold Log.unmarshalJSON Log.readFields
  rw [decodeBool_eq h.removed, decodeUint_eq h.logIndex, decodeUint_eq h.blockNumber,
    decodeUint_eq h.transactionIndex, decodeHash_eq _ h.transactionHash, decodeHash_eq _ h.blockHash,
    decodeAddr_eq _ h.address, decodeBytes_eq _ h.data, h.topics, mapM_decodeTopic]
  rfl

theorem getD_appendBytes (dst : Option Bytes) (buf : Bytes) :
    (appendBytes (dst.map fun _ => []) buf).getD [] = buf := by
  unfold appendBytes
  split
  next h => cases dst <;> simp [h]
  · cases dst <;> simp

theorem bare_parseEvent (r : Log E) : (parseEvent parseLog r).bare = r.bare := by
  unfold parseEvent
  split <;> rfl

theorem UnmarshalJSON_marshalJSON (fastjson : FastJson Doc) (l r : Log E) :
    ∃ l', r.UnmarshalJSON parseLog fastjson (l.marshalJSON marshalEvent fastjson) = .ok l' ∧ l'.Same l := by
  refine ⟨parseEvent parseLog { l with
    Data := appendBytes (r.Data.map fun _ => []) (l.Data.getD []), Event := r.Event }, ?_, ?_⟩
  · rw [UnmarshalJSON, marshalJSON, fastjson.parse_marshal]
    exact (described_document marshalEvent l).unmarshalJSON parseLog r
  · rw [Same, bare_parseEvent, bare, getD_appendBytes]
    rfl

end Log
end Web3
