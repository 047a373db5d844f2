import Web3.Json.Readers
import Web3.Wallet.Signer

/-! # Transactions in JSON

`Transaction.Hash`, `MarshalRLP`, `MarshalJSON` and `UnmarshalJSON`. The hash of a transaction is kept in a field of
its own once it is computed; `MarshalJSON` asks for it. A zero nonce and an empty input are not printed. -/

namespace Web3.Wallet

namespace Transaction

def zero : Transaction where
  hash := Web3.Hash.zero
  From := Address.zero
  To := none
  Input := []
  GasPrice := 0
  Gas := 0
  Value := none
  Nonce := 0
  V := []
  R := []
  S := []
  BlockHash := Web3.Hash.zero
  BlockNumber := 0
  TxnIndex := 0

def marshalRLP (t : Transaction) : Bytes :=
  (Rlp.list [Rlp.ofNat t.Nonce.toNat, Rlp.ofNat t.GasPrice.toNat, Rlp.ofNat t.Gas.toNat, match t.To with
    | some to' => .bytes to'.1
    | none => .bytes [],
    match t.Value with
    | some value => Rlp.ofNat value.natAbs
    | none => .bytes [],
    .bytes t.Input, .bytes t.V, .bytes t.R, .bytes t.S]).encode

section
variable {Doc : Type} (keccak256 : Bytes → Web3.Hash)

/-- `Hash`, with the transaction after the call. -/
def Hash (t : Transaction) : Web3.Hash × Transaction :=
  if t.hash = Web3.Hash.zero then (keccak256 t.marshalRLP, { t with hash := keccak256 t.marshalRLP }) else (t.hash, t)

/-! ## Printing -/

def document (t : Transaction) (hash : Web3.Hash) : Json :=
  let o := []
  let o := Json.setField "hash" (.string hash.string) o
  let o := Json.setField "from" (.string t.From.string) o
  let o := Json.setOptional "input" (if t.Input ≠ [] then some (.string ("0x" ++ hexString t.Input)) else none) o
  let o := Json.setOptional "value" (t.Value.map fun value => .string ("0x" ++ hexBig (some value))) o
  let o := Json.setField "gasPrice" (.string ("0x" ++ hexNumber t.GasPrice.toNat)) o
  let o := Json.setField "gas" (.string ("0x" ++ hexNumber t.Gas.toNat)) o
  let o := Json.setOptional "nonce" (if t.Nonce ≠ 0 then some (.string ("0x" ++ hexNumber t.Nonce.toNat)) else none) o
  let o := Json.setField "to" (t.To.elim .null fun to' => .string to'.string) o
  let o := Json.setField "v" (.string ("0x" ++ hexString t.V)) o
  let o := Json.setField "r" (.string ("0x" ++ hexString t.R)) o
  let o := Json.setField "s" (.string ("0x" ++ hexString t.S)) o
  let o := Json.setField "blockHash" (.string t.BlockHash.string) o
  let o := Json.setField "blockNumber" (.string ("0x" ++ hexNumber t.BlockNumber.toNat)) o
  let o := Json.setField "transactionIndex" (.string ("0x" ++ hexNumber t.TxnIndex.toNat)) o
  .object o

def marshalJSON (fastjson : FastJson Doc) (t : Transaction) : Doc × Transaction :=
  let (hash, t) := t.Hash keccak256
  (fastjson.marshalTo (t.document hash), t)

end

/-! ## Reading -/

/-- The recipient of a receiver that has `old`, which stays if the field is null. -/
def readTo (old : Option Address) (v : Json) : Except Fault (Option Address) :=
  match v.get "to" with
  | none => .error (.error .toNotFound)
  | some vv =>
    if vv.text ≠ "null" then ((decodeAddr Address.zero v "to").map some).mapError Fault.ofField else .ok old

def unmarshalJSON (t : Transaction) (v : Json) : Except Fault Transaction := do
  let hash ← (decodeHash t.hash v "hash").mapError Fault.ofField
  let From ← (decodeAddr t.From v "from").mapError Fault.ofField
  let GasPrice ← (decodeUint v "gasPrice").mapError Fault.ofField
  let Gas ← (decodeUint v "gas").mapError Fault.ofField
  let Input ← (readBytes v "input").mapError Fault.ofField
  let Value ← (decodeBigInt v "value").mapError Fault.error
  let Nonce ← (decodeUint v "nonce").mapError Fault.ofField
  let To ← readTo t.To v
  let V ← (readBytes v "v").mapError (Fault.fatal ∘ Fault.ofField)
  let R ← (readBytes v "r").mapError (Fault.fatal ∘ Fault.ofField)
  let S ← (readBytes v "s").mapError (Fault.fatal ∘ Fault.ofField)
  let BlockHash ← (decodeHashOrNull t.BlockHash v "blockHash").mapError Fault.ofField
  let BlockNumber ← (decodeUintOrNull v "blockNumber").mapError Fault.ofField
  let TxnIndex ← (decodeUintOrNull v "transactionIndex").mapError Fault.ofField
  return { hash, From, To, Input, GasPrice, Gas, Value := some Value, Nonce, V, R, S, BlockHash, BlockNumber, TxnIndex }

def UnmarshalJSON {Doc : Type} (fastjson : FastJson Doc) (t : Transaction) (buf : Doc) : Except Fault Transaction :=
  match fastjson.parse buf with
  | none => .error (.error .json)
  | some v => t.unmarshalJSON v

structure Reads (v : Json) (t t' : Transaction) : Prop where
  hash : decodeHash t.hash v "hash" = .ok t'.hash
  sender : decodeAddr t.From v "from" = .ok t'.From
  gasPrice : decodeUint v "gasPrice" = .ok t'.GasPrice
  gas : decodeUint v "gas" = .ok t'.Gas
  input : readBytes v "input" = .ok t'.Input
  value : ∃ n, decodeBigInt v "value" = .ok n ∧ t'.Value = some n
  nonce : decodeUint v "nonce" = .ok t'.Nonce
  recipient : readTo t.To v = .ok t'.To
  sigV : readBytes v "v" = .ok t'.V
  sigR : readBytes v "r" = .ok t'.R
  sigS : readBytes v "s" = .ok t'.S
  blockHash : decodeHashOrNull t.BlockHash v "blockHash" = .ok t'.BlockHash
  blockNumber : decodeUintOrNull v "blockNumber" = .ok t'.BlockNumber
  txnIndex : decodeUintOrNull v "transactionIndex" = .ok t'.TxnIndex

variable {t t' : Transaction} {v : Json}

theorem unmarshalJSON_eq_ok : t.unmarshalJSON v = .ok t' ↔ Reads v t t' := by
  unfold unmarshalJSON
  simp only [except_do_eq_ok, mapError_eq_ok]
  constructor
  · rintro ⟨_, h1, _, h2, _, h3, _, h4, _, h5, _, h6, _, h7, _, h8, _, h9, _, h10, _, h11, _, h12, _, h13, _, h14, h⟩
    cases h
    exact ⟨h1, h2, h3, h4, h5, ⟨_, h6, rfl⟩, h7, h8, h9, h10, h11, h12, h13, h14⟩
  · rintro ⟨h1, h2, h3, h4, h5, ⟨n, h6, hn⟩, h7, h8, h9, h10, h11, h12, h13, h14⟩
    refine ⟨_, h1, _, h2, _, h3, _, h4, _, h5, _, h6, _, h7, _, h8, _, h9, _, h10, _, h11, _, h12, _, h13, _, h14, ?_⟩
    rw [← hn]
    rfl

/-! ## Round trip -/

section
variable {Doc : Type} (keccak256 : Bytes → Web3.Hash)

theorem readTo_document {to' : Option Address} (old : Option Address)
    (hv : v.get "to" = some (to'.elim .null fun to' => .string to'.string))
    (hold : to' = none → old = none) : readTo old v = .ok to' := by
  unfold readTo
  rw [hv]
  cases to' with
  | none =>
    rw [hold rfl]
    rfl
  | some a =>
    have hne : (Json.string a.string).text ≠ "null" := by
      intro h
      have hmem := quote_mem_text_string a.string
      rw [h] at hmem
      exact absurd hmem (by decide)
    dsimp only [Option.elim]
    rw [if_pos hne, decodeAddr_eq _ hv]
    rfl

/-- The fields of a printed transaction, and those that are left out. -/
structure Described (v : Json) (t : Transaction) : Prop where
  hash : v.get "hash" = some (.string t.hash.string)
  sender : v.get "from" = some (.string t.From.string)
  input : v.get "input" = if t.Input ≠ [] then some (.string ("0x" ++ hexString t.Input)) else none
  value : v.get "value" = t.Value.map fun value => .string ("0x" ++ hexBig (some value))
  gasPrice : v.get "gasPrice" = some (.string ("0x" ++ hexNumber t.GasPrice.toNat))
  gas : v.get "gas" = some (.string ("0x" ++ hexNumber t.Gas.toNat))
  nonce : v.get "nonce" = if t.Nonce ≠ 0 then some (.string ("0x" ++ hexNumber t.Nonce.toNat)) else none
  recipient : v.get "to" = some (t.To.elim .null fun to' => .string to'.string)
  sigV : v.get "v" = some (.string ("0x" ++ hexString t.V))
  sigR : v.get "r" = some (.string ("0x" ++ hexString t.R))
  sigS : v.get "s" = some (.string ("0x" ++ hexString t.S))
  blockHash : v.get "blockHash" = some (.string t.BlockHash.string)
  blockNumber : v.get "blockNumber" = some (.string ("0x" ++ hexNumber t.BlockNumber.toNat))
  txnIndex : v.get "transactionIndex" = some (.string ("0x" ++ hexNumber t.TxnIndex.toNat))

theorem described_document (t : Transaction) : Described (t.document t.hash) t := by
  constructor
  all_goals simp (disch := decide) only [document, Json.get, Json.lookup_setField_self, Json.lookup_setField_ne,
    Json.lookup_setOptional_ne]
  all_goals
    refine Json.lookup_setOptional_self _ ?_
    simp (disch := decide) only [Json.lookup_setField_ne, Json.lookup_setOptional_ne, List.lookup_nil]

theorem Described.reads (h : Described v t) {n : ℕ} (hvalue : t.Value = some (n : ℤ))
    (hnonce : t.Nonce ≠ 0) (hinput : t.Input ≠ []) : Reads v zero t where
  hash := decodeHash_eq _ h.hash
  sender := decodeAddr_eq _ h.sender
  gasPrice := decodeUint_eq h.gasPrice
  gas := decodeUint_eq h.gas
  input := readBytes_hexString (h.input.trans (if_pos hinput))
  value := ⟨n, decodeBigInt_hexBig (by rw [h.value, hvalue]; rfl), hvalue⟩
  nonce := decodeUint_eq (h.nonce.trans (if_pos hnonce))
  recipient := readTo_document _ h.recipient fun _ => rfl
  sigV := readBytes_hexString h.sigV
  sigR := readBytes_hexString h.sigR
  sigS := readBytes_hexString h.sigS
  blockHash := by
    rw [decodeHashOrNull, h.blockHash]
    exact decodeHash_eq _ h.blockHash
  blockNumber := by
    rw [decodeUintOrNull, h.blockNumber]
    exact decodeUint_eq h.blockNumber
  txnIndex := by
    rw [decodeUintOrNull, h.txnIndex]
    exact decodeUint_eq h.txnIndex

theorem Described.printed {r : Transaction} (h : Described v t) (hreads : Reads v r t') :
    t.Nonce ≠ 0 ∧ t.Input ≠ [] := by
  constructor
  · intro hzero
    have hmissing : v.get "nonce" = none := by rw [h.nonce, if_neg (not_not.mpr hzero)]
    have hread := hreads.nonce
    rw [decodeUint, fieldText, hmissing] at hread
    cases hread
  · intro hempty
    have hmissing : v.get "input" = none := by rw [h.input, if_neg (not_not.mpr hempty)]
    have hread := hreads.input
    rw [readBytes, decodeBytes, fieldText, hmissing] at hread
    cases hread

theorem Hash_snd (t : Transaction) : (t.Hash keccak256).2 = { t with hash := (t.Hash keccak256).1 } := by
  unfold Hash
  split <;> rfl

theorem marshalRLP_with_hash (t : Transaction) (hash : Web3.Hash) : marshalRLP { t with hash := hash } = t.marshalRLP := rfl

theorem Hash_with_hash (t : Transaction) :
    (Hash keccak256 { t with hash := (t.Hash keccak256).1 }).1 = (t.Hash keccak256).1 := by
  rw [Hash, marshalRLP_with_hash]
  dsimp only
  split
  · next hzero =>
    rw [hzero]
    unfold Hash at hzero
    split at hzero
    · exact hzero
    · next hne => exact absurd hzero hne
  · rfl

theorem UnmarshalJSON_marshalJSON_iff (fastjson : FastJson Doc) (t : Transaction) {n : ℕ}
    (hvalue : t.Value = some (n : ℤ)) :
    (∃ t', zero.UnmarshalJSON fastjson (t.marshalJSON keccak256 fastjson).1 = .ok t' ∧
      t' = { t with hash := (t.Hash keccak256).1 } ∧ (t'.Hash keccak256).1 = (t.Hash keccak256).1) ↔
    t.Nonce ≠ 0 ∧ t.Input ≠ [] := by
  have hdoc : (t.marshalJSON keccak256 fastjson).1 =
      fastjson.marshalTo (document { t with hash := (t.Hash keccak256).1 } (t.Hash keccak256).1) := by
    rw [← Hash_snd]
    rfl
  have hdescribed := described_document { t with hash := (t.Hash keccak256).1 }
  have hread (t' : Transaction) : zero.UnmarshalJSON fastjson (t.marshalJSON keccak256 fastjson).1 = .ok t' ↔
      Reads (document { t with hash := (t.Hash keccak256).1 } (t.Hash keccak256).1) zero t' := by
    rw [UnmarshalJSON, hdoc, fastjson.parse_marshal]
    exact unmarshalJSON_eq_ok
  constructor
  · rintro ⟨t', ht', -, -⟩
    exact hdescribed.printed ((hread t').mp ht')
  · rintro ⟨hnonce, hinput⟩
    exact ⟨_, (hread _).mpr (hdescribed.reads hvalue hnonce hinput), rfl, Hash_with_hash keccak256 t⟩

end

theorem UnmarshalJSON_marshalJSON_iff_sample : ∃ t', zero.UnmarshalJSON FastJson.ofValues
        (marshalJSON (fun _ => Web3.Hash.zero) FastJson.ofValues { sampleTransaction with Nonce := 1 }).1 = .ok t' ∧
      t' = { sampleTransaction with Nonce := 1 } ∧ (t'.Hash fun _ => Web3.Hash.zero).1 = Web3.Hash.zero :=
  (UnmarshalJSON_marshalJSON_iff (fun _ => Web3.Hash.zero) FastJson.ofValues { sampleTransaction with Nonce := 1 }
    (n := 7) rfl).mpr ⟨by decide, by decide⟩

/-- The first transaction of an account cannot be read. -/
theorem UnmarshalJSON_marshalJSON_first : ¬∃ t', zero.UnmarshalJSON FastJson.ofValues
      (marshalJSON (fun _ => Web3.Hash.zero) FastJson.ofValues sampleTransaction).1 = .ok t' := by
  rintro ⟨t', ht'⟩
  have hreads : Reads (sampleTransaction.document sampleTransaction.hash) zero t' := unmarshalJSON_eq_ok.mp ht'
  exact ((described_document sampleTransaction).printed hreads).1 rfl

end Transaction
end Web3.Wallet
