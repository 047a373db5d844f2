import Web3.Json.Values

/-! # Filters in JSON

What `LogFilter.MarshalJSON` sends. The array that it builds for several addresses is not set in the
object. -/

namespace Web3

variable {Doc : Type}

abbrev BlockNumber := Int64

/-- The text of a block number; other negative numbers are a panic. -/
def blockString (b : BlockNumber) : Option String :=
  if b = -1 then some "latest"
  else if b = -2 then some "earliest"
  else if b = -3 then some "pending"
  else if b < 0 then none
  else some ("0x" ++ hexNumber b.toInt.toNat)

/-- `web3.LogFilter`. A nil list of topics is `none`. -/
structure LogFilter where
  BlockHash : Option Hash
  From : Option BlockNumber
  To : Option BlockNumber
  Address : List Web3.Address
  Topics : List (Option (List Hash))
  deriving DecidableEq

namespace LogFilter

def topicValue : Option (List Hash) → Json
  | none => .null
  | some topic => .array (topic.map fun item => .string item.string)

def boundValue : Option BlockNumber → Option (Option Json)
  | none => some none
  | some b => (blockString b).map fun s => some (.string s)

/-- The address as a value, if there is one address; with more of them an array is built and not used. -/
def addressValue : List Web3.Address → Option Json
  | [addr] => some (.string addr.string)
  | _ => none

def document (l : LogFilter) : Option Json := do
  let o := []
  let o := Json.setOptional "address" (addressValue l.Address) o
  let o := Json.setField "topics" (.array (l.Topics.map topicValue)) o
  let o := Json.setOptional "blockhash" (l.BlockHash.map fun h => .string h.string) o
  let fromBlock ← boundValue l.From
  let o := Json.setOptional "fromBlock" fromBlock o
  let toBlock ← boundValue l.To
  let o := Json.setOptional "toBlock" toBlock o
  return .object o

def marshalJSON (fastjson : FastJson Doc) (l : LogFilter) : Option Doc := l.document.map fastjson.marshalTo

/-- The filters select the same logs. -/
structure Same (l l' : LogFilter) : Prop where
  address : l.Address = l'.Address
  topics : l.Topics = l'.Topics
  blockHash : l.BlockHash = l'.BlockHash
  bounds : l.BlockHash = none → l.From = l'.From ∧ l.To = l'.To

/-- The filters differ in their addresses only, and neither has exactly one address. -/
def Confused (l l' : LogFilter) : Prop :=
  l.Address ≠ l'.Address ∧ l.Address.length ≠ 1 ∧ l'.Address.length ≠ 1 ∧ l' = { l with Address := l'.Address }

/-! ## What can be read off -/

theorem hash_string_injective : Function.Injective Hash.string := by
  intro h h' heq
  have hok := unmarshalText_hash h
  rw [heq, unmarshalText_hash h'] at hok
  exact (Except.ok.inj hok).symm

theorem address_string_injective : Function.Injective Address.string := by
  intro a a' heq
  have hok := unmarshalText_address a
  rw [heq, unmarshalText_address a'] at hok
  exact (Except.ok.inj hok).symm

theorem topicValue_injective : Function.Injective topicValue := by
  have hitem : Function.Injective fun item : Hash => Json.string item.string :=
    fun _ _ h => hash_string_injective (Json.string.inj h)
  intro t t' h
  cases t with
  | none =>
    cases t' with
    | none => rfl
    | some _ => cases h
  | some t =>
    cases t' with
    | none => cases h
    | some t' => rw [hitem.list_map (Json.array.inj h)]

def blockNames : List (BlockNumber × String) := [(-1, "latest"), (-2, "earliest"), (-3, "pending")]

variable {b : BlockNumber} {s : String} {addrs : List Web3.Address} {l : LogFilter} {v : Json}

theorem blockString_cases (h : blockString b = some s) :
    (b, s) ∈ blockNames ∨ 0 ≤ b.toInt ∧ s = "0x" ++ hexNumber b.toInt.toNat := by
  unfold blockString at h
  split_ifs at h with h₁ h₂ h₃ h₄
  · exact .inl (by simp [blockNames, h₁, Option.some.inj h])
  · exact .inl (by simp [blockNames, h₂, Option.some.inj h])
  · exact .inl (by simp [blockNames, h₃, Option.some.inj h])
  · refine .inr ⟨?_, (Option.some.inj h).symm⟩
    rw [Int64.lt_iff_toInt_lt, Int64.toInt_zero] at h₄
    omega

theorem not_mem_blockNames (b : BlockNumber) (n : ℕ) : (b, "0x" ++ hexNumber n) ∉ blockNames := by
  have hnames : ∀ p ∈ blockNames, p.2.toList.head? ≠ some '0' := by decide
  exact fun hmem => hnames _ hmem (by simp)

theorem hexNumber_inj {m n : ℕ} (hm : m < 2 ^ 64) (hn : n < 2 ^ 64) (h : hexNumber m = hexNumber n) : m = n := by
  have hparse := parseDigits_toDigits hm
  have hdigits : Nat.toDigits 16 m = Nat.toDigits 16 n := String.ofList_injective h
  rw [hdigits, parseDigits_toDigits hn] at hparse
  exact (Except.ok.inj hparse).symm

theorem blockString_inj {b' : BlockNumber} (h : blockString b = some s)
    (h' : blockString b' = some s) : b = b' := by
  rcases blockString_cases h with h | ⟨hb, rfl⟩
  · rcases blockString_cases h' with h' | ⟨-, rfl⟩
    · have hnames : ∀ p ∈ blockNames, ∀ q ∈ blockNames, p.2 = q.2 → p.1 = q.1 := by decide
      exact hnames _ h _ h' rfl
    · exact absurd h (not_mem_blockNames b _)
  · rcases blockString_cases h' with h' | ⟨hb', htext⟩
    · exact absurd h' (not_mem_blockNames b' _)
    · have hlt := b.toInt_lt
      have hlt' := b'.toInt_lt
      have hnumber : hexNumber b.toInt.toNat = hexNumber b'.toInt.toNat := by simpa using htext
      have hnat := hexNumber_inj (by omega) (by omega) hnumber
      exact Int64.toInt_inj.mp (by omega)

theorem boundValue_inj {b b' : Option BlockNumber} {v : Option Json} (h : boundValue b = some v)
    (h' : boundValue b' = some v) : b = b' := by
  cases b with
  | none =>
    cases Option.some.inj h
    cases b' with
    | none => rfl
    | some b' => simp [boundValue] at h'
  | some b =>
    obtain ⟨s, hs, rfl⟩ := Option.map_eq_some_iff.mp h
    cases b' with
    | none => simp [boundValue] at h'
    | some b' =>
      obtain ⟨s', hs', hv⟩ := Option.map_eq_some_iff.mp h'
      cases hv
      rw [blockString_inj hs hs']

theorem addressValue_eq_none (h : addrs.length ≠ 1) : addressValue addrs = none := by
  match addrs with
  | [] => rfl
  | [_] => exact absurd rfl h
  | _ :: _ :: _ => rfl

theorem addressValue_eq {addrs' : List Web3.Address} (h : addressValue addrs = addressValue addrs') :
    addrs = addrs' ∨ addrs.length ≠ 1 ∧ addrs'.length ≠ 1 := by
  by_cases h₁ : addrs.length = 1
  · obtain ⟨a, rfl⟩ := List.length_eq_one_iff.mp h₁
    by_cases h₂ : addrs'.length = 1
    · obtain ⟨a', rfl⟩ := List.length_eq_one_iff.mp h₂
      have hstring := Json.string.inj (Option.some.inj h)
      exact .inl (by rw [address_string_injective hstring])
    · rw [addressValue_eq_none h₂] at h
      cases h
  · by_cases h₂ : addrs'.length = 1
    · obtain ⟨a', rfl⟩ := List.length_eq_one_iff.mp h₂
      rw [addressValue_eq_none h₁] at h
      cases h
    · exact .inr ⟨h₁, h₂⟩

/-- A value with the fields that are sent for a filter. -/
structure Described (v : Json) (l : LogFilter) : Prop where
  address : v.get "address" = addressValue l.Address
  topics : v.get "topics" = some (.array (l.Topics.map topicValue))
  blockHash : v.get "blockhash" = l.BlockHash.map fun h => .string h.string
  fromBlock : boundValue l.From = some (v.get "fromBlock")
  toBlock : boundValue l.To = some (v.get "toBlock")

theorem described_document (h : l.document = some v) : Described v l := by
  simp only [document, Option.bind_eq_bind, Option.bind_eq_some_iff] at h
  obtain ⟨fromBlock, hfrom, toBlock, hto, hv⟩ := h
  cases hv
  constructor
  · simp (disch := decide) only [Json.get, Json.lookup_setOptional_ne, Json.lookup_setField_ne]
    exact Json.lookup_setOptional_self _ rfl
  · simp (disch := decide) only [Json.get, Json.lookup_setOptional_ne, Json.lookup_setField_self]
  · simp (disch := decide) only [Json.get, Json.lookup_setOptional_ne]
    refine Json.lookup_setOptional_self _ ?_
    simp (disch := decide) only [Json.lookup_setOptional_ne, Json.lookup_setField_ne, List.lookup_nil]
  · simp (disch := decide) only [Json.get, Json.lookup_setOptional_ne]
    rw [hfrom, Json.lookup_setOptional_self]
    simp (disch := decide) only [Json.lookup_setOptional_ne, Json.lookup_setField_ne, List.lookup_nil]
  · rw [hto, Json.get, Json.lookup_setOptional_self]
    simp (disch := decide) only [Json.lookup_setOptional_ne, Json.lookup_setField_ne, List.lookup_nil]

theorem Described.eq {v' : Json} {l' : LogFilter} (h : Described v l) (h' : Described v' l')
    (hfields : ∀ key, v.get key = v'.get key) : l' = { l with Address := l'.Address } ∧
      (l.Address = l'.Address ∨ l.Address.length ≠ 1 ∧ l'.Address.length ≠ 1) := by
  have htopics : l.Topics = l'.Topics := by
    have htopics := hfields "topics"
    rw [h.topics, h'.topics] at htopics
    exact topicValue_injective.list_map (Json.array.inj (Option.some.inj htopics))
  have hhash : l.BlockHash = l'.BlockHash := by
    have hhash := hfields "blockhash"
    rw [h.blockHash, h'.blockHash] at hhash
    exact Option.map_injective (fun _ _ heq => hash_string_injective (Json.string.inj heq)) hhash
  have hfrom : l.From = l'.From := boundValue_inj h.fromBlock (hfields "fromBlock" ▸ h'.fromBlock)
  have hto : l.To = l'.To := boundValue_inj h.toBlock (hfields "toBlock" ▸ h'.toBlock)
  have haddress := hfields "address"
  rw [h.address, h'.address] at haddress
  refine ⟨?_, addressValue_eq haddress⟩
  rw [htopics, hhash, hfrom, hto]

/-- **What is sent determines the filter, unless it has several addresses.** -/
theorem same_of_fields_iff (fastjson : FastJson Doc) (l l' : LogFilter) (d d' : Doc)
    (hd : l.marshalJSON fastjson = some d) (hd' : l'.marshalJSON fastjson = some d') :
    (fastjson.SameFields d d' → l.Same l') ↔ ¬l.Confused l' := by
  obtain ⟨v, hv, rfl⟩ := Option.map_eq_some_iff.mp hd
  obtain ⟨v', hv', rfl⟩ := Option.map_eq_some_iff.mp hd'
  constructor
  · rintro hsame ⟨hne, hlen, hlen', heq⟩
    -- the same object is built for both
    have hdoc : l.document = l'.document := by
      have haddress := (addressValue_eq_none hlen).trans (addressValue_eq_none hlen').symm
      rw [heq]
      simp only [document, haddress]
    rw [hv, hv', Option.some.injEq] at hdoc
    subst hdoc
    exact hne (hsame fun _ => rfl).address
  · intro hnot hfields
    have hget : ∀ key, v.get key = v'.get key := by
      intro key
      simpa [fastjson.parse_marshal] using hfields key
    obtain ⟨heq, haddress⟩ := (described_document hv).eq (described_document hv') hget
    have hsame : l.Address = l'.Address :=
      haddress.elim id fun hlen => by_contra fun hne => hnot ⟨hne, hlen.1, hlen.2, heq⟩
    rw [heq, ← hsame]
    exact ⟨rfl, rfl, rfl, fun _ => ⟨rfl, rfl⟩⟩

def sampleFilter (addrs : List Web3.Address) : LogFilter where
  BlockHash := none
  From := some 16
  To := some (-1)
  Address := addrs
  Topics := [none, some [Hash.zero]]

theorem same_of_fields_iff_sample : ∃ d, (sampleFilter [Address.zero]).marshalJSON FastJson.ofValues = some d ∧
    (FastJson.ofValues.SameFields d d → (sampleFilter [Address.zero]).Same (sampleFilter [Address.zero])) := by
  refine ⟨_, rfl, ?_⟩
  exact (same_of_fields_iff FastJson.ofValues _ _ _ _ rfl rfl).mpr fun hconfused => hconfused.1 rfl

/-- A filter for two addresses is sent as one for all addresses. -/
theorem addresses_lost : ∃ d, (sampleFilter [Address.zero, Address.zero]).marshalJSON FastJson.ofValues = some d ∧
    (sampleFilter []).marshalJSON FastJson.ofValues = some d ∧
    ¬(sampleFilter [Address.zero, Address.zero]).Same (sampleFilter []) :=
  ⟨_, rfl, rfl, fun hsame => absurd hsame.address (List.cons_ne_nil _ _)⟩

end LogFilter
end Web3
