import Web3.Json.Transactions

/-! # The cached hash of a transaction

`Hash` computes the hash of a transaction once and keeps it; `MarshalJSON` asks for it too. `SignTx` changes the signature
and leaves the hash that is kept, so what `Hash` returns afterwards is the hash of the transaction before it was signed. -/

namespace Web3.Wallet

variable {Priv Pub Doc : Type}

inductive Call (Priv Pub : Type) where
  | hash
  | marshalJSON
  | signTx (chainID : UInt64) (key : Key Priv Pub)

/-- What a call of `Hash` returned, and what `MarshalRLP` gave at that moment. -/
structure Reading where
  result : Hash
  contents : Bytes

section
variable (btcec : Btcec Priv Pub) (keccak256 : Bytes → Hash) (fastjson : FastJson Doc)

/-- The readings of a sequence of calls. A signature that fails leaves the transaction as it is. -/
def readings : Transaction → List (Call Priv Pub) → List Reading
  | _, [] => []
  | t, .hash :: calls =>
    { result := (t.Hash keccak256).1, contents := t.marshalRLP } :: readings (t.Hash keccak256).2 calls
  | t, .marshalJSON :: calls =>
    { result := (t.Hash keccak256).1, contents := t.marshalRLP } :: readings (t.marshalJSON keccak256 fastjson).2 calls
  | t, .signTx chainID key :: calls =>
    match signTx btcec keccak256 chainID t key with
    | .ok t' => readings t' calls
    | .err _ => readings t calls
    | .panic _ => []

/-- The contents of the transaction at each call that reads the hash, as the signatures make them. -/
def contents : Transaction → List (Call Priv Pub) → List Bytes
  | _, [] => []
  | t, .hash :: calls => t.marshalRLP :: contents t calls
  | t, .marshalJSON :: calls => t.marshalRLP :: contents t calls
  | t, .signTx chainID key :: calls =>
    match signTx btcec keccak256 chainID t key with
    | .ok t' => contents t' calls
    | .err _ => contents t calls
    | .panic _ => []

variable (t : Transaction) (calls : List (Call Priv Pub))

/-- Every result is the hash of the contents. -/
def Truthful : Prop :=
  ∀ r ∈ readings btcec keccak256 fastjson t calls, r.result = keccak256 r.contents

/-- A hash that was read, other than zero, is still the hash of the contents when it is read again. -/
def Settled : Prop :=
  ((contents btcec keccak256 t calls).map keccak256).Pairwise fun h h' => h = Hash.zero ∨ h' = h

variable {btcec keccak256 fastjson}

/-! ## The contents do not depend on the hash that is kept -/

theorem signTx_with_hash (chainID : UInt64) (t : Transaction) (hash : Hash) (key : Key Priv Pub) :
    signTx btcec keccak256 chainID { t with hash := hash } key =
      signTx btcec keccak256 chainID t key >>= fun t' => .ok { t' with hash := hash } := by
  unfold signTx
  have hsign : signHash keccak256 { t with hash := hash } chainID = signHash keccak256 t chainID := rfl
  dsimp only
  rw [hsign]
  cases key.sign btcec (signHash keccak256 t chainID) with
  | ok sig =>
    rw [Outcome.ok_bind, Outcome.ok_bind]
    cases sig[64]? with
    | none | some => rfl
  | err | panic => rfl

variable {t : Transaction}

theorem hash_of_signTx {chainID : UInt64} {t' : Transaction} {key : Key Priv Pub}
    (h : signTx btcec keccak256 chainID t key = .ok t') : t'.hash = t.hash := by
  obtain ⟨sig, -, hset⟩ := Outcome.bind_eq_ok.mp h
  split at hset
  · cases hset
  · cases hset
    rfl

theorem contents_with_hash (t : Transaction) (hash : Hash) (calls : List (Call Priv Pub)) :
    contents btcec keccak256 { t with hash := hash } calls = contents btcec keccak256 t calls := by
  induction calls generalizing t with
  | nil => rfl
  | cons call calls ih =>
    cases call with
    | hash | marshalJSON => exact congrArg (t.marshalRLP :: ·) (ih t)
    | signTx chainID key =>
      rw [contents, contents, signTx_with_hash]
      cases signTx btcec keccak256 chainID t key with
      | ok t' => exact ih t'
      | err e => exact ih t
      | panic e => rfl

/-! ## One call -/

theorem truthful_hash_cons :
    Truthful btcec keccak256 fastjson t (.hash :: calls) ↔
      (t.Hash keccak256).1 = keccak256 t.marshalRLP ∧ Truthful btcec keccak256 fastjson (t.Hash keccak256).2 calls :=
  List.forall_mem_cons

theorem truthful_iff_of_kept (ht : t.hash ≠ Hash.zero) (calls : List (Call Priv Pub)) :
    Truthful btcec keccak256 fastjson t calls ↔ ∀ bs ∈ contents btcec keccak256 t calls, keccak256 bs = t.hash := by
  induction calls generalizing t with
  | nil => simp [Truthful, readings, contents]
  | cons call calls ih =>
    have hread : Truthful btcec keccak256 fastjson t (.hash :: calls) ↔
        ∀ bs ∈ t.marshalRLP :: contents btcec keccak256 t calls, keccak256 bs = t.hash := by
      have hkept : t.Hash keccak256 = (t.hash, t) := if_neg ht
      rw [truthful_hash_cons, hkept, ih ht, List.forall_mem_cons, eq_comm (a := t.hash)]
    cases call with
    | hash => exact hread
    -- printing reads the hash and leaves the transaction as `Hash` does
    | marshalJSON => exact hread
    | signTx chainID key =>
      unfold Truthful readings contents
      cases hsign : signTx btcec keccak256 chainID t key with
      | ok t' =>
        have hhash := hash_of_signTx hsign
        rw [← hhash]
        exact ih (hhash ▸ ht)
      | err e => exact ih ht
      | panic e => simp

end

/-- **`Hash` returns the hash of the contents if no signature changes them between two calls.** -/
theorem Hash_truthful_iff (btcec : Btcec Priv Pub) (keccak256 : Bytes → Hash) (fastjson : FastJson Doc) (t : Transaction)
    (ht : t.hash = Hash.zero) (calls : List (Call Priv Pub)) :
    Truthful btcec keccak256 fastjson t calls ↔ Settled btcec keccak256 t calls := by
  induction calls generalizing t with
  | nil => simp [Truthful, Settled, readings, contents]
  | cons call calls ih =>
    have hread : Truthful btcec keccak256 fastjson t (.hash :: calls) ↔ Settled btcec keccak256 t (.hash :: calls) := by
      have hfirst : t.Hash keccak256 = (keccak256 t.marshalRLP, { t with hash := keccak256 t.marshalRLP }) := if_pos ht
      rw [truthful_hash_cons, hfirst, Settled, contents, List.map_cons, List.pairwise_cons]
      simp only [true_and, List.forall_mem_map]
      by_cases hzero : keccak256 t.marshalRLP = Hash.zero
      · -- a zero hash is not kept
        rw [ih { t with hash := keccak256 t.marshalRLP } hzero, Settled, contents_with_hash]
        simp [hzero]
      · rw [truthful_iff_of_kept (t := { t with hash := keccak256 t.marshalRLP }) hzero, contents_with_hash]
        constructor
        · intro h
          refine ⟨fun bs hbs => .inr (h bs hbs), List.pairwise_map.mpr ?_⟩
          exact List.Pairwise.imp_of_mem (fun hbs hbs' _ => .inr ((h _ hbs').trans (h _ hbs).symm))
            (List.pairwise_of_forall (R := fun _ _ => True) fun _ _ => trivial)
        · exact fun h bs hbs => (h.1 bs hbs).resolve_left hzero
    cases call with
    | hash | marshalJSON => exact hread
    | signTx chainID key =>
      unfold Truthful readings Settled contents
      cases hsign : signTx btcec keccak256 chainID t key with
      | ok t' => exact ih t' ((hash_of_signTx hsign).trans ht)
      | err e => exact ih t ht
      | panic e => simp

def sampleKey : Key SampleKey SampleKey := newKey sampleBtcec sampleKeccak .one

/-- The hash is read twice after the signature, and is not zero. -/
theorem Hash_truthful_iff_sample :
    (∀ r ∈ readings sampleBtcec sampleKeccak FastJson.ofValues sampleTransaction
      [.signTx 1 sampleKey, .hash, .marshalJSON], r.result ≠ Hash.zero) ∧
    Truthful sampleBtcec sampleKeccak FastJson.ofValues sampleTransaction [.signTx 1 sampleKey, .hash, .marshalJSON] :=
  ⟨by decide +kernel, (Hash_truthful_iff sampleBtcec sampleKeccak FastJson.ofValues sampleTransaction rfl
    [.signTx 1 sampleKey, .hash, .marshalJSON]).mpr (by unfold Settled; decide +kernel)⟩

/-- The hash is read, the transaction is signed, and the hash is read again. -/
theorem Hash_stale : ¬Truthful sampleBtcec sampleKeccak FastJson.ofValues sampleTransaction
    [.hash, .signTx 1 sampleKey, .hash] := by
  unfold Truthful
  decide +kernel

end Web3.Wallet
