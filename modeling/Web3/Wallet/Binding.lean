import Web3.Wallet.Signer

/-! # What a signature binds

The byte string that `signHash` hashes determines the fields of the transaction that are signed, and the chain. It has
six or nine items; an absent recipient is an empty string, and a recipient has twenty bytes. -/

namespace Web3.Wallet

def signedItems (tx : Transaction) (chainID : UInt64) : List Rlp :=
  let v := [Rlp.ofNat tx.Nonce.toNat, Rlp.ofNat tx.GasPrice.toNat, Rlp.ofNat tx.Gas.toNat, match tx.To with
    | none => .bytes []
    | some to' => .bytes to'.1,
    match tx.Value with
    | none => .bytes []
    | some value => Rlp.ofNat value.natAbs,
    .bytes tx.Input]
  if chainID ≠ 0 then v ++ [Rlp.ofNat chainID.toNat, Rlp.ofNat 0, Rlp.ofNat 0] else v

/-- The byte string that `signHash` hashes. -/
def signedBytes (tx : Transaction) (chainID : UInt64) : Bytes := (Rlp.list (signedItems tx chainID)).encode

theorem signHash_eq (keccak256 : Bytes → Hash) (tx : Transaction) (chainID : UInt64) :
    signHash keccak256 tx chainID = (keccak256 (signedBytes tx chainID)).1 := rfl

/-- Two transactions for two chains agree in everything that is signed. -/
structure SameSigned (tx₁ tx₂ : Transaction) (c₁ c₂ : UInt64) : Prop where
  nonce : tx₁.Nonce = tx₂.Nonce
  gasPrice : tx₁.GasPrice = tx₂.GasPrice
  gas : tx₁.Gas = tx₂.Gas
  recipient : tx₁.To = tx₂.To
  value : tx₁.Value = tx₂.Value
  input : tx₁.Input = tx₂.Input
  chainID : c₁ = c₂

/-! ## Items -/

theorem uint64_eq_of_item {n m : UInt64} (h : Rlp.ofNat n.toNat = Rlp.ofNat m.toNat) : n = m :=
  UInt64.toNat_inj.mp (Rlp.ofNat_injective h)

def recipientItem : Option Address → Rlp
  | none => .bytes []
  | some to' => .bytes to'.1

theorem recipient_eq_of_item {to₁ to₂ : Option Address} (h : recipientItem to₁ = recipientItem to₂) : to₁ = to₂ := by
  have hne (a : Address) : ([] : Bytes) ≠ a.1 := by
    intro h
    have hlen := a.2
    rw [← h] at hlen
    cases hlen
  cases to₁ with
  | none =>
    cases to₂ with
    | none => rfl
    | some b => exact absurd (Rlp.bytes.inj h) (hne b)
  | some a =>
    cases to₂ with
    | none => exact absurd (Rlp.bytes.inj h).symm (hne a)
    | some b => exact congrArg some (Subtype.ext (Rlp.bytes.inj h))

def fieldItems (tx : Transaction) (n : ℕ) : List Rlp :=
  [Rlp.ofNat tx.Nonce.toNat, Rlp.ofNat tx.GasPrice.toNat, Rlp.ofNat tx.Gas.toNat, recipientItem tx.To, Rlp.ofNat n,
    .bytes tx.Input]

def chainItems (chainID : UInt64) : List Rlp :=
  if chainID ≠ 0 then [Rlp.ofNat chainID.toNat, Rlp.ofNat 0, Rlp.ofNat 0] else []

theorem signedItems_eq {tx : Transaction} {n : ℕ} (hvalue : tx.Value = some (n : ℤ)) (chainID : UInt64) :
    signedItems tx chainID = fieldItems tx n ++ chainItems chainID := by
  unfold signedItems fieldItems chainItems recipientItem
  rw [hvalue]
  dsimp only
  rw [Int.natAbs_natCast]
  split <;> rfl

variable {c₁ c₂ : UInt64}

theorem chainID_eq_of_items (h : chainItems c₁ = chainItems c₂) : c₁ = c₂ := by
  unfold chainItems at h
  split at h
  · split at h
    · exact uint64_eq_of_item (List.cons.inj h).1
    · cases h
  · next h₁ =>
    split at h
    · cases h
    · next h₂ => rw [not_not.mp h₁, not_not.mp h₂]

theorem sameSigned_of_items {tx₁ tx₂ : Transaction} {n₁ n₂ : ℕ}
    (hvalue₁ : tx₁.Value = some (n₁ : ℤ)) (hvalue₂ : tx₂.Value = some (n₂ : ℤ))
    (h : signedItems tx₁ c₁ = signedItems tx₂ c₂) : SameSigned tx₁ tx₂ c₁ c₂ := by
  rw [signedItems_eq hvalue₁, signedItems_eq hvalue₂] at h
  obtain ⟨hfields, hchain⟩ := List.append_inj h rfl
  simp only [fieldItems, List.cons.injEq, and_true] at hfields
  obtain ⟨hnonce, hgasPrice, hgas, hto, hn, hinput⟩ := hfields
  exact
    { nonce := uint64_eq_of_item hnonce
      gasPrice := uint64_eq_of_item hgasPrice
      gas := uint64_eq_of_item hgas
      recipient := recipient_eq_of_item hto
      value := by rw [hvalue₁, hvalue₂, Rlp.ofNat_injective hn]
      input := Rlp.bytes.inj hinput
      chainID := chainID_eq_of_items hchain }

/-! ## Signatures -/

section
variable {Priv Pub : Type} (btcec : Btcec Priv Pub) (keccak256 : Bytes → Hash)

/-- **A signature binds the fields and the chain.** The bytes that are hashed fit into a slice. Where the hash has no
collision of the two byte strings and a signature recovers one sender from one hash only, a signature that
recovers a sender for one transaction and one chain recovers it for no other. -/
theorem signHash_binds (tx₁ tx₂ : Transaction) (c₁ c₂ : UInt64) {n₁ n₂ : ℕ} (hvalue₁ : tx₁.Value = some (n₁ : ℤ))
    (hvalue₂ : tx₂.Value = some (n₂ : ℤ)) (hslice : (signedBytes tx₁ c₁).length < 2 ^ 63) :
    (signedBytes tx₁ c₁ = signedBytes tx₂ c₂ → SameSigned tx₁ tx₂ c₁ c₂) ∧
    ((keccak256 (signedBytes tx₁ c₁) = keccak256 (signedBytes tx₂ c₂) → signedBytes tx₁ c₁ = signedBytes tx₂ c₂) →
      (signHash keccak256 tx₁ c₁ = signHash keccak256 tx₂ c₂ → SameSigned tx₁ tx₂ c₁ c₂) ∧
      ∀ sig addr, (ecrecover btcec keccak256 (signHash keccak256 tx₁ c₁) sig = .ok addr →
          ecrecover btcec keccak256 (signHash keccak256 tx₂ c₂) sig = .ok addr →
          signHash keccak256 tx₁ c₁ = signHash keccak256 tx₂ c₂) →
        ecrecover btcec keccak256 (signHash keccak256 tx₁ c₁) sig = .ok addr →
        ecrecover btcec keccak256 (signHash keccak256 tx₂ c₂) sig = .ok addr → SameSigned tx₁ tx₂ c₁ c₂) := by
  have hbytes : signedBytes tx₁ c₁ = signedBytes tx₂ c₂ → SameSigned tx₁ tx₂ c₁ c₂ := by
    intro h
    have hitems : Rlp.list (signedItems tx₁ c₁) = Rlp.list (signedItems tx₂ c₂) :=
      Rlp.encode_inj (hslice.trans (by norm_num)) h
    exact sameSigned_of_items hvalue₁ hvalue₂ (Rlp.list.inj hitems)
  refine ⟨hbytes, fun hcollision => ?_⟩
  have hhash : signHash keccak256 tx₁ c₁ = signHash keccak256 tx₂ c₂ → SameSigned tx₁ tx₂ c₁ c₂ := by
    intro h
    rw [signHash_eq, signHash_eq] at h
    exact hbytes (hcollision (Subtype.ext h))
  exact ⟨hhash, fun sig addr hrecover h₁ h₂ => hhash (hrecover h₁ h₂)⟩

end

def paddedHash (bs : Bytes) : Hash := ⟨beBytes 32 (ofBytes bs), length_beBytes 32 _⟩

theorem signHash_binds_sample : signedBytes sampleTransaction 1 ≠ signedBytes sampleTransaction 2 ∧
    signHash paddedHash sampleTransaction 1 ≠ signHash paddedHash sampleTransaction 2 := by
  have hvalue : sampleTransaction.Value = some ((7 : ℕ) : ℤ) := rfl
  have h := signHash_binds sampleBtcec paddedHash sampleTransaction sampleTransaction 1 2 hvalue hvalue (by decide +kernel)
  have hchain : ¬SameSigned sampleTransaction sampleTransaction 1 2 := fun hsame => absurd hsame.chainID (by decide)
  exact ⟨fun heq => hchain (h.1 heq), fun heq => hchain ((h.2 (by decide +kernel)).1 heq)⟩

end Web3.Wallet
