import Web3.Foundations.Outcome
import Web3.Foundations.Rlp
import Web3.Primitives

/-! # Signing transactions

`SignTx` stores a signature of 65 bytes in the fields `R`, `S` and `V` of a transaction, without leading zero
bytes and with the recovery code and the chain in `V`. `RecoverSender` builds the 65 bytes again. -/

namespace Web3.Wallet

/-- `web3.Transaction`. A nil `Value` is `none`. -/
structure Transaction where
  hash : Hash
  From : Address
  To : Option Address
  Input : Bytes
  GasPrice : UInt64
  Gas : UInt64
  Value : Option ℤ
  Nonce : UInt64
  V : Bytes
  R : Bytes
  S : Bytes
  BlockHash : Hash
  BlockNumber : UInt64
  TxnIndex : UInt64
  deriving DecidableEq

/-- Compact signatures of `btcec`, not compressed: a code 27 or 28, and two numbers of 32 bytes from which
the key that signed can be recovered. -/
structure Btcec (Priv Pub : Type) where
  publicKey : Priv → Pub
  marshal : Pub → Bytes
  signCompact : Priv → Bytes → Outcome Bytes
  recoverCompact : Bytes → Bytes → Outcome Pub
  sign_shape : ∀ priv hash sig, signCompact priv hash = .ok sig →
    ∃ code r s, sig = code :: (r ++ s) ∧ (code = 27 ∨ code = 28) ∧ r.length = 32 ∧ s.length = 32
  recover_sign : ∀ priv hash sig, signCompact priv hash = .ok sig → recoverCompact sig hash = .ok (publicKey priv)

structure Key (Priv Pub : Type) where
  priv : Priv
  pub : Pub
  addr : Address

section
variable {Priv Pub : Type} (btcec : Btcec Priv Pub) (keccak256 : Bytes → Hash)

/-! ## Keys -/

def pubKeyToAddress (pub : Pub) : Address :=
  let b := keccak256 ((btcec.marshal pub).drop 1)
  ⟨b.1.drop 12, by rw [List.length_drop, b.2]⟩

def newKey (priv : Priv) : Key Priv Pub where
  priv := priv
  pub := btcec.publicKey priv
  addr := pubKeyToAddress btcec keccak256 (btcec.publicKey priv)

def Key.sign (key : Key Priv Pub) (hash : Bytes) : Outcome Bytes := do
  let sig ← btcec.signCompact key.priv hash
  match sig with
  | [] => .panic "index out of range"
  | code :: rs => .ok (rs ++ [if code = 28 then 1 else 0])

def recoverPubkey (signature hash : Bytes) : Outcome Pub :=
  match signature.getLast? with
  | none => .panic "index out of range"
  | some last => btcec.recoverCompact ((if last = 1 then 28 else 27) :: signature.dropLast) hash

def ecrecover (hash signature : Bytes) : Outcome Address := do
  let pub ← recoverPubkey btcec signature hash
  return pubKeyToAddress btcec keccak256 pub

/-! ## Transactions -/

def signHash (tx : Transaction) (chainID : UInt64) : Bytes :=
  let v := [Rlp.ofNat tx.Nonce.toNat, Rlp.ofNat tx.GasPrice.toNat, Rlp.ofNat tx.Gas.toNat, match tx.To with
    | none => .bytes []
    | some to' => .bytes to'.1,
    match tx.Value with
    | none => .bytes []
    | some value => Rlp.ofNat value.natAbs,
    .bytes tx.Input]
  let v := if chainID ≠ 0 then v ++ [Rlp.ofNat chainID.toNat, Rlp.ofNat 0, Rlp.ofNat 0] else v
  (keccak256 (Rlp.list v).encode).1

def copyTo (dst : Bytes) (i : ℕ) (src : Bytes) : Bytes := dst.take i ++ src ++ dst.drop (i + src.length)

def encodeSignature (R S : Bytes) (V : UInt8) : Outcome Bytes :=
  if 32 < R.length ∨ 64 < S.length then .panic "slice bounds out of range"
  else
    let sig := List.replicate 65 0
    let sig := copyTo sig (32 - R.length) R
    let sig := copyTo sig (64 - S.length) S
    .ok (sig.set 64 V)

def recoverSender (chainID : UInt64) (tx : Transaction) : Outcome Address := do
  let v := UInt64.ofNat (ofBytes tx.V)
  let v := v - chainID * 2
  let v := v - 8
  let v := v - 27
  let sig ← encodeSignature tx.R tx.S v.toUInt8
  ecrecover btcec keccak256 (signHash keccak256 tx chainID) sig

def signTx (chainID : UInt64) (tx : Transaction) (key : Key Priv Pub) : Outcome Transaction := do
  let hash := signHash keccak256 tx chainID
  let sig ← key.sign btcec hash
  match sig[64]? with
  | none => .panic "index out of range"
  | some code =>
    let vv := code.toUInt64 + 35 + chainID * 2
    .ok { tx with
      R := toBytes (ofBytes (sig.take 32))
      S := toBytes (ofBytes ((sig.take 64).drop 32))
      V := toBytes vv.toNat }

end

/-! ## Recovery -/

theorem pad_toBytes {bs : Bytes} (h : bs.length = 32) : (toBytes (ofBytes bs)).length ≤ 32 ∧
    List.replicate (32 - (toBytes (ofBytes bs)).length) 0 ++ toBytes (ofBytes bs) = bs := by
  have hlt : ofBytes bs < 2 ^ (8 * 32) := by
    have hlt := ofBytes_lt bs
    rwa [h, show (256 : ℕ) = 2 ^ 8 by rfl, ← pow_mul] at hlt
  refine ⟨length_toBytes_le hlt, ?_⟩
  rw [replicate_append_toBytes hlt, ← h, beBytes_ofBytes]

theorem encodeSignature_toBytes {r s : Bytes} (hr : r.length = 32) (hs : s.length = 32) (V : UInt8) :
    encodeSignature (toBytes (ofBytes r)) (toBytes (ofBytes s)) V = .ok (r ++ s ++ [V]) := by
  obtain ⟨hR, hr'⟩ := pad_toBytes hr
  obtain ⟨hS, hs'⟩ := pad_toBytes hs
  generalize toBytes (ofBytes r) = R at hR hr'
  generalize toBytes (ofBytes s) = S at hS hs'
  have hfirst : copyTo (List.replicate 65 0) (32 - R.length) R = r ++ List.replicate 33 0 := by
    rw [copyTo, List.take_replicate, List.drop_replicate, Nat.min_eq_left (by omega), hr',
      Nat.sub_add_cancel hR]
  have hsecond : copyTo (r ++ List.replicate 33 0) (64 - S.length) S = r ++ s ++ [0] := by
    have htake : (r ++ List.replicate 33 0).take (64 - S.length) = r ++ List.replicate (32 - S.length) (0 : UInt8) := by
      rw [List.take_append, List.take_of_length_le (by omega), List.take_replicate, hr]
      congr 2
      omega
    have hdrop : (r ++ List.replicate 33 0).drop (64 - S.length + S.length) = [(0 : UInt8)] := by
      rw [Nat.sub_add_cancel (by omega), List.drop_append, List.drop_of_length_le (by omega), List.drop_replicate, hr]
      rfl
    rw [copyTo, htake, hdrop, List.append_assoc r, hs']
  rw [encodeSignature, if_neg (by omega)]
  dsimp only
  rw [hfirst, hsecond, List.set_append_right _ _ (by simp [hr, hs])]
  simp [hr, hs]

section
variable {Priv Pub : Type} (btcec : Btcec Priv Pub) (keccak256 : Bytes → Hash)

def termOf (code : UInt8) : UInt8 := if code = 28 then 1 else 0

variable {code : UInt8}

theorem codeOf_termOf (h : code = 27 ∨ code = 28) : (if termOf code = 1 then 28 else 27) = code := by
  rcases h with rfl | rfl
  · rfl
  · rfl

theorem Key.sign_eq_ok {key : Key Priv Pub} {hash sig : Bytes} (h : key.sign btcec hash = .ok sig) :
    ∃ code r s, btcec.signCompact key.priv hash = .ok (code :: (r ++ s)) ∧ (code = 27 ∨ code = 28) ∧
      r.length = 32 ∧ s.length = 32 ∧ sig = r ++ s ++ [termOf code] := by
  obtain ⟨compact, hcompact, hsig⟩ := Outcome.bind_eq_ok.mp h
  obtain ⟨code, r, s, rfl, hcode, hr, hs⟩ := btcec.sign_shape _ _ _ hcompact
  exact ⟨code, r, s, hcompact, hcode, hr, hs, (Outcome.ok.inj hsig).symm⟩

theorem recoverPubkey_eq (hcode : code = 27 ∨ code = 28) (rs hash : Bytes) :
    recoverPubkey btcec (rs ++ [termOf code]) hash = btcec.recoverCompact (code :: rs) hash := by
  rw [recoverPubkey, List.getLast?_concat]
  dsimp only
  rw [codeOf_termOf hcode, List.dropLast_concat]

theorem term_of_V (term : UInt8) (chainID : UInt64) :
    (UInt64.ofNat (ofBytes (toBytes (term.toUInt64 + 35 + chainID * 2).toNat)) - chainID * 2 - 8 - 27).toUInt8 = term := by
  rw [ofBytes_toBytes, UInt64.ofNat_toNat]
  have hsub : term.toUInt64 + 35 + chainID * 2 - chainID * 2 - 8 - 27 = term.toUInt64 := by
    rw [UInt64.add_sub_cancel]
    grind
  rw [hsub, UInt8.toUInt8_toUInt64]

/-- **The sender is who signed.** -/
theorem recoverSender_of_signTx (chainID : UInt64) (tx tx' : Transaction) (priv : Priv)
    (h : signTx btcec keccak256 chainID tx (newKey btcec keccak256 priv) = .ok tx') :
    recoverSender btcec keccak256 chainID tx' = .ok (newKey btcec keccak256 priv).addr := by
  obtain ⟨sig, hsig, hset⟩ := Outcome.bind_eq_ok.mp h
  obtain ⟨code, r, s, hcompact, hcode, hr, hs, rfl⟩ := Key.sign_eq_ok btcec hsig
  have hterm : (r ++ s ++ [termOf code])[64]? = some (termOf code) := by
    rw [List.getElem?_append_right (by simp [hr, hs])]
    simp [hr, hs]
  have htake : (r ++ s ++ [termOf code]).take 32 = r := by simp [hr]
  have hdrop : ((r ++ s ++ [termOf code]).take 64).drop 32 = s := by simp [List.take_append, hr, hs]
  rw [hterm] at hset
  dsimp only at hset
  rw [htake, hdrop, Outcome.ok.injEq] at hset
  subst hset
  have hrecover := btcec.recover_sign _ _ _ hcompact
  rw [recoverSender]
  dsimp only
  rw [term_of_V, encodeSignature_toBytes hr hs, Outcome.ok_bind, ecrecover, recoverPubkey_eq btcec hcode]
  -- the hash does not depend on the signature
  have hhash : btcec.recoverCompact (code :: (r ++ s)) (signHash keccak256 { tx with
      R := toBytes (ofBytes r), S := toBytes (ofBytes s),
      V := toBytes ((termOf code).toUInt64 + 35 + chainID * 2).toNat } chainID) =
      .ok (btcec.publicKey priv) := hrecover
  rw [hhash]
  rfl

end

/-! ## A sample

A transaction with the values of keccak-256 and of `btcec` for it, on chain 1 and with the private keys 1 and 191 of
secp256k1. The second signature has a first number of 31 bytes. -/

def sampleTransaction : Transaction where
  hash := Hash.zero
  From := Address.zero
  To := none
  Input := [1]
  GasPrice := 1
  Gas := 21000
  Value := some 7
  Nonce := 0
  V := []
  R := []
  S := []
  BlockHash := Hash.zero
  BlockNumber := 0
  TxnIndex := 0

inductive SampleKey where
  | one
  | other
  deriving DecidableEq

namespace SampleKey

def point : SampleKey → Bytes
  | one => beBytes 32 0x79be667ef9dcbbac55a06295ce870b07029bfcdb2dce28d959f2815b16f81798 ++
    beBytes 32 0x483ada7726a3c4655da4fbfc0e1108a8fd17b448a68554199c47d08ffb10d4b8
  | other => beBytes 32 0xe75605d59102a5a2684500d3b991f2e3f3c88b93225547035af25af66e04541f ++
    beBytes 32 0xf5c54754a8f71ee540b9b48728473e314f729ac5308b06938360990e2bfad125

def r : SampleKey → Bytes
  | one => beBytes 32 0x1c3109c433075b8bdc0f14ccb954ffb196ce40080dcd0410999f68bfe14b9a02
  | other => beBytes 32 0x00f669387c796696daf1c00ed17981a47f8c92c9eb4ba81ac8d8278878131796

def s : SampleKey → Bytes
  | one => beBytes 32 0x01cc0b691635e129d686a14d8acb1c381a5978b13e166a020fe090028a69fe63
  | other => beBytes 32 0x4e306dc2a097c62e62446cf408bf9b68d39b26b0ca8f2797eb40d02b884f9115

def signature (key : SampleKey) : Bytes := (if key = one then 28 else 27) :: (key.r ++ key.s)

end SampleKey

def sampleDigest : Bytes := beBytes 32 0xdc0daf63f334466bd57ebc8119314503cd39525314680e6d7def48408236cc89

def sampleKeccak (bs : Bytes) : Hash :=
  if bs = [203, 128, 1, 130, 82, 8, 128, 7, 1, 1, 128, 128] then bytesToHash sampleDigest
  else if bs = SampleKey.one.point then
    bytesToHash (beBytes 32 0xc0a6c424ac7157ae408398df7e5f4552091a69125d5dfcb7b8c2659029395bdf)
  else if bs = SampleKey.other.point then
    bytesToHash (beBytes 32 0xb31f844f8400c094df1434082eedf8a799b73bc02e4664183eb72422c377153b)
  -- the transaction as it is stored, without a signature and with that of the first key
  else if bs = [203, 128, 1, 130, 82, 8, 128, 7, 1, 128, 128, 128] then
    bytesToHash (beBytes 32 0x678b9de1c8807e01fdf9e2b97cb506f733ff44fdd305127f89bd414ec4356074)
  else if bs = [248, 75, 128, 1, 130, 82, 8, 128, 7, 1, 38, 160] ++ SampleKey.one.r ++ 160 :: SampleKey.one.s then
    bytesToHash (beBytes 32 0x564c90b433a34d6fcb6c77ae8569d98aa46bf659d8d830d1dd4344cd1ca414f8)
  else Hash.zero

def sampleBtcec : Btcec SampleKey SampleKey where
  publicKey priv := priv
  marshal pub := 4 :: pub.point
  signCompact priv hash := if hash = sampleDigest then .ok priv.signature else .err "not in the table"
  recoverCompact sig hash :=
    if hash = sampleDigest ∧ sig = SampleKey.one.signature then .ok .one
    else if hash = sampleDigest ∧ sig = SampleKey.other.signature then .ok .other
    else .err "not in the table"
  sign_shape priv hash sig h := by
    split at h
    · refine ⟨_, priv.r, priv.s, (Outcome.ok.inj h).symm, ?_, ?_, ?_⟩ <;> cases priv <;> decide
    · cases h
  recover_sign priv hash sig h := by
    split at h
    · next hhash =>
      obtain rfl := Outcome.ok.inj h
      cases priv
      · rw [if_pos ⟨hhash, rfl⟩]
      · rw [if_neg fun h => absurd h.2 (by decide +kernel), if_pos ⟨hhash, rfl⟩]
    · cases h

theorem recoverSender_of_signTx_sample :
    signTx sampleBtcec sampleKeccak 1 sampleTransaction (newKey sampleBtcec sampleKeccak .other) =
      .ok { sampleTransaction with R := SampleKey.other.r.tail, S := SampleKey.other.s, V := [37] } ∧
    recoverSender sampleBtcec sampleKeccak 1
        { sampleTransaction with R := SampleKey.other.r.tail, S := SampleKey.other.s, V := [37] } =
      .ok ⟨beBytes 20 0x2eedf8a799b73bc02e4664183eb72422c377153b, rfl⟩ := by
  have h : signTx sampleBtcec sampleKeccak 1 sampleTransaction (newKey sampleBtcec sampleKeccak .other) =
      .ok { sampleTransaction with R := SampleKey.other.r.tail, S := SampleKey.other.s, V := [37] } := by decide +kernel
  refine ⟨h, (recoverSender_of_signTx sampleBtcec sampleKeccak 1 _ _ .other h).trans ?_⟩
  decide +kernel

end Web3.Wallet
