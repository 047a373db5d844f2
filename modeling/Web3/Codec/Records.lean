import Web3.Codec.ZeroCopy

/-! # Account records in buffers

`EthAccount.Serialization` and `Deserialization` on sinks and sources, with the balance as the four words of a
`uint256.Int`. They write and read the bytes of the account records, and a record that was written is read back, up to
its last byte and whatever follows it. -/

namespace Web3.Codec
open Storage (leBytes varBytes U256)

/-! ## Balances -/

structure Uint256 where
  z0 : UInt64
  z1 : UInt64
  z2 : UInt64
  z3 : UInt64
  deriving DecidableEq

namespace Uint256

variable (z : Uint256)

def bytes32 : Bytes :=
  beBytes 8 z.z3.toNat ++ beBytes 8 z.z2.toNat ++ beBytes 8 z.z1.toNat ++ beBytes 8 z.z0.toNat

def bigEndianUint64 (bs : Bytes) : UInt64 := UInt64.ofNat (ofBytes bs)

def setBytes32 (bs : Bytes) : Outcome Uint256 :=
  if 32 ≤ bs.length then
    .ok
      { z3 := bigEndianUint64 (bs.take 8)
        z2 := bigEndianUint64 ((bs.drop 8).take 8)
        z1 := bigEndianUint64 ((bs.drop 16).take 8)
        z0 := bigEndianUint64 ((bs.drop 24).take 8) }
  else .panic "runtime error: index out of range"

def value : U256 :=
  BitVec.ofNat 256 (((z.z3.toNat * 2 ^ 64 + z.z2.toNat) * 2 ^ 64 + z.z1.toNat) * 2 ^ 64 + z.z0.toNat)

theorem toNat_value :
    z.value.toNat = ((z.z3.toNat * 2 ^ 64 + z.z2.toNat) * 2 ^ 64 + z.z1.toNat) * 2 ^ 64 + z.z0.toNat := by
  have h0 := z.z0.toNat_lt
  have h1 := z.z1.toNat_lt
  have h2 := z.z2.toNat_lt
  have h3 := z.z3.toNat_lt
  rw [value, BitVec.toNat_ofNat, Nat.mod_eq_of_lt (by omega)]

theorem value_injective {x y : Uint256} (h : x.value = y.value) : x = y := by
  have hnat := congrArg BitVec.toNat h
  rw [toNat_value, toNat_value] at hnat
  obtain ⟨x0, x1, x2, x3⟩ := x
  obtain ⟨y0, y1, y2, y3⟩ := y
  have hx0 := x0.toNat_lt
  have hx1 := x1.toNat_lt
  have hx2 := x2.toNat_lt
  have hy0 := y0.toNat_lt
  have hy1 := y1.toNat_lt
  have hy2 := y2.toNat_lt
  dsimp only at hnat
  rw [Uint256.mk.injEq]
  simp only [← UInt64.toNat_inj]
  omega

theorem beBytes_word (j hi : ℕ) (lo : UInt64) :
    beBytes (j + 8) (hi * 2 ^ 64 + lo.toNat) = beBytes j hi ++ beBytes 8 lo.toNat := by
  have hlo := lo.toNat_lt
  have hdiv : (hi * 2 ^ 64 + lo.toNat) / 256 ^ 8 = hi := by omega
  have hmod : (hi * 2 ^ 64 + lo.toNat) % 256 ^ 8 = lo.toNat := by omega
  rw [beBytes_add_eq_append, hdiv, ← beBytes_mod 8 (hi * 2 ^ 64 + lo.toNat), hmod]

theorem bytes32_eq : z.bytes32 = beBytes 32 z.value.toNat := by
  rw [toNat_value, beBytes_word 24, beBytes_word 16, beBytes_word 8, bytes32]

theorem length_bytes32 : z.bytes32.length = 32 := by rw [bytes32_eq, length_beBytes]

variable {bs : Bytes}

theorem beBytes_bigEndianUint64 (h : bs.length = 8) : beBytes 8 (bigEndianUint64 bs).toNat = bs := by
  have hlt : ofBytes bs < 2 ^ 64 := by
    have hlt := ofBytes_lt bs
    rw [h] at hlt
    exact hlt
  rw [bigEndianUint64, UInt64.toNat_ofNat_of_lt' hlt, ← h, beBytes_ofBytes]

theorem bytes32_of_setBytes32 {z : Uint256} (h : setBytes32 bs = .ok z) : z.bytes32 = bs.take 32 := by
  unfold setBytes32 at h
  split at h
  · next hlen =>
    cases h
    have hword {k : ℕ} (hk : k ≤ 24) : beBytes 8 (bigEndianUint64 ((bs.drop k).take 8)).toNat = (bs.drop k).take 8 :=
      beBytes_bigEndianUint64 (by rw [List.length_take, List.length_drop]; omega)
    have h0 := hword (k := 0) (by norm_num)
    rw [List.drop_zero] at h0
    rw [bytes32]
    dsimp only
    rw [h0, hword (by norm_num), hword (by norm_num), hword (by norm_num), ← List.take_add, ← List.take_add, ← List.take_add]
  · cases h

theorem setBytes32_bytes32 : setBytes32 z.bytes32 = .ok z := by
  have hlen : 32 ≤ z.bytes32.length := (length_bytes32 z).ge
  obtain ⟨z', hz'⟩ : ∃ z', setBytes32 z.bytes32 = .ok z' := ⟨_, if_pos hlen⟩
  have hbytes := bytes32_of_setBytes32 hz'
  rw [List.take_of_length_le (length_bytes32 z).le, bytes32_eq, bytes32_eq] at hbytes
  have hlt (z : Uint256) : z.value.toNat < 256 ^ 32 := z.value.isLt
  have hnat := congrArg ofBytes hbytes
  rw [ofBytes_beBytes_of_lt (hlt z'), ofBytes_beBytes_of_lt (hlt z)] at hnat
  rw [hz', value_injective (BitVec.eq_of_toNat_eq hnat)]

theorem value_setBytes32 (bs : Bytes) :
    (setBytes32 bs >>= fun z => .ok z.value) = Storage.EthAccount.setBytes32 bs := by
  cases h : setBytes32 bs with
  | ok z =>
    have hlen : 32 ≤ bs.length := by
      unfold setBytes32 at h
      split at h
      · assumption
      · cases h
    have hbytes := bytes32_of_setBytes32 h
    rw [Storage.EthAccount.setBytes32, if_pos hlen, ← hbytes, bytes32_eq, ofBytes_beBytes_of_lt z.value.isLt,
      BitVec.ofNat_toNat, BitVec.setWidth_eq]
    rfl
  | err e =>
    unfold setBytes32 at h
    split at h <;> cases h
  | panic e =>
    unfold setBytes32 at h
    split at h
    · cases h
    · next hlen =>
      cases h
      rw [Storage.EthAccount.setBytes32, if_neg hlen]
      rfl

end Uint256

/-! ## Records -/

structure EthAccount where
  Nonce : UInt64
  Balance : Option Uint256
  Code : Bytes
  CodeHash : Hash
  deriving DecidableEq

namespace EthAccount

def toStorage (self : EthAccount) : Storage.EthAccount :=
  { Nonce := self.Nonce, Balance := self.Balance.map Uint256.value, Code := self.Code, CodeHash := self.CodeHash }

def balanceBytes (self : EthAccount) : Outcome Bytes :=
  match self.Balance with
  | some z => .ok z.bytes32
  | none => .panic Storage.EthAccount.nilPointer

def serialization (self : EthAccount) (sink : ZeroCopySink) : Outcome ZeroCopySink := do
  let sink ← sink.writeUint64 self.Nonce
  let balance ← self.balanceBytes
  let sink ← sink.writeBytes balance
  let (_, sink) ← sink.writeVarBytes self.Code
  sink.writeHash self.CodeHash

/-- A code that cannot be read is nil; every field is assigned unless the record ends before the code hash. -/
def deserialization (source : ZeroCopySource) : Outcome (EthAccount × ZeroCopySource) := do
  let (nonce, _, source) := source.nextUint 8
  let (bs, _, source) := source.nextBytes 32
  let balance ← Uint256.setBytes32 bs
  let (code, source) := source.readVarBytes
  let (hash, eof, source) := source.nextHash
  if eof then .err "unexpected EOF"
  else
    .ok
      ({ Nonce := UInt64.ofNat nonce
         Balance := some balance
         Code := match code with
           | .ok data => data
           | _ => []
         CodeHash := hash }, source)

variable {a : EthAccount} {z : Uint256}

theorem serialization_eq_ok (hz : a.Balance = some z) {sink : ZeroCopySink}
    (hcap : sink.cap ≤ 2 ^ 40) (hcode : a.Code.length < 2 ^ 32) :
    ∃ sink' raw, a.serialization sink = .ok sink' ∧ a.toStorage.serialization = .ok raw ∧ sink'.buf = sink.buf ++ raw ∧
      raw = leBytes 8 a.Nonce.toNat ++ (z.bytes32 ++ (varBytes a.Code ++ a.CodeHash.1)) := by
  have hmax : ZeroCopySink.maxInt = 2 ^ 63 - 1 := rfl
  obtain ⟨s1, h1, hs1⟩ := sink.writeUint64_eq_ok a.Nonce (by omega)
  have hcap1 := hs1.cap
  obtain ⟨s2, h2, hs2⟩ := s1.writeBytes_eq_ok z.bytes32 (by rw [z.length_bytes32]; omega)
  have hcap2 := hs2.cap
  rw [z.length_bytes32] at hcap2
  obtain ⟨s3, h3, hs3, hcap3⟩ := s2.writeVarBytes_eq_ok a.Code (by omega)
  obtain ⟨s4, h4, hs4⟩ := s3.writeBytes_eq_ok a.CodeHash.1 (by rw [a.CodeHash.2]; omega)
  refine ⟨s4, _, ?_, ?_, ?_, rfl⟩
  · rw [serialization, h1, Outcome.ok_bind, balanceBytes, hz, Outcome.ok_bind, h2, Outcome.ok_bind, h3, Outcome.ok_bind]
    exact h4
  · rw [Storage.EthAccount.serialization, Storage.EthAccount.balance, toStorage, hz]
    dsimp only [Option.map]
    rw [Outcome.ok_bind, ← Uint256.bytes32_eq, List.append_assoc, List.append_assoc]
  · rw [hs4.buf, hs3, hs2.buf, hs1.buf]
    simp only [List.append_assoc]

theorem deserialization_agrees (source : ZeroCopySource) :
    Storage.EthAccount.deserialization source.unread = deserialization source >>= fun r => .ok r.1.toStorage := by
  have h1 := source.nextUint_agrees 8
  unfold Storage.EthAccount.deserialization deserialization
  generalize source.nextUint 8 = x at h1
  generalize Storage.Source.nextUint 8 source.unread = y at h1
  obtain ⟨nonce, eof1, s1⟩ := x
  obtain ⟨nonce', eof1', r1⟩ := y
  obtain ⟨rfl, rfl, rfl, -⟩ := h1
  have h2 := s1.nextBytes_agrees 32
  dsimp only
  generalize s1.nextBytes 32 = x at h2
  generalize Storage.Source.nextBytes s1.unread 32 = y at h2
  obtain ⟨bs, eof2, s2⟩ := x
  obtain ⟨bs', eof2', r2⟩ := y
  obtain ⟨rfl, rfl, rfl, -⟩ := h2
  dsimp only
  rw [← Uint256.value_setBytes32]
  cases Uint256.setBytes32 bs with
  | err | panic => rfl
  | ok z =>
    simp only [Outcome.ok_bind]
    have h3 := s2.readVarBytes_agrees
    generalize s2.readVarBytes = x at h3
    generalize Storage.Source.readVarBytes s2.unread = y at h3
    obtain ⟨code, s3⟩ := x
    obtain ⟨code', r3⟩ := y
    obtain ⟨rfl, rfl, -⟩ := h3
    have h4 := s3.nextHash_agrees
    dsimp only
    generalize s3.nextHash = x at h4
    generalize Storage.Source.nextHash s3.unread = y at h4
    obtain ⟨hash, eof4, s4⟩ := x
    obtain ⟨hash', eof4', r4⟩ := y
    obtain ⟨rfl, rfl, -, -⟩ := h4
    cases eof4 with
    | true | false => rfl

theorem deserialization_of_unread (hz : a.Balance = some z) (hcode : a.Code.length < 2 ^ 64)
    {source : ZeroCopySource} {rest : Bytes}
    (h : source.unread = leBytes 8 a.Nonce.toNat ++ (z.bytes32 ++ (varBytes a.Code ++ (a.CodeHash.1 ++ rest)))) :
    ∃ source', deserialization source = .ok (a, source') ∧ source'.unread = rest ∧ source'.s = source.s := by
  have hnonce : a.Nonce.toNat < 256 ^ 8 := a.Nonce.toNat_lt
  have h1 := source.nextUint_agrees 8
  rw [h, Storage.Source.nextUint_append hnonce] at h1
  unfold deserialization
  generalize source.nextUint 8 = x at h1
  obtain ⟨nonce, eof1, s1⟩ := x
  obtain ⟨rfl, rfl, hu1, hs1⟩ := h1
  have h2 := s1.nextBytes_agrees 32
  dsimp only at hu1 hs1 ⊢
  rw [hu1, Storage.Source.nextBytes_append_of_length z.length_bytes32] at h2
  generalize s1.nextBytes 32 = x at h2
  obtain ⟨bs, eof2, s2⟩ := x
  obtain ⟨rfl, rfl, hu2, hs2⟩ := h2
  have h3 := s2.readVarBytes_agrees
  dsimp only at hu2 hs2 ⊢
  rw [hu2, Storage.Source.readVarBytes_append hcode] at h3
  rw [z.setBytes32_bytes32, Outcome.ok_bind]
  generalize s2.readVarBytes = x at h3
  obtain ⟨code, s3⟩ := x
  obtain ⟨rfl, hu3, hs3⟩ := h3
  have h4 := s3.nextHash_agrees
  dsimp only at hu3 hs3 ⊢
  rw [hu3, Storage.Source.nextHash_append] at h4
  generalize s3.nextHash = x at h4
  obtain ⟨hash, eof4, s4⟩ := x
  obtain ⟨rfl, rfl, hu4, hs4⟩ := h4
  refine ⟨s4, ?_, hu4, ?_⟩
  · dsimp only
    rw [if_neg Bool.false_ne_true, UInt64.ofNat_toNat, ← hz]
  · exact hs4.trans (hs3.trans (hs2.trans hs1))

/-- **Account records are read back**, and nothing of what follows them. -/
theorem deserialization_serialization (a : EthAccount) {z : Uint256} (hz : a.Balance = some z)
    (hcode : a.Code.length < 2 ^ 32) :
    ∃ sink, a.serialization ZeroCopySink.new = .ok sink ∧
      ∀ (rest : Bytes) (hslice : (sink.buf ++ rest).length < 2 ^ 63), ∃ source,
        deserialization (ZeroCopySource.new (sink.buf ++ rest) hslice) = .ok (a, source) ∧
        source.off = sink.buf.length ∧ source.unread = rest := by
  have hcap : ZeroCopySink.new.cap ≤ 2 ^ 40 := by
    rw [ZeroCopySink.cap, ZeroCopySink.new, List.length_replicate]
    norm_num
  obtain ⟨sink, raw, hsink, -, hbuf, hraw⟩ := serialization_eq_ok hz hcap hcode
  have hrecord : sink.buf = raw := hbuf
  refine ⟨sink, hsink, fun rest hslice => ?_⟩
  have hunread : (ZeroCopySource.new (sink.buf ++ rest) hslice).unread =
      leBytes 8 a.Nonce.toNat ++ (z.bytes32 ++ (varBytes a.Code ++ (a.CodeHash.1 ++ rest))) := by
    rw [ZeroCopySource.unread, ZeroCopySource.new]
    dsimp only
    rw [List.drop_zero, hrecord, hraw]
    simp only [List.append_assoc]
  obtain ⟨source, hread, hrest, hs⟩ := deserialization_of_unread hz (hcode.trans (by norm_num)) hunread
  refine ⟨source, hread, ?_, hrest⟩
  -- the position follows from what is left
  have hlen := source.length_unread
  have hinside := source.inside
  have hwhole : source.s.length = sink.buf.length + rest.length := by
    rw [hs]
    exact List.length_append
  rw [hrest] at hlen
  omega

end EthAccount

def sampleAccount : EthAccount :=
  { Nonce := 7, Balance := some { z0 := 1, z1 := 0, z2 := 0, z3 := 2 }, Code := List.replicate 300 0x60, CodeHash := Hash.zero }

theorem deserialization_serialization_sample : ∃ sink, sampleAccount.serialization ZeroCopySink.new = .ok sink ∧
      ∀ (rest : Bytes) (hslice : (sink.buf ++ rest).length < 2 ^ 63), ∃ source,
        EthAccount.deserialization (ZeroCopySource.new (sink.buf ++ rest) hslice) = .ok (sampleAccount, source) ∧
        source.off = sink.buf.length ∧ source.unread = rest :=
  EthAccount.deserialization_serialization sampleAccount rfl (by rw [sampleAccount, List.length_replicate]; norm_num)

end Web3.Codec
