import Web3.Codec.Records

/-! # Canonical records

What `NextVarUint` accepts is what `WriteVarUint` writes. `EthAccount.Deserialization` looks at the end of the input only
for the code hash: a record without room for the balance is a panic, and a malformed code is read as no code. -/

namespace Web3.Codec
open Storage

namespace ZeroCopySource
variable {source source' : ZeroCopySource}

/-- The bytes between two positions. -/
def consumed (source source' : ZeroCopySource) : Bytes := source.unread.take (source'.off - source.off)

theorem consumed_eq {bs : Bytes} (h : source.unread = bs ++ source'.unread) (hs : source'.s = source.s) :
    source.consumed source' = bs := by
  have hlen := congrArg List.length h
  have hinside := source.inside
  have hinside' := source'.inside
  rw [List.length_append, length_unread, length_unread] at hlen
  rw [hs] at hlen hinside'
  rw [consumed, h, List.take_left' (by omega)]

def Accepted (source : ZeroCopySource) : Prop :=
  source.nextVarUint.1.irregular = false ∧ source.nextVarUint.1.eof = false

end ZeroCopySource

/-- What `WriteVarUint` writes to a new sink. -/
def writtenVarUint (data : UInt64) : Outcome Bytes := do
  let (_, sink) ← ZeroCopySink.new.writeVarUint data.toNat
  return sink.buf

theorem writtenVarUint_eq (data : UInt64) : writtenVarUint data = .ok (varUintBytes data.toNat) := by
  have hcap : ZeroCopySink.new.cap = 512 := by rw [ZeroCopySink.cap, ZeroCopySink.new, List.length_replicate]; rfl
  obtain ⟨sink, hsink, happended⟩ := ZeroCopySink.new.writeVarUint_eq_ok data.toNat (by rw [hcap]; decide)
  rw [writtenVarUint, hsink]
  exact congrArg Outcome.ok happended.buf

theorem nextVarUint_of_unread {source : ZeroCopySource} (n : UInt64) {rest : Bytes}
    (h : source.unread = varUintBytes n.toNat ++ rest) :
    ∃ source', source.nextVarUint = (⟨n.toNat, Source.getVarUintSize n.toNat, false, false⟩, source') ∧
      source'.unread = rest ∧ source'.s = source.s := by
  obtain ⟨hdata, hrest, hs⟩ := source.nextVarUint_agrees
  rw [h, Source.nextVarUint_append n.toNat_lt] at hdata hrest
  exact ⟨_, Prod.ext hdata rfl, hrest, hs⟩

theorem accepted_iff (source : ZeroCopySource) : source.Accepted ↔
    writtenVarUint (UInt64.ofNat source.nextVarUint.1.data) = .ok (source.consumed source.nextVarUint.2) := by
  obtain ⟨hdata, hrest, hs⟩ := source.nextVarUint_agrees
  have hlt : source.nextVarUint.1.data < 2 ^ 64 := by
    rw [hdata]
    exact Source.nextVarUint_lt _
  rw [writtenVarUint_eq, UInt64.toNat_ofNat_of_lt' hlt, Outcome.ok.injEq]
  constructor
  · rintro ⟨hirr, heof⟩
    have hsound := Source.nextVarUint_sound (Prod.ext hdata.symm hrest.symm) hirr fun h => by simp [heof] at h
    exact (ZeroCopySource.consumed_eq hsound hs).symm
  · intro hconsumed
    have hunread : source.unread = varUintBytes (UInt64.ofNat source.nextVarUint.1.data).toNat ++
        source.unread.drop (source.nextVarUint.2.off - source.off) := by
      rw [UInt64.toNat_ofNat_of_lt' hlt, hconsumed, ZeroCopySource.consumed, List.take_append_drop]
    obtain ⟨source', hread, -⟩ := nextVarUint_of_unread _ hunread
    rw [ZeroCopySource.Accepted, hread]
    exact ⟨rfl, rfl⟩

/-- **Variable-length integers are canonical.** What is written is read back and nothing behind it, and what is accepted
is what would be written for the number. -/
theorem nextVarUint_canonical :
    (∀ n : UInt64, ∃ bs, writtenVarUint n = .ok bs ∧ ∀ (source : ZeroCopySource) (rest : Bytes),
      source.unread = bs ++ rest → ∃ size source', source.nextVarUint = (⟨n.toNat, size, false, false⟩, source') ∧
        source.consumed source' = bs ∧ source'.unread = rest) ∧
    (∀ source : ZeroCopySource, source.Accepted ↔
      writtenVarUint (UInt64.ofNat source.nextVarUint.1.data) = .ok (source.consumed source.nextVarUint.2)) ∧
    ∀ source₁ source₂ : ZeroCopySource, source₁.Accepted → source₂.Accepted →
      source₁.nextVarUint.1.data = source₂.nextVarUint.1.data →
        source₁.consumed source₁.nextVarUint.2 = source₂.consumed source₂.nextVarUint.2 := by
  refine ⟨fun n => ⟨_, writtenVarUint_eq n, fun source rest h => ?_⟩, accepted_iff, fun source₁ source₂ h₁ h₂ hdata => ?_⟩
  · obtain ⟨source', hread, hrest, hs⟩ := nextVarUint_of_unread n h
    rw [← hrest] at h
    exact ⟨_, source', hread, ZeroCopySource.consumed_eq h hs, hrest⟩
  · have hwritten := (accepted_iff source₁).mp h₁
    rw [hdata, (accepted_iff source₂).mp h₂] at hwritten
    exact (Outcome.ok.inj hwritten).symm


/-! ## Account records -/

namespace EthAccount
variable {source source' : ZeroCopySource}

/-- The end of `Deserialization`, behind the balance. -/
def readCode (nonce : ℕ) (balance : Uint256) (source : ZeroCopySource) : Outcome (EthAccount × ZeroCopySource) :=
  let (code, source) := source.readVarBytes
  let (hash, eof, source) := source.nextHash
  if eof then .err "unexpected EOF"
  else
    .ok
      ({ Nonce := UInt64.ofNat nonce
         Balance := some balance
         Code := match code with
           | .ok data => data
           | _ => []
         CodeHash := hash }, source)

theorem deserialization_eq (source : ZeroCopySource) : ∃ source₂ : ZeroCopySource,
    source₂.unread = source.unread.drop 40 ∧ source₂.s = source.s ∧ deserialization source =
      Uint256.setBytes32 ((source.unread.drop 8).take 32) >>=
        fun balance => readCode (Source.nextUint 8 source.unread).1 balance source₂ := by
  have hrest (s : Storage.Source) : (Source.nextUint 8 s).2.2 = s.drop 8 := by
    rw [Source.nextUint, Source.nextBytes]
    cases decide (8 > s.length) <;> rfl
  obtain ⟨hnonce, -, hunread, hs⟩ := source.nextUint_agrees 8
  obtain ⟨hbytes, -, hunread', hs'⟩ := (source.nextUint 8).2.2.nextBytes_agrees 32
  rw [hunread, hrest] at hbytes hunread'
  refine ⟨((source.nextUint 8).2.2.nextBytes 32).2.2, ?_, hs'.trans hs, ?_⟩
  · rw [hunread']
    exact List.drop_drop
  · rw [← hnonce]
    have hbytes : ((source.nextUint 8).2.2.nextBytes 32).1 = (source.unread.drop 8).take 32 := hbytes
    rw [← hbytes]
    rfl

/-- Corrupt records are rejected: there is no panic, and what is accepted is what would be written for the account. -/
structure RejectsCorrupt (source : ZeroCopySource) : Prop where
  no_panic : ∀ p, deserialization source ≠ .panic p
  exact_bytes : ∀ a source', deserialization source = .ok (a, source') →
    a.toStorage.serialization = .ok (source.consumed source')

/-- The record has its nonce and its balance, and a canonical and complete code unless it ends before the code hash. -/
structure WellCoded (source : ZeroCopySource) : Prop where
  balance : 40 ≤ source.unread.length
  code : (∃ code, (Source.readVarBytes (source.unread.drop 40)).1 = .ok code) ∨
    (Source.readVarBytes (source.unread.drop 40)).2.length < 32

variable {z : Uint256}

theorem serialization_toStorage {nonce : UInt64} {code : Bytes} {hash : Hash} :
    (⟨nonce, some z, code, hash⟩ : EthAccount).toStorage.serialization =
      .ok (leBytes 8 nonce.toNat ++ (z.bytes32 ++ (varBytes code ++ hash.1))) := by
  rw [Uint256.bytes32_eq, ← List.append_assoc, ← List.append_assoc]
  rfl

theorem unread_eq (hlen : 40 ≤ source.unread.length)
    (hz : Uint256.setBytes32 ((source.unread.drop 8).take 32) = .ok z) :
    source.unread = leBytes 8 (UInt64.ofNat (Source.nextUint 8 source.unread).1).toNat ++
      (z.bytes32 ++ source.unread.drop 40) := by
  have hnonce : Source.nextUint 8 source.unread =
      (Storage.ofLeBytes (source.unread.take 8), false, source.unread.drop 8) := by
    rw [Source.nextUint, Source.nextBytes, decide_eq_false (by omega)]
  have hlt := Source.nextUint_lt (k := 8) source.unread
  have hsound := Source.nextUint_sound hnonce
  have hbalance := Uint256.bytes32_of_setBytes32 hz
  rw [hnonce] at hlt
  rw [hnonce, UInt64.toNat_ofNat_of_lt' hlt, hbalance, List.take_take, min_self]
  rw [show 40 = 8 + 32 from rfl, ← List.drop_drop, List.take_append_drop]
  exact hsound

/-- **Corrupt account records are rejected exactly if their code is well formed.** -/
theorem rejectsCorrupt_iff (source : ZeroCopySource) : RejectsCorrupt source ↔ WellCoded source := by
  obtain ⟨source₂, hunread₂, hs₂, heq⟩ := deserialization_eq source
  by_cases hlen : 40 ≤ source.unread.length
  · obtain ⟨z, hz⟩ : ∃ z, Uint256.setBytes32 ((source.unread.drop 8).take 32) = .ok z :=
      ⟨_, if_pos (by rw [List.length_take, List.length_drop]; omega)⟩
    have hfields := unread_eq hlen hz
    obtain ⟨hcode, hunread₃, hs₃⟩ := source₂.readVarBytes_agrees
    obtain ⟨hhash, heof, hunread₄, hs₄⟩ := source₂.readVarBytes.2.nextHash_agrees
    rw [hunread₂] at hcode hunread₃
    rw [hz, Outcome.ok_bind, readCode] at heq
    dsimp only at heq
    constructor
    · intro h
      refine ⟨hlen, ?_⟩
      by_contra! hbad
      obtain ⟨hcoded, hlong⟩ := hbad
      -- a record that is read without its code is not written like this
      have hread : source₂.readVarBytes.2.nextHash.2.1 = false := by
        rw [heof, Source.nextHash_eof, hunread₃, decide_eq_false (not_lt.mpr hlong)]
      rw [hread, if_neg Bool.false_ne_true] at heq
      have hnone : (match source₂.readVarBytes.1 with | .ok data => data | _ => []) = ([] : Bytes) := by
        rw [hcode]
        cases hfield : (Source.readVarBytes (source.unread.drop 40)).1 with
        | ok code => exact absurd hfield (hcoded code)
        | err | panic => rfl
      rw [hnone] at heq
      have hbytes := h.exact_bytes _ _ heq
      rw [serialization_toStorage, Outcome.ok.injEq] at hbytes
      have hwhole := List.take_append_drop (source₂.readVarBytes.2.nextHash.2.2.off - source.off) source.unread
      rw [← ZeroCopySource.consumed, ← hbytes] at hwhole
      have hfield := hwhole.trans hfields
      simp only [List.append_assoc, List.append_cancel_left_eq] at hfield
      refine hcoded [] ?_
      rw [← hfield, Source.readVarBytes_append (by decide)]
    · intro h
      constructor
      · intro p hp
        rw [heq] at hp
        split at hp <;> cases hp
      · intro a source' hok
        rw [heq] at hok
        split at hok
        · cases hok
        · next hread =>
          cases hok
          have hread := Bool.eq_false_of_not_eq_true hread
          have hlong : ¬(Source.readVarBytes (source.unread.drop 40)).2.length < 32 := by
            rw [← hunread₃]
            intro hshort
            rw [heof, Source.nextHash_eof, decide_eq_true hshort] at hread
            cases hread
          obtain ⟨code, hok⟩ := h.code.resolve_right hlong
          have hcoded : source.unread.drop 40 = varBytes code ++ source₂.readVarBytes.2.unread :=
            Source.readVarBytes_sound (Prod.ext hok hunread₃.symm)
          have hhashed : source₂.readVarBytes.2.unread =
              source₂.readVarBytes.2.nextHash.1.1 ++ source₂.readVarBytes.2.nextHash.2.2.unread :=
            Source.nextHash_sound (Prod.ext hhash.symm (Prod.ext (heof.symm.trans hread) hunread₄.symm))
          rw [hcode, hok, serialization_toStorage]
          refine congrArg Outcome.ok (ZeroCopySource.consumed_eq (hfields.trans ?_) (hs₄.trans (hs₃.trans hs₂))).symm
          rw [hcoded, hhashed]
          simp only [List.append_assoc]
  · have hshort : ((source.unread.drop 8).take 32).length < 32 := by
      rw [List.length_take, List.length_drop]
      omega
    rw [Uint256.setBytes32, if_neg (not_le.mpr hshort)] at heq
    exact iff_of_false (fun h => h.no_panic _ heq) fun h => hlen h.balance

/-- A length of three bytes for no code. -/
def irregularRecord : Bytes := List.replicate 40 0 ++ [0xFD, 0, 0] ++ List.replicate 32 0

/-- A record of 39 bytes is a panic, and one with an irregular length is read as an account without code. -/
theorem corrupt_not_rejected :
    (∃ p, deserialization (ZeroCopySource.new (List.replicate 39 0) (by decide)) = .panic p) ∧
    ∃ source', deserialization (ZeroCopySource.new irregularRecord (by decide)) =
        .ok (⟨0, some ⟨0, 0, 0, 0⟩, [], Hash.zero⟩, source') ∧
      (⟨0, some ⟨0, 0, 0, 0⟩, [], Hash.zero⟩ : EthAccount).toStorage.serialization ≠
        .ok ((ZeroCopySource.new irregularRecord (by decide)).consumed source') ∧
      ¬RejectsCorrupt (ZeroCopySource.new irregularRecord (by decide)) := by
  refine ⟨⟨_, rfl⟩, _, rfl, by decide, fun h => ?_⟩
  exact absurd (h.exact_bytes _ _ rfl) (by decide)

end EthAccount

end Web3.Codec
