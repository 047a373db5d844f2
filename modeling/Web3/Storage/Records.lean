import Web3.Storage.Codec

/-! # Account records read back

Each reader undoes its writer on any bytes that follow, so a record that an account was written to reads
back as that account. -/

namespace Web3.Storage

/-! ## Numbers -/

variable {k n : ℕ} {a : EthAccount}

@[simp] theorem length_leBytes (k n : ℕ) : (leBytes k n).length = k := by
  rw [leBytes, List.length_reverse, length_beBytes]

theorem ofLeBytes_leBytes (h : n < 256 ^ k) : ofLeBytes (leBytes k n) = n := by
  rw [ofLeBytes, leBytes, List.reverse_reverse, ofBytes_beBytes_of_lt h]

namespace Source

theorem nextBytes_append (bs s : Bytes) : nextBytes (bs ++ s) bs.length = (bs, false, s) := by
  simp [nextBytes]

variable {bs : Bytes}

theorem nextBytes_append_of_length (h : bs.length = k) (s : Bytes) :
    nextBytes (bs ++ s) k = (bs, false, s) := h ▸ nextBytes_append bs s

theorem nextUint_append (h : n < 256 ^ k) (s : Bytes) : nextUint k (leBytes k n ++ s) = (n, false, s) := by
  rw [nextUint, nextBytes_append_of_length (length_leBytes k n)]
  simp only [ofLeBytes_leBytes h]

/-! ## Lengths -/

theorem nextVarUintOf_append (h : n < 256 ^ k) (hsize : getVarUintSize n = k + 1) (s : Bytes) :
    nextVarUintOf k (leBytes k n ++ s) = (⟨n, k + 1, false, false⟩, s) := by
  rw [nextVarUintOf, nextUint_append h]
  simp [hsize]

theorem nextVarUint_small (h : n < 0xFD) (s : Bytes) :
    nextVarUint (UInt8.ofNat n :: s) = (⟨n, 1, false, false⟩, s) := by
  have hn : (UInt8.ofNat n).toNat = n := UInt8.toNat_ofNat_of_lt' (by simp [UInt8.size]; omega)
  have hsize : getVarUintSize n = 1 := by rw [getVarUintSize, if_pos h]
  have hne : ∀ marker : UInt8, 0xFD ≤ marker.toNat → UInt8.ofNat n ≠ marker := by
    rintro _ hle rfl
    omega
  rw [nextVarUint, nextByte]
  split
  · simp_all
  · next heq => exact absurd (congrArg Prod.fst heq) (hne 0xFD (by decide))
  · next heq => exact absurd (congrArg Prod.fst heq) (hne 0xFE (by decide))
  · next heq => exact absurd (congrArg Prod.fst heq) (hne 0xFF (by decide))
  · next heq =>
    cases heq
    simp [hn, hsize]

theorem nextVarUint_append (h : n < 2 ^ 64) (s : Bytes) :
    nextVarUint (varUintBytes n ++ s) = (⟨n, getVarUintSize n, false, false⟩, s) := by
  rw [varUintBytes, getVarUintSize]
  split_ifs with h1 h2 h3
  · exact nextVarUint_small h1 s
  · have hsize : getVarUintSize n = 2 + 1 := by simp [getVarUintSize, h1, h2]
    exact nextVarUintOf_append (by omega) hsize s
  · have hsize : getVarUintSize n = 4 + 1 := by simp [getVarUintSize, h1, h2, h3]
    exact nextVarUintOf_append (by omega) hsize s
  · have hsize : getVarUintSize n = 8 + 1 := by simp [getVarUintSize, h1, h2, h3]
    exact nextVarUintOf_append (by omega) hsize s

theorem readVarBytes_append (h : bs.length < 2 ^ 64) (s : Bytes) :
    readVarBytes (varBytes bs ++ s) = (.ok bs, s) := by
  rw [readVarBytes, nextVarBytes, varBytes, List.append_assoc, nextVarUint_append h]
  by_cases hbs : bs.length > 0
  · simp only [hbs, if_true, nextBytes_append]
    rfl
  · obtain rfl : bs = [] := List.length_eq_zero_iff.mp (by omega)
    rfl

theorem nextHash_append (h : Hash) (s : Bytes) : nextHash (h.1 ++ s) = (h, false, s) := by
  have hfit : bytesToHash h.1 = h := Subtype.ext (by simp [bytesToHash, fitBytes, h.2])
  rw [nextHash, nextBytes_append_of_length h.2]
  simp only [hfit]

end Source

/-! ## Records -/

namespace EthAccount

theorem setBytes32_beBytes (b : U256) : setBytes32 (beBytes 32 b.toNat) = .ok b := by
  have hlt : b.toNat < 256 ^ 32 := by
    have := b.isLt
    norm_num at this ⊢
    omega
  rw [setBytes32, length_beBytes, if_pos le_rfl, List.take_of_length_le (by rw [length_beBytes]),
    ofBytes_beBytes_of_lt hlt, BitVec.ofNat_toNat, BitVec.setWidth_eq]

/-- **A record reads back as the account it was written for**, also with bytes behind it. -/
theorem deserialization_append {b : U256} (hb : a.Balance = some b) (hcode : a.Code.length < 2 ^ 64)
    {raw : Bytes} (hraw : a.serialization = .ok raw) (s : Bytes) : deserialization (raw ++ s) = .ok a := by
  rw [serialization, balance, hb, Outcome.ok_bind] at hraw
  cases hraw
  have hnonce : a.Nonce.toNat < 256 ^ 8 := by
    have := a.Nonce.toNat_lt
    norm_num
    omega
  simp only [deserialization, List.append_assoc]
  rw [Source.nextUint_append hnonce]
  simp only
  rw [Source.nextBytes_append_of_length (length_beBytes 32 b.toNat)]
  simp only
  rw [setBytes32_beBytes, Outcome.ok_bind, Source.readVarBytes_append hcode]
  simp only
  rw [Source.nextHash_append]
  obtain ⟨nonce, _, code, hash⟩ := a
  obtain rfl : _ = some b := hb
  simp

end EthAccount

/-! ## Codes of read accounts fit a length field -/

namespace Source

theorem nextUint_lt (s : Source) : (nextUint k s).1 < 256 ^ k := by
  rw [nextUint, nextBytes]
  cases decide (k > s.length) with
  | true => exact Nat.pow_pos (by omega)
  | false =>
    have h := ofBytes_lt (s.take k).reverse
    rw [List.length_reverse, List.length_take] at h
    exact h.trans_le (Nat.pow_le_pow_right (by omega) (min_le_left ..))

theorem nextVarUintOf_lt (hk : k ≤ 8) (s : Source) : (nextVarUintOf k s).1.data < 2 ^ 64 := by
  have hlt := nextUint_lt (k := k) s
  have hpow : 256 ^ k ≤ 256 ^ 8 := Nat.pow_le_pow_right (by omega) hk
  rw [nextVarUintOf]
  split
  · norm_num
  · next heq =>
    rw [heq] at hlt
    simp only at hlt ⊢
    omega

theorem nextVarUint_lt (s : Source) : (nextVarUint s).1.data < 2 ^ 64 := by
  rw [nextVarUint]
  split
  · norm_num
  · exact nextVarUintOf_lt (by omega) _
  · exact nextVarUintOf_lt (by omega) _
  · exact nextVarUintOf_lt (by omega) _
  · next fb _ _ _ _ _ =>
    have := fb.toNat_lt
    simp only
    omega

theorem length_nextVarBytes (s : Source) : (nextVarBytes s).1.data.length < 2 ^ 64 := by
  have hlt := nextVarUint_lt s
  rw [nextVarBytes]
  generalize nextVarUint s = v at hlt ⊢
  obtain ⟨r, s⟩ := v
  simp only at hlt ⊢
  split
  · simp only [nextBytes, List.length_take]
    omega
  · norm_num

theorem length_readVarBytes {s s' : Source} {bs : Bytes} (h : readVarBytes s = (.ok bs, s')) : bs.length < 2 ^ 64 := by
  have hlt := length_nextVarBytes s
  rw [readVarBytes] at h
  generalize nextVarBytes s = v at hlt h
  obtain ⟨r, s⟩ := v
  simp only at hlt h
  split at h
  · cases h
  · split at h <;> cases h
    exact hlt

end Source

theorem EthAccount.length_code {source : Source} (h : EthAccount.deserialization source = .ok a) :
    a.Code.length < 2 ^ 64 := by
  simp only [EthAccount.deserialization] at h
  obtain ⟨b, -, h⟩ := Outcome.bind_eq_ok.mp h
  split at h
  · cases h
  · cases h
    simp only
    split
    · next data hdata => exact Source.length_readVarBytes (Prod.ext hdata rfl)
    · simp

/-! ## What is accepted is what was written -/

theorem leBytes_ofLeBytes (bs : Bytes) : leBytes bs.length (ofLeBytes bs) = bs := by
  rw [leBytes, ofLeBytes, ← List.length_reverse, beBytes_ofBytes, List.reverse_reverse]

namespace Source
variable {s s' : Source}

theorem nextBytes_sound {buf : Bytes} (h : nextBytes s n = (buf, false, s')) : s = buf ++ s' ∧ buf.length = n := by
  simp only [nextBytes, Prod.mk.injEq, decide_eq_false_iff_not, not_lt] at h
  obtain ⟨rfl, hle, rfl⟩ := h
  exact ⟨(List.take_append_drop n s).symm, List.length_take_of_le hle⟩

theorem nextUint_sound (h : nextUint k s = (n, false, s')) : s = leBytes k n ++ s' := by
  rw [nextUint] at h
  split at h
  · cases h
  · next buf s₁ hbuf =>
    cases h
    obtain ⟨hs, hlen⟩ := nextBytes_sound hbuf
    rw [hs, ← hlen, leBytes_ofLeBytes]

theorem nextHash_eof (s : Source) : (nextHash s).2.1 = decide (s.length < 32) := by
  rw [nextHash, nextBytes]
  cases decide (32 > s.length) <;> rfl

theorem nextHash_sound {hash : Hash} (h : nextHash s = (hash, false, s')) : s = hash.1 ++ s' := by
  rw [nextHash] at h
  split at h
  · cases h
  · next buf s₁ hbuf =>
    cases h
    obtain ⟨hs, hlen⟩ := nextBytes_sound hbuf
    have hfit : (bytesToHash buf).1 = buf := fitBytes_of_length hlen
    rw [hs, hfit]

variable {r : VarResult ℕ}

/-- The marker in front of the number is the one of its size. -/
theorem nextVarUintOf_sound (h : nextVarUintOf k s = (r, s')) (hirr : r.irregular = false)
    (heof : r.eof = true → 0 < r.data) : s = leBytes k r.data ++ s' ∧ getVarUintSize r.data = k + 1 := by
  rw [nextVarUintOf] at h
  split at h
  · cases h
    exact absurd (heof rfl) (lt_irrefl 0)
  · next data s₁ hdata =>
    cases h
    exact ⟨nextUint_sound hdata, (bne_eq_false_iff_eq.mp hirr).symm⟩

theorem varUintBytes_of_size (h : getVarUintSize n = k + 1) : varUintBytes n =
    if k = 0 then [UInt8.ofNat n] else (if k = 2 then 0xFD else if k = 4 then 0xFE else 0xFF) :: leBytes k n := by
  rw [getVarUintSize] at h
  rw [varUintBytes]
  split_ifs at h with h1 h2 h3
  · obtain rfl : k = 0 := by omega
    rw [if_pos h1, if_pos rfl]
  · obtain rfl : k = 2 := by omega
    rw [if_neg h1, if_pos h2, if_neg (by decide), if_pos rfl]
  · obtain rfl : k = 4 := by omega
    rw [if_neg h1, if_neg h2, if_pos h3, if_neg (by decide), if_neg (by decide), if_pos rfl]
  · obtain rfl : k = 8 := by omega
    rw [if_neg h1, if_neg h2, if_neg h3, if_neg (by decide), if_neg (by decide), if_neg (by decide)]

/-- **A length that is accepted is canonical.** -/
theorem nextVarUint_sound (h : nextVarUint s = (r, s')) (hirr : r.irregular = false)
    (heof : r.eof = true → 0 < r.data) : s = varUintBytes r.data ++ s' := by
  have hmarked {k : ℕ} {s₁ : Source} (h : nextVarUintOf (k + 1) s₁ = (r, s')) :
      varUintBytes r.data ++ s' = (if k + 1 = 2 then 0xFD else if k + 1 = 4 then 0xFE else 0xFF) :: s₁ := by
    obtain ⟨hs, hsize⟩ := nextVarUintOf_sound h hirr heof
    rw [varUintBytes_of_size hsize, if_neg k.succ_ne_zero, List.cons_append, ← hs]
  cases s with
  | nil =>
    cases h
    exact absurd (heof rfl) (lt_irrefl 0)
  | cons fb s =>
    rw [nextVarUint, nextByte] at h
    split at h
    · next heq => cases heq
    · next heq =>
      cases heq
      exact (hmarked h).symm
    · next heq =>
      cases heq
      exact (hmarked h).symm
    · next heq =>
      cases heq
      exact (hmarked h).symm
    · next heq =>
      cases heq
      cases h
      have hsize : getVarUintSize fb.toNat = 0 + 1 := (bne_eq_false_iff_eq.mp hirr).symm
      rw [varUintBytes_of_size hsize, if_pos rfl, UInt8.ofNat_toNat]
      rfl

theorem readVarBytes_sound {bs : Bytes} (h : readVarBytes s = (.ok bs, s')) : s = varBytes bs ++ s' := by
  rw [readVarBytes] at h
  split at h
  next r s₂ hr =>
  split at h
  · cases h
  · next hirr =>
    split at h
    · cases h
    · next heof =>
      cases h
      rw [nextVarBytes] at hr
      rcases hcount : nextVarUint s with ⟨count, s₁⟩
      rw [hcount] at hr
      dsimp only at hr
      split at hr
      · next hpos =>
        rcases hbuf : nextBytes s₁ count.data with ⟨buf, eof, s₂⟩
        rw [hbuf] at hr
        cases hr
        cases Bool.eq_false_of_not_eq_true heof
        obtain ⟨hs₁, hlen⟩ := nextBytes_sound hbuf
        have hs := nextVarUint_sound hcount (Bool.eq_false_of_not_eq_true hirr) fun _ => hpos
        rw [hs, hs₁, varBytes, hlen, List.append_assoc]
      · next hzero =>
        cases hr
        have hs := nextVarUint_sound hcount (Bool.eq_false_of_not_eq_true hirr) fun h => absurd h heof
        have hdata : count.data = 0 := by omega
        rw [hs, hdata]
        rfl

end Source

end Web3.Storage
