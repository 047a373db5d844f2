import Web3.Foundations.Words

/-! # Recursive length prefixes

The encoding of byte strings and lists that `fastrlp` writes, and that it can be decoded in one way only. -/

namespace Web3

inductive Rlp where
  | bytes (b : Bytes)
  | list (items : List Rlp)

namespace Rlp

def ofNat (n : ℕ) : Rlp := .bytes (toBytes n)

/-- The header of a payload, for strings (`base` is `0x80`) and for lists (`0xc0`). -/
def header (base : ℕ) (payload : Bytes) : Bytes :=
  if payload.length ≤ 55 then [UInt8.ofNat (base + payload.length)]
  else UInt8.ofNat (base + 55 + (toBytes payload.length).length) :: toBytes payload.length

def encodeBytes (b : Bytes) : Bytes :=
  match b with
  | [x] => if x < 0x80 then [x] else header 0x80 [x] ++ [x]
  | b => header 0x80 b ++ b

mutual

def encode : Rlp → Bytes
  | .bytes b => encodeBytes b
  | .list items =>
    let payload := encodeAll items
    header 0xc0 payload ++ payload

def encodeAll : List Rlp → Bytes
  | [] => []
  | item :: items => item.encode ++ encodeAll items

end

variable {n base : ℕ} {payload p q u v b : Bytes}

theorem ofNat_injective {m : ℕ} (h : ofNat n = ofNat m) : n = m := by
  rw [ofNat, ofNat, Rlp.bytes.injEq] at h
  rw [← ofBytes_toBytes n, h, ofBytes_toBytes]

/-! ## Headers

The length of a payload below `2^64` has at most eight bytes, so that the first byte of a header stays below
`base + 64`. -/

def marker (base : ℕ) (payload : Bytes) : ℕ :=
  if payload.length ≤ 55 then base + payload.length else base + 55 + (toBytes payload.length).length

def lengthBytes (payload : Bytes) : Bytes := if payload.length ≤ 55 then [] else toBytes payload.length

theorem header_eq (base : ℕ) (payload : Bytes) :
    header base payload = UInt8.ofNat (marker base payload) :: lengthBytes payload := by
  unfold header marker lengthBytes
  split <;> rfl

theorem length_toBytes_pos (h : 0 < n) : 0 < (toBytes n).length := by
  rw [List.length_pos_iff]
  intro hnil
  have hzero := ofBytes_toBytes n
  rw [hnil, ofBytes_nil] at hzero
  omega

theorem marker_bounds (base : ℕ) (h : payload.length < 2 ^ 64) :
    base ≤ marker base payload ∧ marker base payload ≤ base + 63 := by
  have hle : (toBytes payload.length).length ≤ 8 := length_toBytes_le h
  unfold marker
  split <;> omega

theorem toNat_marker (hbase : base ≤ 0xc0) (h : payload.length < 2 ^ 64) :
    (UInt8.ofNat (marker base payload)).toNat = marker base payload := by
  have hle := (marker_bounds base h).2
  rw [UInt8.toNat_ofNat', Nat.mod_eq_of_lt (by omega)]

theorem length_eq_of_marker (hmarker : marker base p = marker base q) :
    (lengthBytes p).length = (lengthBytes q).length ∧ (lengthBytes p = lengthBytes q → p.length = q.length) := by
  unfold marker at hmarker
  unfold lengthBytes
  by_cases hp : p.length ≤ 55
  · by_cases hq : q.length ≤ 55
    · rw [if_pos hp, if_pos hq] at hmarker
      rw [if_pos hp, if_pos hq]
      exact ⟨rfl, fun _ => by omega⟩
    · have hpos := length_toBytes_pos (n := q.length) (by omega)
      rw [if_pos hp, if_neg hq] at hmarker
      omega
  · by_cases hq : q.length ≤ 55
    · have hpos := length_toBytes_pos (n := p.length) (by omega)
      rw [if_neg hp, if_pos hq] at hmarker
      omega
    · rw [if_neg hp, if_neg hq] at hmarker
      rw [if_neg hp, if_neg hq]
      refine ⟨by omega, fun h => ?_⟩
      rw [← ofBytes_toBytes p.length, h, ofBytes_toBytes]

theorem header_append_inj (hbase : base ≤ 0xc0) (hp : p.length < 2 ^ 64) (hq : q.length < 2 ^ 64)
    (h : header base p ++ p ++ u = header base q ++ q ++ v) : p = q ∧ u = v := by
  simp only [header_eq, List.cons_append, List.append_assoc] at h
  obtain ⟨hfirst, hrest⟩ := List.cons.inj h
  have hmarker : marker base p = marker base q := by
    rw [← toNat_marker hbase hp, hfirst, toNat_marker hbase hq]
  obtain ⟨hlen, hlength⟩ := length_eq_of_marker hmarker
  obtain ⟨hbytes, hpayload⟩ := List.append_inj hrest hlen
  exact List.append_inj hpayload (hlength hbytes)

/-! ## Items -/

theorem encodeBytes_cases (b : Bytes) :
    (∃ x, b = [x] ∧ x.toNat < 0x80 ∧ encodeBytes b = [x]) ∨ encodeBytes b = header 0x80 b ++ b := by
  unfold encodeBytes
  split
  · next x =>
    split
    · next hlt => exact .inl ⟨x, rfl, hlt, rfl⟩
    · exact .inr rfl
  · exact .inr rfl

theorem length_le_length_encodeBytes (b : Bytes) : b.length ≤ (encodeBytes b).length := by
  rcases encodeBytes_cases b with ⟨x, rfl, -, h⟩ | h
  · rw [h]
  · rw [h, List.length_append]
    omega

theorem encodeBytes_append_inj {c : Bytes} (hb : b.length < 2 ^ 64) (hc : c.length < 2 ^ 64)
    (h : encodeBytes b ++ u = encodeBytes c ++ v) : b = c ∧ u = v := by
  have hlow {b : Bytes} (hb : b.length < 2 ^ 64) : 0x80 ≤ (UInt8.ofNat (marker 0x80 b)).toNat := by
    rw [toNat_marker (by norm_num) hb]
    exact (marker_bounds 0x80 hb).1
  rcases encodeBytes_cases b with ⟨x, rfl, hx, heb⟩ | heb
  · rcases encodeBytes_cases c with ⟨y, rfl, hy, hec⟩ | hec
    · rw [heb, hec] at h
      exact List.append_inj h rfl
    · rw [heb, hec, header_eq, List.cons_append, List.cons_append] at h
      have hfirst := (List.cons.inj h).1
      have := hlow hc
      rw [← hfirst] at this
      omega
  · rcases encodeBytes_cases c with ⟨y, rfl, hy, hec⟩ | hec
    · rw [heb, hec, header_eq, List.cons_append, List.cons_append] at h
      have hfirst := (List.cons.inj h).1
      have := hlow hb
      rw [hfirst] at this
      omega
    · rw [heb, hec] at h
      exact header_append_inj (by norm_num) hb hc h

theorem encodeBytes_append_ne_header (hb : b.length < 2 ^ 64) (hp : p.length < 2 ^ 64) :
    encodeBytes b ++ u ≠ header 0xc0 p ++ p ++ v := by
  intro h
  have hhigh : 0xc0 ≤ (UInt8.ofNat (marker 0xc0 p)).toNat := by
    rw [toNat_marker le_rfl hp]
    exact (marker_bounds 0xc0 hp).1
  rcases encodeBytes_cases b with ⟨x, rfl, hx, heb⟩ | heb
  · rw [heb, header_eq, List.cons_append, List.cons_append, List.cons_append] at h
    rw [← (List.cons.inj h).1] at hhigh
    omega
  · rw [heb, header_eq, header_eq] at h
    simp only [List.cons_append] at h
    rw [← (List.cons.inj h).1, toNat_marker (by norm_num) hb] at hhigh
    have := (marker_bounds 0x80 hb).2
    omega

theorem encode_ne_nil (item : Rlp) : item.encode ≠ [] := by
  cases item with
  | bytes b =>
    rw [encode]
    rcases encodeBytes_cases b with ⟨x, rfl, -, h⟩ | h
    · rw [h]
      exact List.cons_ne_nil _ _
    · rw [h, header_eq]
      exact List.cons_ne_nil _ _
  | list items =>
    rw [encode, header_eq]
    exact List.cons_ne_nil _ _

theorem length_encodeAll_le (items : List Rlp) : (encodeAll items).length ≤ (Rlp.list items).encode.length := by
  rw [encode, List.length_append]
  omega

mutual

theorem encode_append_inj (a b : Rlp) (ha : a.encode.length < 2 ^ 64) (hb : b.encode.length < 2 ^ 64) (u v : Bytes)
    (h : a.encode ++ u = b.encode ++ v) : a = b ∧ u = v := by
  cases a with
  | bytes c =>
    have hc : c.length < 2 ^ 64 := by
      rw [encode] at ha
      exact (length_le_length_encodeBytes c).trans_lt ha
    cases b with
    | bytes d =>
      rw [encode] at hb
      rw [encode, encode] at h
      obtain ⟨rfl, huv⟩ := encodeBytes_append_inj hc ((length_le_length_encodeBytes d).trans_lt hb) h
      exact ⟨rfl, huv⟩
    | list items =>
      rw [encode, encode] at h
      exact absurd h (encodeBytes_append_ne_header hc ((length_encodeAll_le items).trans_lt hb))
  | list items =>
    have hitems := (length_encodeAll_le items).trans_lt ha
    cases b with
    | bytes d =>
      rw [encode] at hb
      rw [encode, encode] at h
      exact absurd h.symm (encodeBytes_append_ne_header ((length_le_length_encodeBytes d).trans_lt hb) hitems)
    | list items' =>
      have hitems' := (length_encodeAll_le items').trans_lt hb
      rw [encode, encode] at h
      obtain ⟨hpayload, huv⟩ := header_append_inj le_rfl hitems hitems' h
      rw [encodeAll_inj items items' hitems hpayload]
      exact ⟨rfl, huv⟩

theorem encodeAll_inj (as bs : List Rlp) (ha : (encodeAll as).length < 2 ^ 64) (h : encodeAll as = encodeAll bs) :
    as = bs := by
  cases as with
  | nil =>
    cases bs with
    | nil => rfl
    | cons b bs =>
      rw [encodeAll, encodeAll] at h
      exact absurd (List.append_eq_nil_iff.mp h.symm).1 (encode_ne_nil b)
  | cons a as =>
    cases bs with
    | nil =>
      rw [encodeAll, encodeAll] at h
      exact absurd (List.append_eq_nil_iff.mp h).1 (encode_ne_nil a)
    | cons b bs =>
      have hb : (encodeAll (b :: bs)).length < 2 ^ 64 := h ▸ ha
      rw [encodeAll, List.length_append] at ha hb
      rw [encodeAll, encodeAll] at h
      obtain ⟨rfl, hrest⟩ := encode_append_inj a b (by omega) (by omega) _ _ h
      rw [encodeAll_inj as bs (by omega) hrest]

end

theorem encode_inj {a b : Rlp} (ha : a.encode.length < 2 ^ 64) (h : a.encode = b.encode) : a = b :=
  (encode_append_inj a b ha (h ▸ ha) [] [] (by rw [h])).1

end Rlp
end Web3
