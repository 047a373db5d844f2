import Web3.Abi.Reencode

/-! # How many values are decoded

Each level of the decoder checks its own element count against the bytes that are left, and nothing records
which bytes were read: the offsets of several elements may point at the same data. So the number of leaf values
is bounded by a power of the number of input words, with one factor for each level of nesting, and nested tuples
over zero bytes reach that bound. -/

namespace Web3.Abi

mutual
def depth : Typ → ℕ
  | .slice elem => depth elem + 1
  | .array _ elem => depth elem + 1
  | .tuple _ elems => maxDepth elems + 1
  | _ => 1

def maxDepth : TupleElems → ℕ
  | .nil => 0
  | .cons _ elem _ rest => max (depth elem) (maxDepth rest)
end

/-! ## Leaves

The number of elementary values that `decode` reads or tries to read, until it fails. -/

def leavesElems (dec : Bytes → Outcome (Val × Bytes)) (count : Bytes → ℕ) (isDynamic : Bool) (orig : Bytes) :
    ℕ → Bytes → ℕ
  | 0, _ => 0
  | n + 1, data =>
    match entryOf isDynamic orig data with
    | .ok entry =>
      count entry + match dec entry >>= fun r => restOf isDynamic data r.2 with
        | .ok rest => leavesElems dec count isDynamic orig n rest
        | _ => 0
    | _ => 0

def leavesArraySlice (dec : Bytes → Outcome (Val × Bytes)) (count : Bytes → ℕ) (isDynamic : Bool) (data : Bytes)
    (size : ℕ) : ℕ :=
  if 32 * size > data.length then 0 else leavesElems dec count isDynamic data size data

mutual
def leaves (t : Typ) (input : Bytes) : ℕ :=
  if input.length < 32 then 0
  else
    match t with
    | .tuple _ elems => leavesTuple elems 0 input input []
    | .slice elem =>
      match readLength input with
      | .ok length =>
        leavesArraySlice (fun b => decode elem b) (fun b => leaves elem b) (isDynamicType elem) (input.drop 32) length
      | _ => 0
    | .array size elem =>
      leavesArraySlice (fun b => decode elem b) (fun b => leaves elem b) (isDynamicType elem) input size
    | _ => 1

def leavesTuple : TupleElems → ℕ → Bytes → Bytes → List String → ℕ
  | .nil, _, _, _, _ => 0
  | .cons name elem _ rest, indx, orig, data, keys =>
    match entryOf (isDynamicType elem) orig data with
    | .ok entry =>
      leaves elem entry + match decode elem entry >>= fun r => restOf (isDynamicType elem) data r.2 with
        | .ok data =>
          if nameToKey name indx ∈ keys then 0
          else leavesTuple rest (indx + 1) orig data (keys ++ [nameToKey name indx])
        | _ => 0
    | _ => 0
end

mutual
def leafValues : Typ → Val → ℕ
  | .slice elem, .slice _ vs => (vs.map fun w => leafValues elem w).sum
  | .array _ elem, .array _ vs => (vs.map fun w => leafValues elem w).sum
  | .tuple _ elems, .map kvs => leafFields elems kvs
  | _, _ => 1

def leafFields : TupleElems → List (String × Val) → ℕ
  | .cons _ elem _ rest, kv :: kvs => leafValues elem kv.2 + leafFields rest kvs
  | _, _ => 0
end

/-! ## A decoded value has as many leaves as were read -/

theorem leavesElems_eq {elem : Typ} {count : Bytes → ℕ} {value : Val → ℕ} {orig : Bytes}
    (hdec : ∀ b v tail, decode elem b = .ok (v, tail) → count b = value v) :
    ∀ (n : ℕ) (data : Bytes) (res vals : List Val) (rest : Bytes),
      decodeElems (fun b => decode elem b) (isDynamicType elem) orig n data res = .ok (vals, rest) →
      ∃ vs, vals = res ++ vs ∧
        leavesElems (fun b => decode elem b) count (isDynamicType elem) orig n data = (vs.map value).sum
  | 0, data, res, vals, rest, h => by
    simp only [decodeElems, Outcome.ok.injEq, Prod.mk.injEq] at h
    exact ⟨[], by simp [h.1], rfl⟩
  | n + 1, data, res, vals, rest, h => by
    simp only [decodeElems, Outcome.bind_eq_ok] at h
    obtain ⟨entry, hentry, ⟨v, tail⟩, hval, data', hdata', h⟩ := h
    obtain ⟨vs, rfl, hsum⟩ := leavesElems_eq hdec n _ _ vals rest h
    refine ⟨v :: vs, by rw [List.append_assoc, List.singleton_append], ?_⟩
    rw [List.map_cons, List.sum_cons, ← hdec entry v tail hval, ← hsum]
    simp [leavesElems, hentry, hval, hdata']

variable {elem t : Typ} {count : Bytes → ℕ} {data rest input orig entry : Bytes} {n : ℕ}

theorem leavesArraySlice_eq {value : Val → ℕ} {mk : GoType → List Val → Val} {ty : GoType} {v : Val}
    (hdec : ∀ b v tail, decode elem b = .ok (v, tail) → count b = value v)
    (h : decodeArraySlice (fun b => decode elem b) (isDynamicType elem) mk ty data n = .ok (v, rest)) :
    ∃ vs, v = mk ty vs ∧
      leavesArraySlice (fun b => decode elem b) count (isDynamicType elem) data n = (vs.map value).sum := by
  rw [decodeArraySlice_unlimited, Outcome.checked_eq_ok, Outcome.bind_eq_ok] at h
  obtain ⟨hsize, ⟨vals, rest'⟩, helems, h⟩ := h
  obtain ⟨_, rfl, hsum⟩ := leavesElems_eq hdec n data [] vals rest' helems
  cases h
  exact ⟨_, rfl, by rw [leavesArraySlice, if_neg hsize, hsum]⟩

mutual
theorem leaves_eq_leafValues : (t : Typ) → {input : Bytes} → {v : Val} → {rest : Bytes} →
    decode t input = .ok (v, rest) → leaves t input = leafValues t v
  | .bool, input, v, rest, h | .string, input, v, rest, h | .bytes, input, v, rest, h
  | .address, input, v, rest, h | .fixedBytes _, input, v, rest, h | .function, input, v, rest, h
  | .uint _, input, v, rest, h | .int _, input, v, rest, h => by
    rw [decode, Outcome.checked_eq_ok] at h
    rw [leaves, if_neg h.1] <;> simp [leafValues]
  | .slice elem, input, v, rest, h => by
    rw [decode, Outcome.checked_eq_ok, Outcome.bind_eq_ok] at h
    obtain ⟨hlen, n, hn, h⟩ := h
    obtain ⟨vs, rfl, hsum⟩ := leavesArraySlice_eq (fun b v tail hb => leaves_eq_leafValues elem hb) h
    rw [leaves, if_neg hlen, leafValues]
    simp only [hn, hsum]
  | .array size elem, input, v, rest, h => by
    rw [decode, Outcome.checked_eq_ok] at h
    obtain ⟨vs, rfl, hsum⟩ := leavesArraySlice_eq (fun b v tail hb => leaves_eq_leafValues elem hb) h.2
    rw [leaves, if_neg h.1, leafValues, hsum]
  | .tuple _ elems, input, v, rest, h => by
    rw [decode, Outcome.checked_eq_ok] at h
    obtain ⟨new, rfl, hsum⟩ := leavesTuple_eq elems h.2
    rw [leaves, if_neg h.1, List.nil_append, leafValues]
    exact hsum

theorem leavesTuple_eq : (es : TupleElems) → {i : ℕ} → {orig data : Bytes} → {res : List (String × Val)} → {v : Val} →
    {rest : Bytes} → decodeTuple es i orig data res = .ok (v, rest) →
    ∃ new, v = .map (res ++ new) ∧ leavesTuple es i orig data (res.map Prod.fst) = leafFields es new
  | .nil, i, orig, data, res, v, rest, h => by
    simp only [decodeTuple, Outcome.ok.injEq, Prod.mk.injEq] at h
    exact ⟨[], by simp [h.1], by simp [leavesTuple, leafFields]⟩
  | .cons name elem indexed es, i, orig, data, res, v, rest, h => by
    simp only [decodeTuple, Outcome.bind_eq_ok] at h
    obtain ⟨entry, hentry, ⟨val, tail⟩, hval, data', hdata', h⟩ := h
    rw [Outcome.checked_eq_ok, Option.not_isSome_iff_eq_none, lookup_eq_none_iff_not_mem] at h
    obtain ⟨new, rfl, hsum⟩ := leavesTuple_eq es h.2
    refine ⟨(nameToKey name i, val) :: new, by rw [List.append_assoc, List.singleton_append], ?_⟩
    rw [List.map_append] at hsum
    rw [leafFields, ← leaves_eq_leafValues elem hval, ← hsum]
    simp [leavesTuple, hentry, hval, hdata', h.1]
end

/-! ## The bound -/

theorem leaves_short (h : input.length < 32) : leaves t input = 0 := by
  rw [leaves.eq_def, if_pos h]

theorem entryOf_length {dyn : Bool} (hdata : data.length ≤ orig.length)
    (h : entryOf dyn orig data = .ok entry) : entry.length ≤ orig.length := by
  rw [entryOf_eq_ok, entryAt] at h
  split at h
  · split at h
    · cases h
      rw [List.length_drop]
      omega
    · cases h
  · cases h
    exact hdata

theorem leaves_le_pow {k : ℕ} (hle : input.length ≤ orig.length) (hk : depth t - 1 ≤ k)
    (h : leaves t input ≤ (input.length / 32) ^ (depth t - 1)) : leaves t input ≤ (orig.length / 32) ^ k := by
  by_cases hshort : input.length < 32
  · rw [leaves_short hshort]
    exact Nat.zero_le _
  · calc leaves t input ≤ (input.length / 32) ^ (depth t - 1) := h
      _ ≤ (input.length / 32) ^ k := Nat.pow_le_pow_right (by omega) hk
      _ ≤ (orig.length / 32) ^ k := Nat.pow_le_pow_left (Nat.div_le_div_right hle) k

theorem rest_eq_drop (hentry : entryOf (isDynamicType elem) orig data = .ok entry)
    (h : (decode elem entry >>= fun r => restOf (isDynamicType elem) data r.2) = .ok rest) :
    rest = data.drop (getTypeSize elem) := by
  rw [Outcome.bind_eq_ok] at h
  obtain ⟨⟨v, tail⟩, hval, h⟩ := h
  rw [restOf_component hentry hval, Outcome.ok.injEq] at h
  exact h.symm

theorem leavesElems_le (elem : Typ) {count : Bytes → ℕ} {orig : Bytes} {bound : ℕ}
    (hcount : ∀ b : Bytes, b.length ≤ orig.length → count b ≤ bound) :
    ∀ (n : ℕ) (data : Bytes), data.length ≤ orig.length →
      leavesElems (fun b => decode elem b) count (isDynamicType elem) orig n data ≤ n * bound
  | 0, _, _ => Nat.zero_le _
  | n + 1, data, hdata => by
    rw [leavesElems, Nat.add_one_mul, Nat.add_comm]
    split
    next entry hentry =>
      refine Nat.add_le_add (hcount entry (entryOf_length hdata hentry)) ?_
      split
      next rest hrest =>
        refine leavesElems_le elem hcount n rest ?_
        rw [rest_eq_drop hentry hrest, List.length_drop]
        omega
      · exact Nat.zero_le _
    · exact Nat.zero_le _

theorem leavesArraySlice_le {bound words : ℕ} (hcount : ∀ b : Bytes, b.length ≤ data.length → count b ≤ bound)
    (hwords : data.length / 32 ≤ words) :
    leavesArraySlice (fun b => decode elem b) count (isDynamicType elem) data n ≤ words * bound := by
  rw [leavesArraySlice]
  split
  · exact Nat.zero_le _
  · next hsize =>
    calc leavesElems (fun b => decode elem b) count (isDynamicType elem) data n data
        ≤ n * bound := leavesElems_le elem hcount n data le_rfl
      _ ≤ words * bound := Nat.mul_le_mul_right bound (by omega)

theorem depth_pos (t : Typ) : 1 ≤ depth t := by
  cases t <;> simp [depth]

mutual
theorem leaves_le : (t : Typ) → WellFormed t → (input : Bytes) → leaves t input ≤ (input.length / 32) ^ (depth t - 1)
  | .bool, _, input | .string, _, input | .bytes, _, input | .address, _, input | .fixedBytes _, _, input
  | .function, _, input | .uint _, _, input | .int _, _, input => by
    rw [leaves.eq_def]
    split <;> simp [depth]
  | .slice elem, hwf, input => by
    have hpos := depth_pos elem
    have hpow : depth (.slice elem) - 1 = depth elem - 1 + 1 := by
      rw [depth]
      omega
    rw [hpow, pow_succ', leaves]
    split
    · exact Nat.zero_le _
    · split
      · refine leavesArraySlice_le (fun b hb => ?_) ?_
        · rw [List.length_drop] at hb
          exact leaves_le_pow (by omega) le_rfl (leaves_le elem hwf b)
        · rw [List.length_drop]
          omega
      · exact Nat.zero_le _
  | .array size elem, hwf, input => by
    have hpos := depth_pos elem
    have hpow : depth (.array size elem) - 1 = depth elem - 1 + 1 := by
      rw [depth]
      omega
    rw [hpow, pow_succ', leaves]
    split
    · exact Nat.zero_le _
    · exact leavesArraySlice_le (fun b hb => leaves_le_pow hb le_rfl (leaves_le elem hwf.2 b)) le_rfl
  | .tuple name elems, hwf, input => by
    have hpos : 1 ≤ maxDepth elems := by
      cases elems with
      | nil => exact absurd rfl hwf.1
      | cons name elem indexed rest => exact le_max_of_le_left (depth_pos elem)
    have hpow : depth (.tuple name elems) - 1 = maxDepth elems - 1 + 1 := by
      rw [depth]
      omega
    rw [hpow, pow_succ', leaves]
    split
    · exact Nat.zero_le _
    · exact leavesTuple_le elems hwf.2.2 0 input input [] le_rfl le_rfl

theorem leavesTuple_le : (es : TupleElems) → AllWellFormed es → (i : ℕ) → (orig data : Bytes) → (keys : List String) →
    data.length ≤ orig.length → {k : ℕ} → maxDepth es - 1 ≤ k →
    leavesTuple es i orig data keys ≤ data.length / 32 * (orig.length / 32) ^ k
  | .nil, _, _, _, _, _, _, _, _ => Nat.zero_le _
  | .cons name elem _ rest, hwf, i, orig, data, keys, hdata, k, hk => by
    rw [maxDepth] at hk
    rw [leavesTuple]
    split
    next entry hentry =>
      have hfirst := leaves_le_pow (k := k) (entryOf_length hdata hentry) (by omega) (leaves_le elem hwf.1 entry)
      by_cases hshort : data.length < 32
      · -- without a word for the head, the component is static and `decode` rejects it
        have hstatic : isDynamicType elem = false := by
          by_contra hdyn
          have := entryOf_returns.mp (hentry ▸ Outcome.returns_ok entry) (by simpa using hdyn)
          omega
        rw [hstatic] at hentry
        obtain rfl := entryOf_static hentry
        rw [leaves_short hshort, decode.eq_def, if_pos hshort]
        exact Nat.zero_le _
      · have hword : data.length / 32 = (data.length - 32) / 32 + 1 := by omega
        rw [hword, Nat.add_one_mul, Nat.add_comm ((data.length - 32) / 32 * _)]
        refine Nat.add_le_add hfirst ?_
        split
        next data' hrest =>
          have hlen : data'.length ≤ data.length - 32 := by
            have := getTypeSize_ge elem hwf.1
            rw [rest_eq_drop hentry hrest, List.length_drop]
            omega
          have hmore := leavesTuple_le rest hwf.2 (i + 1) orig data' (keys ++ [nameToKey name i])
            (by omega) (k := k) (by omega)
          split
          · exact Nat.zero_le _
          · exact hmore.trans (Nat.mul_le_mul_right _ (Nat.div_le_div_right hlen))
        · exact Nat.zero_le _
    · exact Nat.zero_le _
end

/-! ## Zero bytes reach the bound

Every word of zero bytes is the offset of the input itself, and an empty string at the end. -/

def fan (elem : Typ) : ℕ → ℕ → TupleElems
  | 0, _ => .nil
  | n + 1, i => .cons (String.ofList (List.replicate (i + 1) 'x')) elem false (fan elem n (i + 1))

def nested (c : ℕ) : ℕ → Typ
  | 0 => .string
  | d + 1 => .tuple "" (fan (nested c d) c 0)

def zeros (n : ℕ) : Bytes := List.replicate n 0

theorem nameToKey_replicate (i j : ℕ) :
    nameToKey (String.ofList (List.replicate (i + 1) 'x')) j = String.ofList (List.replicate (i + 1) 'x') := by
  rw [nameToKey, if_neg]
  rw [← String.toList_inj, String.toList_ofList]
  simp [List.replicate_succ]

theorem mem_keys_fan {elem : Typ} : ∀ (n i : ℕ) {key : String}, key ∈ (fan elem n i).keys i →
    ∃ j, i ≤ j ∧ key = String.ofList (List.replicate (j + 1) 'x')
  | 0, _, _, h => by simp [fan, TupleElems.keys] at h
  | n + 1, i, key, h => by
    rw [fan, TupleElems.keys, List.mem_cons, nameToKey_replicate] at h
    rcases h with rfl | h
    · exact ⟨i, le_rfl, rfl⟩
    · obtain ⟨j, hj, rfl⟩ := mem_keys_fan n (i + 1) h
      exact ⟨j, by omega, rfl⟩

theorem nodup_keys_fan {elem : Typ} : ∀ (n i : ℕ), ((fan elem n i).keys i).Nodup
  | 0, _ => by simp [fan, TupleElems.keys]
  | n + 1, i => by
    rw [fan, TupleElems.keys, List.nodup_cons, nameToKey_replicate]
    refine ⟨fun hmem => ?_, nodup_keys_fan n (i + 1)⟩
    obtain ⟨j, hj, heq⟩ := mem_keys_fan n (i + 1) hmem
    rw [String.ofList_inj] at heq
    have := congrArg List.length heq
    rw [List.length_replicate, List.length_replicate] at this
    omega

theorem allWellFormed_fan {elem : Typ} (h : WellFormed elem) : ∀ n i, AllWellFormed (fan elem n i)
  | 0, _ => trivial
  | n + 1, i => ⟨h, allWellFormed_fan h n (i + 1)⟩

theorem wellFormed_nested {c : ℕ} (hc : 0 < c) : ∀ d, WellFormed (nested c d)
  | 0 => by simp [nested, WellFormed]
  | d + 1 => by
    refine ⟨?_, nodup_keys_fan c 0, allWellFormed_fan (wellFormed_nested hc d) c 0⟩
    obtain ⟨n, rfl⟩ := Nat.exists_eq_succ_of_ne_zero hc.ne'
    simp [fan]

theorem maxDepth_fan (elem : Typ) : ∀ n i, maxDepth (fan elem (n + 1) i) = depth elem
  | 0, i => by simp [fan, maxDepth]
  | n + 1, i => by rw [fan, maxDepth, maxDepth_fan elem n (i + 1), max_self]

theorem depth_nested {c : ℕ} (hc : 0 < c) : ∀ d, depth (nested c d) = d + 1
  | 0 => rfl
  | d + 1 => by
    obtain ⟨n, rfl⟩ := Nat.exists_eq_succ_of_ne_zero hc.ne'
    rw [nested, depth, maxDepth_fan, depth_nested hc d]

theorem isDynamic_nested {c : ℕ} (hc : 0 < c) : ∀ d, isDynamicType (nested c d) = true
  | 0 => rfl
  | d + 1 => by
    obtain ⟨n, rfl⟩ := Nat.exists_eq_succ_of_ne_zero hc.ne'
    rw [nested, isDynamicType, fan, anyDynamicType, isDynamic_nested hc d, Bool.true_or]

theorem ofBytes_word_zeros (hn : 32 ≤ n) : ofBytes ((zeros n).take 32) = 0 := by
  have hword : (zeros n).take 32 = zeros 32 := by
    rw [zeros, List.take_replicate, min_eq_left hn, zeros]
  rw [hword]
  decide +kernel

theorem entryOf_zeros {m : ℕ} (hn : 32 ≤ n) : entryOf true (zeros m) (zeros n) = .ok (zeros m) := by
  have hoff : readOffset (zeros n) (zeros m).length = .ok 0 := by
    rw [readOffset, sliceExpr_word (by rwa [zeros, List.length_replicate]), Outcome.map_ok, ofBytes_word_zeros hn]
    simp [bitLen]
  rw [entryOf, if_pos rfl, hoff, Outcome.ok_bind, sliceExpr_suffix (Nat.zero_le _), List.drop_zero]

theorem drop_zeros (n k : ℕ) : (zeros n).drop k = zeros (n - k) := by
  rw [zeros, List.drop_replicate, zeros]

theorem restOf_zeros (hn : 32 ≤ n) (tail : Bytes) : restOf true (zeros n) tail = .ok (zeros (n - 32)) := by
  rw [restOf, if_pos rfl, sliceExpr_suffix (by rwa [zeros, List.length_replicate]), drop_zeros]

/-- One level: if every component decodes from the whole input, so does the tuple, with the leaves of all. -/
theorem decodeTuple_zeros {elem : Typ} (hdyn : isDynamicType elem = true) {m : ℕ} {v : Val} {tail : Bytes}
    (hdec : decode elem (zeros m) = .ok (v, tail)) :
    ∀ (n i : ℕ) (res : List (String × Val)), (res.map Prod.fst ++ (fan elem n i).keys i).Nodup →
      (∃ r, decodeTuple (fan elem n i) i (zeros m) (zeros (32 * n)) res = .ok r) ∧
        leavesTuple (fan elem n i) i (zeros m) (zeros (32 * n)) (res.map Prod.fst) = n * leaves elem (zeros m)
  | 0, i, res, _ => ⟨⟨_, rfl⟩, by simp [fan, leavesTuple]⟩
  | n + 1, i, res, hkeys => by
    have hsub : 32 * (n + 1) - 32 = 32 * n := by omega
    have hentry := entryOf_zeros (n := 32 * (n + 1)) (m := m) (by omega)
    have hrest := restOf_zeros (n := 32 * (n + 1)) (by omega) tail
    rw [hsub] at hrest
    rw [fan, TupleElems.keys] at hkeys
    have hkeys' : ((res ++ [(nameToKey (String.ofList (List.replicate (i + 1) 'x')) i, v)]).map Prod.fst ++
        (fan elem n (i + 1)).keys (i + 1)).Nodup := by
      simpa using hkeys
    have hfresh : nameToKey (String.ofList (List.replicate (i + 1) 'x')) i ∉ res.map Prod.fst := by
      intro hmem
      exact (List.nodup_append.mp hkeys).2.2 _ hmem _ (List.mem_cons_self ..) rfl
    obtain ⟨⟨r, hr⟩, hcount⟩ := decodeTuple_zeros hdyn hdec n (i + 1) _ hkeys'
    constructor
    · refine ⟨r, ?_⟩
      simp only [fan, decodeTuple, hdyn, hentry, Outcome.ok_bind, hdec, hrest, lookup_eq_none_iff_not_mem.mpr hfresh]
      exact hr
    · rw [List.map_append] at hcount
      simp only [fan, leavesTuple, hdyn, hentry, Outcome.ok_bind, hdec, hrest, if_neg hfresh]
      rw [Nat.add_one_mul n, Nat.add_comm, ← hcount]
      rfl

theorem decode_nested_zeros {c : ℕ} (hc : 0 < c) : ∀ d,
    (∃ r, decode (nested c d) (zeros (32 * c)) = .ok r) ∧ leaves (nested c d) (zeros (32 * c)) = c ^ d
  | 0 => by
    have hlen : (zeros (32 * c)).length = 32 * c := by rw [zeros, List.length_replicate]
    have hread : readLength (zeros (32 * c)) = .ok 0 := by
      rw [readLength, sliceExpr_word (by omega), Outcome.map_ok, ofBytes_word_zeros (by omega)]
      simp [bitLen]
    constructor
    · refine ⟨(.string [], (zeros (32 * c)).drop 32), ?_⟩
      rw [nested, decode, if_neg (by omega), hread, Outcome.ok_bind, sliceExpr_ok (by omega) (by omega)]
      simp
    · rw [nested, leaves.eq_def, if_neg (by omega), pow_zero]
  | d + 1 => by
    obtain ⟨⟨⟨v, tail⟩, hdec⟩, hleaves⟩ := decode_nested_zeros hc d
    have hlen : (zeros (32 * c)).length = 32 * c := by rw [zeros, List.length_replicate]
    obtain ⟨hr, hcount⟩ := decodeTuple_zeros (isDynamic_nested hc d) hdec c 0 [] (nodup_keys_fan c 0)
    rw [nested, decode, leaves, if_neg (by omega), if_neg (by omega)]
    exact ⟨hr, by rw [pow_succ', ← hleaves]; exact hcount⟩

theorem Decode_nested_zeros {c : ℕ} (hc : 0 < c) (d : ℕ) : ∃ x, Decode (nested c d) (zeros (32 * c)) = .ok x := by
  obtain ⟨⟨⟨x, rest⟩, hr⟩, -⟩ := decode_nested_zeros hc d
  have hlen : (zeros (32 * c)).length ≠ 0 := by
    rw [zeros, List.length_replicate]
    omega
  exact ⟨x, by rw [Decode, if_neg hlen, hr, Outcome.ok_bind]⟩

/-- The leaves of a decoding, which are those of the value where it succeeds, are at most the number of words to
the power of the depth less one. For every number of words and every depth there is a type and an input with that
many leaves. -/
theorem leaves_bound : (∀ t, WellFormed t → ∀ input, leaves t input ≤ (input.length / 32) ^ (depth t - 1) ∧
      ∀ x, Decode t input = .ok x → leafValues t x = leaves t input) ∧
    ∀ c d, 0 < c → ∃ t input x, WellFormed t ∧ depth t = d + 1 ∧ input.length = 32 * c ∧ Decode t input = .ok x ∧
      leafValues t x = c ^ d := by
  have hvalues : ∀ {t input x}, Decode t input = .ok x → leafValues t x = leaves t input := by
    intro t input x h
    obtain ⟨rest, hdec⟩ := Decode_eq_ok h
    exact (leaves_eq_leafValues t hdec).symm
  refine ⟨fun t hwf input => ⟨leaves_le t hwf input, fun x h => hvalues h⟩, fun c d hc => ?_⟩
  obtain ⟨x, hx⟩ := Decode_nested_zeros hc d
  refine ⟨nested c d, zeros (32 * c), x, wellFormed_nested hc d, depth_nested hc d, ?_, hx, ?_⟩
  · rw [zeros, List.length_replicate]
  · rw [hvalues hx, (decode_nested_zeros hc d).2]

/-- Four words and three levels: the bound is reached. -/
theorem leaves_bound_nested : leaves (nested 4 2) (zeros 128) = 16 ∧ leaves (nested 4 2) (zeros 128) ≤ 16 := by
  have hbound := (leaves_bound.1 (nested 4 2) (wellFormed_nested (by decide) 2) (zeros 128)).1
  rw [depth_nested (by decide), zeros, List.length_replicate] at hbound
  exact ⟨(decode_nested_zeros (by decide) 2).2, hbound⟩

/-- Four words, sixteen strings: more than three times the number of words. -/
theorem leaves_exceed_words : WellFormed (nested 4 2) ∧ depth (nested 4 2) = 3 ∧ (zeros 128).length = 128 ∧
      (∃ x, Decode (nested 4 2) (zeros 128) = .ok x ∧ leafValues (nested 4 2) x = 16) ∧
      ¬ leaves (nested 4 2) (zeros 128) ≤ 3 * 128 / 32 := by
  have hleaves : leaves (nested 4 2) (zeros 128) = 16 := (decode_nested_zeros (by decide) 2).2
  obtain ⟨x, hx⟩ := Decode_nested_zeros (by decide : 0 < 4) 2
  obtain ⟨rest, hdec⟩ := Decode_eq_ok hx
  refine ⟨wellFormed_nested (by decide) 2, rfl, rfl, ⟨x, hx, ?_⟩, by omega⟩
  rw [← leaves_eq_leafValues _ hdec]
  exact hleaves

end Web3.Abi
