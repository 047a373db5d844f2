import Web3.Abi.Decode
import Web3.Abi.EncodeMeaning

/-! # What the decoder computes on an encoding

`decode` on the specification's encoding of a value, followed by arbitrary bytes, returns the Go
value of the type's reflect type (`goValue`). The offset of a dynamic component counts from the
start of the slice the heads were read from, so the induction carries that slice and the position
its remaining tails start at. -/

namespace Web3.Abi
open HeadTail

/-! ## The decoded Go value -/

def goUint (size : ℕ) (n : ℤ) : Val :=
  match size with
  | 8 => .uint8 (UInt8.ofNat n.toNat)
  | 16 => .uint16 (UInt16.ofNat n.toNat)
  | 32 => .uint32 (UInt32.ofNat n.toNat)
  | 64 => .uint64 (UInt64.ofNat n.toNat)
  | _ => .bigInt n

def goInt (size : ℕ) (n : ℤ) : Val :=
  match size with
  | 8 => .int8 (Int8.ofInt n)
  | 16 => .int16 (Int16.ofInt n)
  | 32 => .int32 (Int32.ofInt n)
  | 64 => .int64 (Int64.ofInt n)
  | _ => .bigInt n

mutual
/-- The Go value that stands for an ABI value of a type; tuples are maps by component key. -/
def goValue : Typ → AbiVal → Val
  | .bool, .bool b => .bool b
  | .uint size, .num n => goUint size n
  | .int size, .num n => goInt size n
  | .string, .data bs => .string bs
  | .bytes, .data bs => .ofBytes bs
  | .address, .data bs => .ofByteArray bs
  | .fixedBytes _, .data bs => .ofByteArray bs
  | .function, .data bs => .ofByteArray bs
  | .slice elem, .seq vs => .slice (goType elem) (vs.map fun v => goValue elem v)
  | .array _ elem, .seq vs => .array (goType elem) (vs.map fun v => goValue elem v)
  | .tuple _ elems, .seq vs => .map (goFields elems 0 vs)
  | _, _ => .invalid

def goFields : TupleElems → ℕ → List AbiVal → List (String × Val)
  | .cons name elem _ rest, i, v :: vs => (nameToKey name i, goValue elem v) :: goFields rest (i + 1) vs
  | _, _, _ => []
end

/-! ## Words -/

theorem lastBytes_intWord {k : ℕ} (hk : k ≤ 32) (n : ℤ) : (lastBytes k (Spec.intWord n) : ℤ) = n % 256 ^ k := by
  have hdrop : lastBytes k (Spec.intWord n) = (n % 2 ^ 256).toNat % 256 ^ k := by
    have h := drop_beBytes (32 - k) k (n % 2 ^ 256).toNat
    rw [Nat.sub_add_cancel hk] at h
    rw [lastBytes, Spec.intWord, length_word, word, h, ofBytes_beBytes]
  have hpos : (0 : ℤ) ≤ n % 2 ^ 256 := Int.emod_nonneg n (by norm_num)
  have hdvd : ((256 : ℤ) ^ k) ∣ 2 ^ 256 := by
    have h256 : (2 : ℤ) ^ 256 = 256 ^ 32 := by norm_num
    rw [h256]
    exact pow_dvd_pow 256 hk
  rw [hdrop, Int.natCast_emod, Int.toNat_of_nonneg hpos, Nat.cast_pow]
  exact Int.emod_emod_of_dvd n hdvd

theorem ofBytes_intWord (n : ℤ) : (ofBytes (Spec.intWord n) : ℤ) = n % 2 ^ 256 := by
  have h := lastBytes_intWord (le_refl 32) n
  rw [lastBytes, Spec.intWord, length_word, Nat.sub_self, List.drop_zero] at h
  rw [Spec.intWord, h]
  norm_num

variable {n : ℤ} {size offset : ℕ} {dec : Bytes → Outcome (Val × Bytes)} {dyn : Bool}
  {enc orig more bs : Bytes} {v : Val} {spec : AbiVal → Bytes} {val : AbiVal → Val}
  {as : List AbiVal} {t : Typ} {a : AbiVal}

theorem readBigInt_unsigned (h0 : 0 ≤ n) (h : n < 2 ^ 256) : readBigInt false (Spec.intWord n) = .bigInt n := by
  rw [readBigInt, ofBytes_intWord, Int.emod_eq_of_lt h0 h]
  rfl

theorem readBigInt_signed (hlo : -2 ^ 255 ≤ n) (hhi : n < 2 ^ 255) :
    readBigInt true (Spec.intWord n) = .bigInt n := by
  rw [readBigInt, ofBytes_intWord, maxInt256, maxUint256]
  split
  · contradiction
  · split
    · congr 1
      omega
    · congr 1
      omega

def NativeSize (size : ℕ) : Prop := size = 8 ∨ size = 16 ∨ size = 32 ∨ size = 64

theorem readInteger_big (h : ¬ NativeSize size) (signed : Bool) (b : Bytes) :
    readInteger signed size b = readBigInt signed b := by
  unfold NativeSize at h
  unfold readInteger
  split <;> first | rfl | omega

theorem goUint_big (h : ¬ NativeSize size) (n : ℤ) : goUint size n = .bigInt n := by
  unfold NativeSize at h
  unfold goUint
  split <;> first | rfl | omega

theorem goInt_big (h : ¬ NativeSize size) (n : ℤ) : goInt size n = .bigInt n := by
  unfold NativeSize at h
  unfold goInt
  split <;> first | rfl | omega

theorem readInteger_unsigned (hsize : size ≤ 256) (h0 : 0 ≤ n) (h : n < 2 ^ size) :
    readInteger false size (Spec.intWord n) = goUint size n := by
  have hlast : ∀ k, k ≤ 32 → n < 256 ^ k → lastBytes k (Spec.intWord n) = n.toNat := by
    intro k hk hn
    have := lastBytes_intWord hk n
    rw [Int.emod_eq_of_lt h0 hn] at this
    omega
  by_cases hs : NativeSize size
  · rcases hs with rfl | rfl | rfl | rfl
    · rw [readInteger, hlast 1 (by omega) (by omega), goUint]
    · rw [readInteger, hlast 2 (by omega) (by omega), goUint]
    · rw [readInteger, hlast 4 (by omega) (by omega), goUint]
    · rw [readInteger, hlast 8 (by omega) (by omega), goUint]
  · have h256 : n < 2 ^ 256 := lt_of_lt_of_le h (pow_le_pow_right₀ (by norm_num) hsize)
    rw [readInteger_big hs, goUint_big hs, readBigInt_unsigned h0 h256]

theorem bitVec_ofNat_eq_ofInt {w m : ℕ} (h : (m : ℤ) = n % 2 ^ w) : BitVec.ofNat w m = BitVec.ofInt w n := by
  apply BitVec.eq_of_toNat_eq
  rw [BitVec.toNat_ofNat, BitVec.toNat_ofInt]
  push_cast
  rw [← h, Int.toNat_natCast]
  have hlt : (m : ℤ) < 2 ^ w := h ▸ Int.emod_lt_of_pos n (by positivity)
  exact Nat.mod_eq_of_lt (by exact_mod_cast hlt)

theorem readInteger_signed (hsize : size ≤ 256) (hlo : -2 ^ (size - 1) ≤ n)
    (hhi : n < 2 ^ (size - 1)) : readInteger true size (Spec.intWord n) = goInt size n := by
  by_cases hs : NativeSize size
  · rcases hs with rfl | rfl | rfl | rfl
    · exact congrArg (Val.int8 ∘ Int8.ofBitVec)
        (bitVec_ofNat_eq_ofInt (w := 8) (lastBytes_intWord (k := 1) (by omega) n))
    · exact congrArg (Val.int16 ∘ Int16.ofBitVec)
        (bitVec_ofNat_eq_ofInt (w := 16) (lastBytes_intWord (k := 2) (by omega) n))
    · exact congrArg (Val.int32 ∘ Int32.ofBitVec)
        (bitVec_ofNat_eq_ofInt (w := 32) (lastBytes_intWord (k := 4) (by omega) n))
    · exact congrArg (Val.int64 ∘ Int64.ofBitVec)
        (bitVec_ofNat_eq_ofInt (w := 64) (lastBytes_intWord (k := 8) (by omega) n))
  · have hle : (2 : ℤ) ^ (size - 1) ≤ 2 ^ 255 := pow_le_pow_right₀ (by norm_num) (by omega)
    rw [readInteger_big hs, goInt_big hs, readBigInt_signed (by omega) (by omega)]

/-! ## Offsets and lengths -/

theorem take_word_append (n : ℕ) (data : Bytes) : (word n ++ data).take 32 = word n := by
  rw [List.take_append_of_le_length (by simp), List.take_of_length_le (by simp)]

theorem drop_word_append (n : ℕ) (data : Bytes) : (word n ++ data).drop 32 = data := by
  rw [List.drop_append_of_le_length (by simp), List.drop_of_length_le (by simp), List.nil_append]

theorem readOffset_word {len : ℕ} (hle : offset ≤ len) (hlen : len < 2 ^ 63) (data : Bytes) :
    readOffset (word offset ++ data) len = .ok offset := by
  have hbits : ¬ bitLen offset > 63 := by
    have := (bitLen_le_iff offset 63).mpr (by omega)
    omega
  rw [readOffset, sliceExpr_word (by simp), take_word_append, Outcome.map_ok,
    ofBytes_word (by omega), Outcome.ok_bind, if_neg hbits, if_neg (by omega)]

theorem readLength_word {n : ℕ} {data : Bytes} (hle : n ≤ (word n ++ data).length)
    (hlen : (word n ++ data).length < 2 ^ 63) : readLength (word n ++ data) = .ok n := by
  have hbits : ¬ bitLen n > 63 := by
    have := (bitLen_le_iff n 63).mpr (by omega)
    omega
  rw [readLength, sliceExpr_word (by simp), take_word_append, Outcome.map_ok,
    ofBytes_word (by omega), Outcome.ok_bind, if_neg hbits, if_neg (by omega)]

theorem sliceExpr_behind_word (n : ℕ) (bs rest : Bytes) :
    sliceExpr (word n ++ (bs ++ rest)) 32 (32 + bs.length) = .ok bs := by
  rw [sliceExpr_ok (by omega) (by simp)]
  have htake : (word n ++ (bs ++ rest)).take (32 + bs.length) = word n ++ bs := by
    rw [← List.append_assoc, List.take_append_of_le_length (by simp),
      List.take_of_length_le (by simp)]
  rw [htake, drop_word_append]

/-! ## Sequences -/

/-- `dec` decodes an encoding of `v` in front of any bytes; behind a static one it stops exactly
where the encoding ends. -/
def DecodesFront (dec : Bytes → Outcome (Val × Bytes)) (p : Part) (v : Val) : Prop :=
  ∀ rest, (p.enc ++ rest).length < 2 ^ 63 → ∃ tail, dec (p.enc ++ rest) = .ok (v, tail) ∧ (p.dyn = false → tail = rest)

/-- One component of a layout. Its head is in front of `data'`, and its tail, if it has one, is in
`orig` at `offset`, in front of `more`. -/
theorem component_decoded {data' : Bytes} (hdec : DecodesFront dec ⟨dyn, enc⟩ v)
    (hdrop : orig.drop offset = (⟨dyn, enc⟩ : Part).tail ++ more) (hoff : offset ≤ orig.length)
    (horig : orig.length < 2 ^ 63) (hdata : ((⟨dyn, enc⟩ : Part).head offset ++ data').length < 2 ^ 63) :
    ∃ entry tail, entryOf dyn orig ((⟨dyn, enc⟩ : Part).head offset ++ data') = .ok entry ∧ dec entry = .ok (v, tail) ∧
      restOf dyn ((⟨dyn, enc⟩ : Part).head offset ++ data') tail = .ok data' := by
  cases dyn with
  | false =>
    obtain ⟨tail, htail, hstat⟩ := hdec data' hdata
    exact ⟨enc ++ data', tail, rfl, htail, congrArg Outcome.ok (hstat rfl)⟩
  | true =>
    have hdrop' : orig.drop offset = enc ++ more := hdrop
    have hlen : (enc ++ more).length < 2 ^ 63 := by
      rw [← hdrop', List.length_drop]
      omega
    obtain ⟨tail, htail, -⟩ := hdec more hlen
    refine ⟨enc ++ more, tail, ?_, htail, ?_⟩
    · rw [entryOf, if_pos rfl, Part.head, if_pos rfl, readOffset_word hoff horig,
        Outcome.ok_bind, sliceExpr_suffix hoff, hdrop']
    · rw [restOf, if_pos rfl, Part.head, if_pos rfl, sliceExpr_suffix (by simp), drop_word_append]

theorem drop_tail {p : Part} {ps : List Part} (hdrop : orig.drop offset = tails (p :: ps) ++ more)
    (hoff : offset ≤ orig.length) :
    orig.drop (offset + p.tail.length) = tails ps ++ more ∧ offset + p.tail.length ≤ orig.length := by
  have hlen := congrArg List.length hdrop
  simp only [tails_cons, List.append_assoc, List.length_drop, List.length_append] at hlen
  refine ⟨?_, by omega⟩
  rw [← List.drop_drop, hdrop, tails_cons, List.append_assoc, List.drop_left]

theorem decodeElems_layout (orig more data' : Bytes) (horig : orig.length < 2 ^ 63)
    (hdec : ∀ a ∈ as, DecodesFront dec ⟨dyn, spec a⟩ (val a)) (res : List Val)
    (hdrop : orig.drop offset = tails (as.map fun a => ⟨dyn, spec a⟩) ++ more) (hoff : offset ≤ orig.length)
    (hdata : (headsFrom offset (as.map fun a => ⟨dyn, spec a⟩) ++ data').length < 2 ^ 63) :
    decodeElems dec dyn orig as.length (headsFrom offset (as.map fun a => ⟨dyn, spec a⟩) ++ data')
        res =
      .ok (res ++ as.map val, data') := by
  induction as generalizing offset res with
  | nil => simp [decodeElems, headsFrom]
  | cons a as ih =>
    simp only [List.map_cons, headsFrom, List.append_assoc] at hdata hdrop ⊢
    obtain ⟨hdrop', hoff'⟩ := drop_tail hdrop hoff
    rw [tails_cons, List.append_assoc] at hdrop
    obtain ⟨entry, tail, hentry, hval, hrest⟩ :=
      component_decoded (hdec a (List.mem_cons_self ..)) hdrop hoff horig hdata
    have hdata' := hdata
    rw [List.length_append] at hdata'
    have htl := ih (fun b hb => hdec b (List.mem_cons_of_mem a hb)) (res ++ [val a]) hdrop' hoff'
      (by omega)
    simp only [List.length_cons, decodeElems, hentry, hval, hrest, htl, Outcome.ok_bind]
    rw [List.append_assoc, List.singleton_append]

theorem decodeArraySlice_layout (spec : AbiVal → Bytes) {mk : GoType → List Val → Val} {ty : GoType} {rest : Bytes}
    (hdec : ∀ a ∈ as, DecodesFront dec ⟨dyn, spec a⟩ (val a))
    (hword : ∀ a ∈ as, 32 ≤ (⟨dyn, spec a⟩ : Part).headSize)
    (hlen : (layout (as.map fun a => ⟨dyn, spec a⟩) ++ rest).length < 2 ^ 63) :
    decodeArraySlice dec dyn mk ty (layout (as.map fun a => ⟨dyn, spec a⟩) ++ rest) as.length =
      .ok (mk ty (as.map val), tails (as.map fun a => ⟨dyn, spec a⟩) ++ rest) := by
  set ps : List Part := as.map fun a => ⟨dyn, spec a⟩ with hps
  have hsize : as.length * 32 ≤ headsSize ps := by
    have h := mul_le_headsSize ps (k := 32) (by simpa [hps] using hword)
    simpa [hps] using h
  have hll := length_layout ps
  rw [List.length_append] at hlen
  have hbig : ¬ 32 * as.length > (layout ps ++ rest).length := by
    rw [List.length_append]
    omega
  have hsplit : layout ps ++ rest = headsFrom (headsSize ps) ps ++ (tails ps ++ rest) := by
    rw [layout_eq, List.append_assoc]
  have helems := decodeElems_layout (layout ps ++ rest) rest (tails ps ++ rest)
    (by rw [List.length_append]; omega) hdec [] (drop_headsSize_layout ps rest)
    (by rw [List.length_append]; omega) (by rw [← hps, ← hsplit, List.length_append]; omega)
  rw [decodeArraySlice_unlimited, if_neg hbig]
  rw [← hps, ← hsplit] at helems
  rw [helems, Outcome.ok_bind]
  rfl

/-! ## Every encoding has a whole word -/

theorem getTypeSize_ge : (t : Typ) → WellFormed t → 32 ≤ getTypeSize t
  | .bool, _ | .uint _, _ | .int _, _ | .string, _ | .slice _, _ | .address, _ | .bytes, _
  | .fixedBytes _, _ | .function, _ => le_refl 32
  | .array size elem, hwf => by
    cases hd : isDynamicType elem with
    | true => simp [getTypeSize, hd]
    | false =>
      rw [getTypeSize_array_static hd]
      calc 32 ≤ getTypeSize elem := getTypeSize_ge elem hwf.2
        _ ≤ size * getTypeSize elem := Nat.le_mul_of_pos_left _ hwf.1
  | .tuple _ .nil, hwf => absurd rfl hwf.1
  | .tuple _ (.cons _ elem _ rest), hwf => by
    have h := getTypeSize_ge elem hwf.2.2.1
    rw [getTypeSize]
    split
    · exact le_refl 32
    · rw [getTypeSizes]
      omega

theorem length_enc_ge : {t : Typ} → WellFormed t → {a : AbiVal} → HasType t a → 32 ≤ (Spec.enc t a).length
  | .string, _, .data _, _ | .bytes, _, .data _, _ | .slice _, _, .seq _, _ => by simp [Spec.enc]
  | .array size elem, hwf, .seq vs, h => by
    have hs : ∀ p ∈ vs.map (fun v => (⟨Spec.dynamic elem, Spec.enc elem v⟩ : Part)), 32 ≤ p.headSize := by
      intro p hp
      obtain ⟨v, hv, rfl⟩ := List.mem_map.mp hp
      rw [headSize_part elem hwf.2 (h.2 v hv)]
      exact getTypeSize_ge elem hwf.2
    have := mul_le_headsSize _ hs
    rw [List.length_map, h.1] at this
    rw [Spec.enc, length_layout]
    have h1 := hwf.1
    omega
  | .tuple _ .nil, hwf, _, _ => absurd rfl hwf.1
  | .tuple _ (.cons _ elem _ _), hwf, .seq vs, h => by
    have hs := headsSize_parts _ hwf.2.2 h
    rw [getTypeSizes] at hs
    rw [Spec.enc, length_layout, hs]
    have := getTypeSize_ge elem hwf.2.2.1
    omega
  | .bool, hwf, _, h | .uint _, hwf, _, h | .int _, hwf, _, h | .address, hwf, _, h | .fixedBytes _, hwf, _, h
  | .function, hwf, _, h => by
    rw [length_enc_static hwf h rfl]
    exact getTypeSize_ge _ hwf

theorem headSize_ge (hwf : WellFormed t) (h : HasType t a) :
    32 ≤ (⟨Spec.dynamic t, Spec.enc t a⟩ : Part).headSize := by
  rw [headSize_part t hwf h]
  exact getTypeSize_ge t hwf

theorem length_le_layout (rest : Bytes) (hword : ∀ a ∈ as, 32 ≤ (⟨dyn, spec a⟩ : Part).headSize) :
    32 * as.length ≤ (layout (as.map fun a => ⟨dyn, spec a⟩) ++ rest).length := by
  have h := mul_le_headsSize (as.map fun a => ⟨dyn, spec a⟩) (k := 32) (by simpa using hword)
  rw [List.length_map] at h
  rw [List.length_append, length_layout]
  omega

/-! ## The decoder reads every encoding back -/

theorem decodesFront_word (read : Bytes → Outcome Val) {e : String}
    (hdec : ∀ input, dec input = if input.length < 32 then .err e else (do
      let val ← read (input.take 32)
      .ok (val, input.drop 32))) (hlen : enc.length = 32) (hread : read enc = .ok v) :
    DecodesFront dec ⟨false, enc⟩ v := by
  intro rest _
  refine ⟨rest, ?_, fun _ => rfl⟩
  rw [hdec, if_neg (by rw [List.length_append, hlen]; omega), List.take_left' hlen, List.drop_left' hlen, hread,
    Outcome.ok_bind]

theorem decodesFront_bytes {mk : Bytes → Val} {e : String}
    (hdec : ∀ input, dec input = if input.length < 32 then .err e else (do
      let length ← readLength input
      let b ← sliceExpr input 32 (32 + length)
      .ok (mk b, input.drop 32))) (bs : Bytes) :
    DecodesFront dec ⟨true, word bs.length ++ Spec.padRight bs⟩ (mk bs) := by
  intro rest hlen
  have hinput : word bs.length ++ Spec.padRight bs ++ rest =
      word bs.length ++ (bs ++ (List.replicate ((32 - bs.length % 32) % 32) 0 ++ rest)) := by
    simp [Spec.padRight]
  simp only [hinput] at hlen ⊢
  refine ⟨(word bs.length ++ (bs ++ (List.replicate ((32 - bs.length % 32) % 32) 0 ++ rest))).drop 32,
    ?_, fun h => absurd h Bool.noConfusion⟩
  rw [hdec, if_neg (by simp), readLength_word (by simp; omega) hlen, Outcome.ok_bind, sliceExpr_behind_word,
    Outcome.ok_bind]

theorem decodesFront_fixedBytes (hpos : 0 < size) (hle : size ≤ 32) (hbs : bs.length = size) :
    DecodesFront (decode (.fixedBytes size)) ⟨false, Spec.padRight bs⟩ (goValue (.fixedBytes size) (.data bs)) := by
  have hlen := length_padRight bs (hbs ▸ hpos) (hbs ▸ hle)
  intro rest _
  refine ⟨rest, ?_, fun _ => rfl⟩
  have hslice : sliceExpr (Spec.padRight bs ++ rest) 0 size = .ok bs := by
    rw [sliceExpr_ok (by omega) (by rw [List.length_append, hlen]; omega),
      Spec.padRight, List.append_assoc, List.take_left' hbs, List.drop_zero]
  rw [decode, if_neg (by rw [List.length_append, hlen]; omega), readFixedBytes,
    hslice, List.drop_left' hlen]
  rfl

theorem readFunctionType_padRight (hbs : bs.length = 24) :
    readFunctionType (Spec.padRight bs) = .ok (goValue .function (.data bs)) := by
  have hlen := length_padRight bs (by omega) (by omega)
  have hlast : sliceExpr (Spec.padRight bs) 24 32 = .ok (List.replicate 8 0) := by
    rw [sliceExpr_ok (by omega) (by omega), List.take_of_length_le (by omega), Spec.padRight,
      List.drop_left' hbs, hbs]
  have hfirst : sliceExpr (Spec.padRight bs) 0 24 = .ok bs := by
    rw [sliceExpr_ok (by omega) (by omega), Spec.padRight, List.take_left' hbs, List.drop_zero]
  rw [readFunctionType, hlast, Outcome.ok_bind, hfirst]
  rfl

section Sequences

variable {elem : Typ} (hwf : WellFormed elem) {vs : List AbiVal} (hvs : ∀ v ∈ vs, HasType elem v)
  (hdec : ∀ v ∈ vs, DecodesFront (decode elem) ⟨Spec.dynamic elem, Spec.enc elem v⟩ (goValue elem v))
include hwf hvs hdec

theorem decodesFront_slice : DecodesFront (decode (.slice elem)) ⟨true, Spec.enc (.slice elem) (.seq vs)⟩
      (goValue (.slice elem) (.seq vs)) := by
  have hword := fun v (hv : v ∈ vs) => headSize_ge hwf (hvs v hv)
  intro rest hlen
  refine ⟨tails (vs.map fun v => ⟨Spec.dynamic elem, Spec.enc elem v⟩) ++ rest, ?_, fun h => absurd h Bool.noConfusion⟩
  simp only [Spec.enc, List.append_assoc] at hlen ⊢
  have hcount := length_le_layout rest hword
  have hlen' := hlen
  rw [List.length_append] at hlen'
  rw [decode, if_neg (by simp), readLength_word (by rw [List.length_append]; omega) hlen,
    Outcome.ok_bind, drop_word_append, ← dynamic_eq,
    decodeArraySlice_layout (Spec.enc elem) hdec hword (by omega)]
  rfl

theorem decodesFront_array (hpos : 0 < vs.length) : DecodesFront (decode (.array vs.length elem))
      ⟨Spec.dynamic elem, Spec.enc (.array vs.length elem) (.seq vs)⟩
      (goValue (.array vs.length elem) (.seq vs)) := by
  have hword := fun v (hv : v ∈ vs) => headSize_ge hwf (hvs v hv)
  intro rest hlen
  refine ⟨tails (vs.map fun v => ⟨Spec.dynamic elem, Spec.enc elem v⟩) ++ rest, ?_, ?_⟩
  · have hcount := length_le_layout rest hword
    simp only [Spec.enc] at hlen ⊢
    rw [decode, if_neg (by omega), ← dynamic_eq,
      decodeArraySlice_layout (Spec.enc elem) hdec hword hlen]
    rfl
  · intro hstat
    have hst : Spec.dynamic elem = false := hstat
    rw [tails_eq_nil (by simp [hst]), List.nil_append]

end Sequences

mutual
theorem decode_enc : (t : Typ) → WellFormed t → {a : AbiVal} → HasType t a →
    DecodesFront (decode t) ⟨Spec.dynamic t, Spec.enc t a⟩ (goValue t a)
  | .bool, _, .bool b, _ =>
    decodesFront_word decodeBool (fun _ => by rw [decode]) (length_word _) (by cases b <;> rfl)
  | .uint size, hwf, .num n, h =>
    decodesFront_word (fun b => .ok (readInteger false size b)) (fun _ => by rw [decode, Outcome.ok_bind])
      (length_word _) (congrArg Outcome.ok (readInteger_unsigned hwf.2.1 h.1 h.2))
  | .int size, hwf, .num n, h =>
    decodesFront_word (fun b => .ok (readInteger true size b)) (fun _ => by rw [decode, Outcome.ok_bind])
      (length_word _) (congrArg Outcome.ok (readInteger_signed hwf.2.1 h.1 h.2))
  | .string, _, .data bs, _ | .bytes, _, .data bs, _ => decodesFront_bytes (fun _ => by rw [decode]) bs
  | .address, _, .data bs, h => by
    have hbs : bs.length = 20 := h
    refine decodesFront_word readAddr (fun _ => by rw [decode]) (by simp [Spec.enc, hbs]) ?_
    simp [readAddr, Spec.enc, hbs, goValue]
  | .fixedBytes size, hwf, .data bs, h => decodesFront_fixedBytes hwf.1 hwf.2 h
  | .function, _, .data bs, h => by
    have hbs : bs.length = 24 := h
    exact decodesFront_word readFunctionType (fun _ => by rw [decode]) (length_padRight bs (by omega) (by omega))
      (readFunctionType_padRight hbs)
  | .slice elem, hwf, .seq vs, h => by
    have hwf' : WellFormed elem := hwf
    have hvs : ∀ v ∈ vs, HasType elem v := h
    exact decodesFront_slice hwf' hvs fun v hv => decode_enc elem hwf' (hvs v hv)
  | .array size elem, hwf, .seq vs, h => by
    obtain ⟨rfl, hvs⟩ := h
    exact decodesFront_array hwf.2 hvs (fun v hv => decode_enc elem hwf.2 (hvs v hv)) hwf.1
  | .tuple name elems, hwf, .seq vs, h => by
    have hvs : HaveTypes elems vs := h
    intro rest hlen
    refine ⟨tails (Spec.parts elems vs) ++ rest, ?_, ?_⟩
    · have h32 := length_enc_ge hwf h
      have hll := length_layout (Spec.parts elems vs)
      simp only [Spec.enc, List.length_append] at hlen h32 ⊢
      have hsplit : layout (Spec.parts elems vs) ++ rest =
          headsFrom (headsSize (Spec.parts elems vs)) (Spec.parts elems vs) ++
            (tails (Spec.parts elems vs) ++ rest) := by
        rw [layout_eq, List.append_assoc]
      have htup := decodeTuple_layout elems hwf.2.2 hvs (i := 0)
        (tails (Spec.parts elems vs) ++ rest) []
        (drop_headsSize_layout (Spec.parts elems vs) rest)
        (by rw [List.length_append]; omega) (by rw [List.length_append]; omega)
        (by rw [← hsplit, List.length_append]; omega) hwf.2.1
      rw [← hsplit] at htup
      rw [decode, if_neg (by rw [List.length_append]; omega), htup]
      rfl
    · intro hstat
      have hst : anyDynamicType elems = false := (anyDynamic_eq elems).symm.trans hstat
      rw [tails_eq_nil (parts_static elems vs hst), List.nil_append]

theorem decodeTuple_layout : (es : TupleElems) → AllWellFormed es → {vs : List AbiVal} →
    HaveTypes es vs → {i offset : ℕ} → {orig more : Bytes} → (data' : Bytes) → (res : List (String × Val)) →
    orig.drop offset = tails (Spec.parts es vs) ++ more → offset ≤ orig.length →
    orig.length < 2 ^ 63 → (headsFrom offset (Spec.parts es vs) ++ data').length < 2 ^ 63 →
    (res.map Prod.fst ++ es.keys i).Nodup →
    decodeTuple es i orig (headsFrom offset (Spec.parts es vs) ++ data') res =
      .ok (.map (res ++ goFields es i vs), data')
  | .nil, _, vs, h, i, offset, orig, more, data', res, _, _, _, _, _ => by
    simp [decodeTuple, Spec.parts, headsFrom, goFields]
  | .cons name elem indexed rest, hwf, v :: vs, h, i, offset, orig, more, data', res, hdrop, hoff,
      horig, hdata, hkeys => by
    simp only [Spec.parts, headsFrom, List.append_assoc] at hdata hdrop ⊢
    obtain ⟨hdrop', hoff'⟩ := drop_tail hdrop hoff
    rw [tails_cons, List.append_assoc] at hdrop
    obtain ⟨entry, tail, hentry, hval, hrest⟩ :=
      component_decoded (decode_enc elem hwf.1 h.1) hdrop hoff horig hdata
    have hkey : res.lookup (nameToKey name i) = none := by
      apply lookup_eq_none_iff_not_mem.mpr
      rw [TupleElems.keys] at hkeys
      exact fun hmem => (List.nodup_append.mp hkeys).2.2 _ hmem _ (List.mem_cons_self ..) rfl
    have hkeys' : ((res ++ [(nameToKey name i, goValue elem v)]).map Prod.fst ++ rest.keys (i + 1)).Nodup := by
      simpa [TupleElems.keys] using hkeys
    have hdata' := hdata
    rw [List.length_append] at hdata'
    have htl := decodeTuple_layout rest hwf.2 h.2 data' _ hdrop' hoff' horig (by omega) hkeys'
    simp only [decodeTuple, ← dynamic_eq, hentry, hval, hrest, hkey, htl, Outcome.ok_bind, goFields]
    simp
end

end Web3.Abi
