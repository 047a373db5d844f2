import Web3.Abi.Spec

/-! # What the encoder computes

`Encode` against the ABI specification. The encoder appends to `ret` and `tail` and keeps a running
offset that starts at a sum of `getTypeSize`s; the specification places each head by position. The
bridge is `headsFrom` (the layout with a running offset) and `headSize_part`: `getTypeSize` is the
size of a component's head in the layout. -/

namespace Web3.Abi
open HeadTail

/-! ## Denoted values have the type -/

mutual
theorem hasType_of_denote : (t : Typ) → {v : Val} → {a : AbiVal} → denote t v = some a → HasType t a
  | .bool, v, a, h => by
    obtain ⟨b, -, rfl⟩ := denote_bool.mp h
    trivial
  | .uint _, _, _, h | .int _, _, _, h => by
    obtain ⟨n, -, hn, rfl⟩ := denoteNum_eq_some.mp h
    exact hn
  | .string, v, a, h => by
    obtain ⟨s, -, rfl⟩ := denote_string.mp h
    trivial
  | .bytes, v, a, h => by
    obtain ⟨bs, -, rfl⟩ := denote_bytes.mp h
    trivial
  | .address, _, _, h | .fixedBytes _, _, _, h | .function, _, _, h => by
    obtain ⟨bs, -, hbs, rfl⟩ := denoteBytes_eq_some.mp h
    exact hbs
  | .slice elem, v, a, h => by
    obtain ⟨et, vs, as, -, hvs, rfl⟩ := denote_slice.mp h
    exact forall₂_right hvs fun _ _ hw => hasType_of_denote elem hw
  | .array size elem, v, a, h => by
    obtain ⟨et, vs, as, -, hlen, hvs, rfl⟩ := denote_array.mp h
    exact ⟨hvs.length_eq ▸ hlen, forall₂_right hvs fun _ _ hw => hasType_of_denote elem hw⟩
  | .tuple name elems, v, a, h => by
    obtain ⟨fields, as, -, -, has, rfl⟩ := denote_tuple.mp h
    exact haveTypes_of_denoteFields elems has

theorem haveTypes_of_denoteFields : (es : TupleElems) → {i : ℕ} → {fields : Fields} →
    {as : List AbiVal} → denoteFields es i fields = some as → HaveTypes es as
  | .nil, i, fields, as, h => by
    rw [denoteFields, Option.some.injEq] at h
    subst h
    trivial
  | .cons name elem indexed rest, i, fields, as, h => by
    obtain ⟨v, -, b, hb, bs, hbs, rfl⟩ := denoteFields_cons.mp h
    exact ⟨hasType_of_denote elem hb, haveTypes_of_denoteFields rest hbs⟩
end

/-! ## Head sizes -/

theorem length_padRight (bs : Bytes) (h1 : 1 ≤ bs.length) (h32 : bs.length ≤ 32) : (Spec.padRight bs).length = 32 := by
  rw [Spec.padRight, List.length_append, List.length_replicate]
  omega

theorem parts_static : (es : TupleElems) → (vs : List AbiVal) → anyDynamicType es = false →
    ∀ p ∈ Spec.parts es vs, p.dyn = false
  | .nil, _, _ | .cons _ _ _ _, [], _ => by simp [Spec.parts]
  | .cons _ elem _ rest, v :: vs, h => by
    rw [anyDynamicType, Bool.or_eq_false_iff] at h
    intro p hp
    rw [Spec.parts, List.mem_cons] at hp
    rcases hp with rfl | hp
    · exact (dynamic_eq elem).trans h.1
    · exact parts_static rest vs h.2 p hp

section HeadSize
variable {t : Typ}

theorem headSize_of_static (h : isDynamicType t = false) (enc : Bytes) :
    (⟨Spec.dynamic t, enc⟩ : Part).headSize = enc.length := by
  rw [Part.headSize, dynamic_eq, h, if_neg (by simp)]

theorem headSize_of_dynamic (h : isDynamicType t = true) (enc : Bytes) :
    (⟨Spec.dynamic t, enc⟩ : Part).headSize = getTypeSize t := by
  rw [Part.headSize, dynamic_eq, h, if_pos rfl, getTypeSize_of_dynamic h]

end HeadSize

mutual
theorem headSize_part : (t : Typ) → WellFormed t → {a : AbiVal} → HasType t a →
    (⟨Spec.dynamic t, Spec.enc t a⟩ : Part).headSize = getTypeSize t
  | .bool, _, .bool _, _ | .uint _, _, .num _, _ | .int _, _, .num _, _ =>
    (headSize_of_static rfl _).trans (length_word _)
  | .string, _, _, _ | .bytes, _, _, _ | .slice _, _, _, _ => rfl
  | .address, _, .data bs, h => by
    have hlen : bs.length = 20 := h
    exact (headSize_of_static rfl _).trans (by simp [Spec.enc, getTypeSize, hlen])
  | .fixedBytes size, hwf, .data bs, h => by
    have hlen : bs.length = size := h
    exact (headSize_of_static rfl _).trans <| length_padRight bs (hlen ▸ hwf.1) (hlen ▸ hwf.2)
  | .function, _, .data bs, h => by
    have hlen : bs.length = 24 := h
    exact (headSize_of_static rfl _).trans <| length_padRight bs (by omega) (by omega)
  | .array size elem, hwf, .seq vs, ⟨hlen, hvs⟩ => by
    cases hd : isDynamicType elem with
    | true => exact headSize_of_dynamic (t := .array size elem) hd _
    | false =>
      have hsize : ∀ p ∈ vs.map (fun v => (⟨Spec.dynamic elem, Spec.enc elem v⟩ : Part)),
          p.headSize = getTypeSize elem := by
        intro p hp
        obtain ⟨v, hv, rfl⟩ := List.mem_map.mp hp
        exact headSize_part elem hwf.2 (hvs v hv)
      have htails : tails (vs.map fun v => (⟨Spec.dynamic elem, Spec.enc elem v⟩ : Part)) = [] := by
        apply tails_eq_nil
        intro p hp
        obtain ⟨v, hv, rfl⟩ := List.mem_map.mp hp
        rw [dynamic_eq, hd]
      rw [headSize_of_static (t := .array size elem) hd, getTypeSize_array_static hd, Spec.enc, length_layout,
        headsSize_eq_mul hsize, htails, List.length_map, hlen]
      rfl
  | .tuple name elems, hwf, .seq vs, h => by
    cases hd : anyDynamicType elems with
    | true => exact headSize_of_dynamic (t := .tuple name elems) hd _
    | false =>
      have htails := tails_eq_nil (parts_static elems vs hd)
      rw [headSize_of_static (t := .tuple name elems) hd, getTypeSize_tuple_static hd, Spec.enc, length_layout,
        headsSize_parts elems hwf.2.2 h, htails]
      rfl

theorem headsSize_parts : (es : TupleElems) → AllWellFormed es → {vs : List AbiVal} →
    HaveTypes es vs → headsSize (Spec.parts es vs) = getTypeSizes es
  | .nil, _, [], _ => rfl
  | .cons name elem indexed rest, hwf, v :: vs, h => by
    rw [Spec.parts, headsSize_cons, getTypeSizes, headSize_part elem hwf.1 h.1, headsSize_parts rest hwf.2 h.2]
end

variable {a : AbiVal} {v : Val} {vs : List Val} {as : List AbiVal}

theorem length_enc_static {t : Typ} (hwf : WellFormed t) (h : HasType t a)
    (hs : isDynamicType t = false) : (Spec.enc t a).length = getTypeSize t := by
  rw [← headSize_part t hwf h, headSize_of_static hs]

/-! ## Elementary types -/

theorem toU256_eq_intWord (n : ℤ) : toU256 n = Spec.intWord n := toU256_eq n

theorem encodeNum_eq {lo hi : ℤ} (h : denoteNum lo hi v = some a) :
    ∃ n, a = .num n ∧ encodeNum v = .ok (Spec.intWord n) := by
  obtain ⟨n, hn, -, rfl⟩ := denoteNum_eq_some.mp h
  exact ⟨n, rfl, by simp [encodeNum, hn, toU256_eq_intWord]⟩

theorem rightPad_eq_padRight {bs : Bytes} (h1 : 1 ≤ bs.length) (h32 : bs.length ≤ 32) :
    rightPad bs 32 = Spec.padRight bs := by
  rw [rightPad_eq h32, Spec.padRight]
  congr 2
  omega

theorem packBytesSlice_eq (bs : Bytes) : packBytesSlice bs bs.length = word bs.length ++ Spec.padRight bs := by
  have hle : bs.length ≤ (bs.length + 31) / 32 * 32 := by omega
  rw [packBytesSlice, packNum_eq, rightPad_eq hle, Spec.padRight, word]
  congr 3
  omega

theorem encodeFixedBytes_eq {size : ℕ} (h1 : 1 ≤ size) (h32 : size ≤ 32) (h : denoteBytes size v = some a) :
    ∃ bs, a = .data bs ∧ encodeFixedBytes v = .ok (Spec.padRight bs) := by
  obtain ⟨bs, hbs, rfl, rfl⟩ := denoteBytes_eq_some.mp h
  exact ⟨bs, rfl, by rw [encodeFixedBytes, hbs, Outcome.ok_bind, rightPad_eq_padRight h1 h32]; rfl⟩

/-! ## Sequences -/

/-- The loop of `encodeSliceAndArray` lays its elements out, starting from the given offset. -/
theorem encodeElems_eq {enc : Val → Outcome Bytes} {spec : AbiVal → Bytes} (dyn : Bool)
    (h : List.Forall₂ (fun v a => enc v = .ok (spec a)) vs as) (offset : ℕ) (ret tail : Bytes) :
    encodeElems enc dyn vs offset ret tail = .ok (ret ++ headsFrom offset (as.map fun a => ⟨dyn, spec a⟩) ++
        (tail ++ tails (as.map fun a => ⟨dyn, spec a⟩))) := by
  induction h generalizing offset ret tail with
  | nil => simp [encodeElems, headsFrom]
  | @cons v a vs as hv _ ih =>
    rw [encodeElems, hv, Outcome.ok_bind]
    cases dyn with
    | true => simp [ih, headsFrom, Part.head, Part.tail, packNum_eq, word]
    | false => simp [ih, headsFrom, Part.head, Part.tail]

theorem encodeElems_layout {elem : Typ} (hwf : WellFormed elem) (hty : ∀ a ∈ as, HasType elem a)
    (h : List.Forall₂ (fun v a => encode elem v = .ok (Spec.enc elem a)) vs as) (ret : Bytes) :
    encodeElems (fun w => encode elem w) (isDynamicType elem) vs (startOffset elem vs.length) ret
        [] =
      .ok (ret ++ layout (as.map fun a => ⟨Spec.dynamic elem, Spec.enc elem a⟩)) := by
  rw [encodeElems_eq (isDynamicType elem) h, ← dynamic_eq, layout_eq, List.nil_append, List.append_assoc]
  congr 3
  have hsize : ∀ p ∈ as.map (fun a => (⟨Spec.dynamic elem, Spec.enc elem a⟩ : Part)),
      p.headSize = getTypeSize elem := by
    intro p hp
    obtain ⟨a, ha, rfl⟩ := List.mem_map.mp hp
    exact headSize_part elem hwf (hty a ha)
  cases hd : isDynamicType elem with
  | true =>
    -- every head is one word, so the heads take as many words as there are elements
    rw [headsSize_eq_mul hsize, startOffset, if_pos hd, h.length_eq, List.length_map, mul_comm]
  | false =>
    apply headsFrom_static
    intro p hp
    obtain ⟨a, -, rfl⟩ := List.mem_map.mp hp
    rw [dynamic_eq, hd]

/-! ## The encoder meets the specification -/

mutual
theorem encode_eq_enc : (t : Typ) → WellFormed t → {v : Val} → {a : AbiVal} →
    denote t v = some a → encode t v = .ok (Spec.enc t a)
  | .bool, _, v, a, h => by
    obtain ⟨b, rfl, rfl⟩ := denote_bool.mp h
    cases b
    · exact congrArg Outcome.ok (leftPad_toBytes (by norm_num))
    · exact congrArg Outcome.ok (leftPad_toBytes (by norm_num))
  | .uint _, _, _, _, h | .int _, _, _, _, h => by
    obtain ⟨n, rfl, hn⟩ := encodeNum_eq h
    exact hn
  | .string, _, v, a, h => by
    obtain ⟨s, rfl, rfl⟩ := denote_string.mp h
    exact congrArg Outcome.ok (packBytesSlice_eq s)
  | .bytes, _, v, a, h => by
    obtain ⟨bs, hbs, rfl⟩ := denote_bytes.mp h
    rw [encode, encodeBytes, hbs, Outcome.ok_bind, packBytesSlice_eq]
    rfl
  | .address, _, v, a, h => by
    obtain ⟨bs, hbs, hlen, rfl⟩ := denoteBytes_eq_some.mp h
    rw [encode, encodeAddress, hbs, Outcome.ok_bind, leftPad_eq (by omega), hlen]
    rfl
  | .fixedBytes size, hwf, v, a, h => by
    obtain ⟨bs, rfl, hbs⟩ := encodeFixedBytes_eq hwf.1 hwf.2 h
    exact hbs
  | .function, _, v, a, h => by
    obtain ⟨bs, rfl, hbs⟩ := encodeFixedBytes_eq (by omega) (by omega) h
    exact hbs
  | .slice elem, hwf, v, a, h => by
    have hwf' : WellFormed elem := hwf
    obtain ⟨et, vs, as, rfl, hvs, rfl⟩ := denote_slice.mp h
    have hty := forall₂_right hvs fun _ _ hw => hasType_of_denote elem hw
    have henc := hvs.imp fun w b hw => encode_eq_enc elem hwf' hw
    rw [encode, encodeElems_layout hwf' hty henc, packNum_eq, hvs.length_eq]
    rfl
  | .array size elem, hwf, v, a, h => by
    obtain ⟨et, vs, as, rfl, hlen, hvs, rfl⟩ := denote_array.mp h
    have hty := forall₂_right hvs fun _ _ hw => hasType_of_denote elem hw
    have henc := hvs.imp fun w b hw => encode_eq_enc elem hwf.2 hw
    rw [encode, if_neg (by simp [hlen]), encodeElems_layout hwf.2 hty henc]
    rfl
  | .tuple name elems, hwf, v, a, h => by
    have hty := hasType_of_denote _ h
    obtain ⟨fields, as, hf, hfit, has, rfl⟩ := denote_tuple.mp h
    have hlen : ¬ fields.len < elems.length := by
      cases fields with
      | list vs =>
        have : vs.length = elems.length := by simpa [Fields.fits] using hfit
        simp [Fields.len, this]
      | map kvs =>
        have : elems.length ≤ kvs.length := by simpa [Fields.fits] using hfit
        simpa [Fields.len] using this
    rw [encode, hf, Outcome.ok_bind, if_neg hlen, encodeTuple_eq elems hwf.2.2 has, Spec.enc,
      layout_eq, headsSize_parts elems hwf.2.2 hty]
    rfl

theorem encodeTuple_eq : (es : TupleElems) → AllWellFormed es → {i : ℕ} → {fields : Fields} →
    {as : List AbiVal} → denoteFields es i fields = some as → {offset : ℕ} → {ret tail : Bytes} →
    encodeTuple es i fields offset ret tail =
      .ok (ret ++ headsFrom offset (Spec.parts es as) ++ (tail ++ tails (Spec.parts es as)))
  | .nil, _, i, fields, as, h, offset, ret, tail => by
    simp [encodeTuple, Spec.parts, headsFrom]
  | .cons name elem indexed rest, hwf, i, fields, as, h, offset, ret, tail => by
    obtain ⟨v, hv, b, hb, bs, hbs, rfl⟩ := denoteFields_cons.mp h
    have henc := encode_eq_enc elem hwf.1 hb
    simp only [encodeTuple, hv, henc, Outcome.ok_bind]
    cases hd : isDynamicType elem with
    | true =>
      rw [if_pos rfl, encodeTuple_eq rest hwf.2 hbs]
      simp [Spec.parts, headsFrom, Part.head, Part.tail, dynamic_eq, hd, packNum_eq, word]
    | false =>
      rw [if_neg (by simp), encodeTuple_eq rest hwf.2 hbs]
      simp [Spec.parts, headsFrom, Part.head, Part.tail, dynamic_eq, hd]
end

/-- **The encoder is the specification.** Every Go value that inhabits a well-formed type is encoded
as the ABI specification says. -/
theorem Encode_eq_spec (t : Typ) (hwf : WellFormed t) (v : Val) (a : AbiVal)
    (h : denote t v = some a) : Encode v t = .ok (Spec.enc t a) :=
  encode_eq_enc t hwf h

/-- A slice of pairs of a string and a two-element array, of which the first has a negative
number. -/
theorem Encode_eq_spec_pairs : Encode
        (.slice .iface [.slice .iface [.string [97, 98], .array .int16 [.int16 (-1), .int16 5]],
          .slice .iface [.string [], .array .int [.int 3, .int (-7)]]])
        (.slice (.tuple "" (.cons "s" .string false (.cons "xs" (.array 2 (.int 16)) false .nil)))) =
      .ok (Spec.enc
        (.slice (.tuple "" (.cons "s" .string false (.cons "xs" (.array 2 (.int 16)) false .nil))))
        (.seq [.seq [.data [97, 98], .seq [.num (-1), .num 5]], .seq [.data [], .seq [.num 3, .num (-7)]]])) :=
  Encode_eq_spec _ (by simp [WellFormed, AllWellFormed, TupleElems.keys, nameToKey]) _ _
    (by simp [denote, denoteFields, denoteNum, tupleFields, Val.deref, Fields.fits, Fields.get,
      TupleElems.length, Val.integer?])

end Web3.Abi
