import Web3.Abi.RoundTrip

/-! # What the encoder accepts

The functions that encode elementary values are not given the type. They check the Go kind of a value and
nothing else: an integer is reduced modulo `2 ^ 256`, a byte string is padded or cut to a word, and of a list
for a tuple only as many elements are looked at as there are components. `Shaped` is what is accepted. Among
the values that do inhabit a type, encodings tell the values apart. -/

namespace Web3.Abi
open HeadTail

/-! ## Shapes -/

mutual
def Shaped : Typ → Val → Prop
  | .bool, v => ∃ b, v = .bool b
  | .uint _, v => ∃ n, v.integer? = some n
  | .int _, v => ∃ n, v.integer? = some n
  | .string, v => ∃ s, v = .string s
  | .bytes, v => ∃ bs, v.bytes = .ok bs
  | .address, v => ∃ bs, v.bytes = .ok bs
  | .fixedBytes _, v => ∃ bs, v.bytes = .ok bs
  | .function, v => ∃ bs, v.bytes = .ok bs
  | .slice elem, v => ∃ et vs, v = .slice et vs ∧ ∀ w ∈ vs, Shaped elem w
  | .array size elem, v => ∃ et vs, v = .array et vs ∧ vs.length = size ∧ ∀ w ∈ vs, Shaped elem w
  | .tuple _ elems, v =>
    ∃ fields, tupleFields v = .ok fields ∧ elems.length ≤ fields.len ∧ ShapedFields elems 0 fields

def ShapedFields : TupleElems → ℕ → Fields → Prop
  | .nil, _, _ => True
  | .cons name elem _ rest, i, fields =>
    (∃ w, fields.get name i = some w ∧ Shaped elem w) ∧ ShapedFields rest (i + 1) fields
end

/-! ## Acceptance -/

variable {v : Val}

theorem encodeNum_accepts : (∃ bs, encodeNum v = .ok bs) ↔ ∃ n, v.integer? = some n := by
  unfold encodeNum
  cases v.integer? with
  | some n => simp
  | none => cases v <;> simp

theorem bytes_accepts {pack : Bytes → Bytes} :
    (∃ bs, (v.bytes >>= fun b => .ok (pack b)) = .ok bs) ↔ ∃ bs, v.bytes = .ok bs := by
  cases v.bytes <;> simp

theorem encodeElems_accepts {enc : Val → Outcome Bytes} {dyn : Bool} {vs : List Val} {offset : ℕ} {ret tail : Bytes} :
    (∃ bs, encodeElems enc dyn vs offset ret tail = .ok bs) ↔ ∀ w ∈ vs, ∃ bs, enc w = .ok bs := by
  induction vs generalizing offset ret tail with
  | nil => simp [encodeElems]
  | cons v vs ih =>
    rw [List.forall_mem_cons, encodeElems]
    cases enc v with
    | ok val => cases dyn <;> simp [ih]
    | err | panic => simp

mutual
theorem encode_accepts : (t : Typ) → (v : Val) → ((∃ bs, encode t v = .ok bs) ↔ Shaped t v)
  | .bool, v => by
    rw [encode, Shaped]
    cases v with
    | bool b => cases b <;> simp [encodeBool]
    | _ => simp [encodeBool]
  | .uint _, _ | .int _, _ => encodeNum_accepts
  | .string, v => by
    rw [encode, Shaped]
    cases v <;> simp [encodeString]
  | .bytes, _ | .address, _ | .fixedBytes _, _ | .function, _ => bytes_accepts
  | .slice elem, v => by
    rw [Shaped]
    cases v with
    | slice et vs =>
      rw [encode, encodeElems_accepts]
      simp [encode_accepts elem]
    | _ => simp [encode]
  | .array size elem, v => by
    rw [Shaped]
    cases v with
    | array et vs =>
      rw [encode]
      by_cases hlen : size = vs.length
      · rw [if_neg (not_not.mpr hlen), encodeElems_accepts]
        simp [hlen, encode_accepts elem]
      · rw [if_pos hlen]
        simp [Ne.symm hlen]
    | _ => simp [encode]
  | .tuple _ elems, v => by
    rw [encode, Shaped]
    cases tupleFields v with
    | ok fields =>
      by_cases hlen : fields.len < elems.length
      · simp [hlen]
      · simp [hlen, encodeTuple_accepts elems, Nat.le_of_not_lt hlen]
    | err | panic => simp

theorem encodeTuple_accepts : (es : TupleElems) → {i : ℕ} → {fields : Fields} → {offset : ℕ} → {ret tail : Bytes} →
    ((∃ bs, encodeTuple es i fields offset ret tail = .ok bs) ↔ ShapedFields es i fields)
  | .nil, _, _, _, _, _ => by simp [encodeTuple, ShapedFields]
  | .cons name elem _ rest, i, fields, offset, ret, tail => by
    rw [encodeTuple, ShapedFields]
    cases fields.get name i with
    | none => simp
    | some aux =>
      have helem := encode_accepts elem aux
      simp only [Option.some.injEq, exists_eq_left', ← helem]
      cases encode elem aux with
      | ok val => cases isDynamicType elem <;> simp [encodeTuple_accepts rest]
      | err | panic => simp
end

/-! ## Values that inhabit the type -/

mutual
theorem shaped_of_denote : (t : Typ) → {v : Val} → {a : AbiVal} → denote t v = some a → Shaped t v
  | .bool, v, a, h => by
    obtain ⟨b, rfl, -⟩ := denote_bool.mp h
    exact ⟨b, rfl⟩
  | .uint _, v, a, h | .int _, v, a, h => by
    obtain ⟨n, hn, -⟩ := denoteNum_eq_some.mp h
    exact ⟨n, hn⟩
  | .string, v, a, h => by
    obtain ⟨s, rfl, -⟩ := denote_string.mp h
    exact ⟨s, rfl⟩
  | .bytes, v, a, h => by
    obtain ⟨bs, hbs, -⟩ := denote_bytes.mp h
    exact ⟨bs, hbs⟩
  | .address, v, a, h | .fixedBytes _, v, a, h | .function, v, a, h => by
    obtain ⟨bs, hbs, -⟩ := denoteBytes_eq_some.mp h
    exact ⟨bs, hbs⟩
  | .slice elem, v, a, h => by
    obtain ⟨et, vs, as, rfl, hvs, -⟩ := denote_slice.mp h
    exact ⟨et, vs, rfl, forall₂_right (List.Forall₂.flip hvs) fun _ _ hw => shaped_of_denote elem hw⟩
  | .array size elem, v, a, h => by
    obtain ⟨et, vs, as, rfl, hlen, hvs, -⟩ := denote_array.mp h
    exact ⟨et, vs, rfl, hlen, forall₂_right (List.Forall₂.flip hvs) fun _ _ hw => shaped_of_denote elem hw⟩
  | .tuple _ elems, v, a, h => by
    obtain ⟨fields, as, hfields, hfits, has, -⟩ := denote_tuple.mp h
    refine ⟨fields, hfields, ?_, shapedFields_of_denoteFields elems has⟩
    cases fields with
    | list vs => exact (of_decide_eq_true hfits).ge
    | map kvs => exact of_decide_eq_true hfits

theorem shapedFields_of_denoteFields : (es : TupleElems) → {i : ℕ} → {fields : Fields} → {as : List AbiVal} →
    denoteFields es i fields = some as → ShapedFields es i fields
  | .nil, _, _, _, _ => trivial
  | .cons _ elem _ rest, _, _, _, h => by
    obtain ⟨v, hv, b, hb, bs, hbs, -⟩ := denoteFields_cons.mp h
    exact ⟨⟨v, hv, shaped_of_denote elem hb⟩, shapedFields_of_denoteFields rest hbs⟩
end

theorem map_inj_of {α β : Type} {f : α → β} {P : α → Prop} {as bs : List α} (has : ∀ a ∈ as, P a)
    (hbs : ∀ b ∈ bs, P b) (hf : ∀ a b, P a → P b → f a = f b → a = b) (h : as.map f = bs.map f) : as = bs := by
  induction as generalizing bs with
  | nil => exact (List.map_eq_nil_iff.mp h.symm).symm
  | cons a as ih =>
    cases bs with
    | nil => cases h
    | cons b bs =>
      rw [List.forall_mem_cons] at has hbs
      rw [List.map_cons, List.map_cons, List.cons.injEq] at h
      rw [hf a b has.1 hbs.1 h.1, ih has.2 hbs.2 h.2]

mutual
theorem goValue_inj : (t : Typ) → {a b : AbiVal} → HasType t a → HasType t b → goValue t a = goValue t b → a = b
  | .bool, .bool _, .bool _, _, _, h => by
    rw [Val.bool.inj h]
  | .uint size, .num n, .num m, hn, hm, h => by
    have heq := congrArg Val.integer? h
    simp only [goValue] at heq
    rw [integer?_goUint hn.1 hn.2, integer?_goUint hm.1 hm.2] at heq
    rw [Option.some.inj heq]
  | .int size, .num n, .num m, hn, hm, h => by
    have heq := congrArg Val.integer? h
    simp only [goValue] at heq
    rw [integer?_goInt hn.1 hn.2, integer?_goInt hm.1 hm.2] at heq
    rw [Option.some.inj heq]
  | .string, .data _, .data _, _, _, h => by
    rw [Val.string.inj h]
  | .bytes, .data as, .data bs, _, _, h => by
    have heq := congrArg Val.bytes h
    simp only [goValue, Val.bytes_ofBytes, Outcome.ok.injEq] at heq
    rw [heq]
  | .address, .data as, .data bs, _, _, h | .fixedBytes _, .data as, .data bs, _, _, h
  | .function, .data as, .data bs, _, _, h => by
    have heq := congrArg Val.bytes h
    simp only [goValue, Val.bytes_ofByteArray, Outcome.ok.injEq] at heq
    rw [heq]
  | .slice elem, .seq as, .seq bs, has, hbs, h => by
    simp only [goValue, Val.slice.injEq, true_and] at h
    rw [map_inj_of has hbs (fun a b ha hb => goValue_inj elem ha hb) h]
  | .array size elem, .seq as, .seq bs, has, hbs, h => by
    simp only [goValue, Val.array.injEq, true_and] at h
    rw [map_inj_of has.2 hbs.2 (fun a b ha hb => goValue_inj elem ha hb) h]
  | .tuple _ elems, .seq as, .seq bs, has, hbs, h => by
    simp only [goValue, Val.map.injEq] at h
    rw [goFields_inj elems has hbs h]

theorem goFields_inj : (es : TupleElems) → {i : ℕ} → {as bs : List AbiVal} → HaveTypes es as → HaveTypes es bs →
    goFields es i as = goFields es i bs → as = bs
  | .nil, _, [], [], _, _, _ => rfl
  | .cons _ elem _ rest, _, a :: as, b :: bs, has, hbs, h => by
    simp only [goFields, List.cons.injEq, Prod.mk.injEq, true_and] at h
    rw [goValue_inj elem has.1 hbs.1 h.1, goFields_inj rest has.2 hbs.2 h.2]
end

theorem enc_inj {t : Typ} (hwf : WellFormed t) {a b : AbiVal} (ha : HasType t a) (hb : HasType t b)
    (hlen : (Spec.enc t a).length < 2 ^ 63) (h : Spec.enc t a = Spec.enc t b) : a = b := by
  obtain ⟨tail, htail, -⟩ := decode_enc t hwf ha [] (by rwa [List.append_nil])
  obtain ⟨tail', htail', -⟩ := decode_enc t hwf hb [] (by rwa [List.append_nil, ← h])
  dsimp only at htail htail'
  rw [← h, htail, Outcome.ok.injEq, Prod.mk.injEq] at htail'
  exact goValue_inj t ha hb htail'.1

/-- A Go value is accepted if and only if it has the shape of the type, as every inhabitant has. Inhabitants
with one encoding stand for one ABI value. The length of a Go byte slice is below `2 ^ 63`. -/
theorem Encode_accepts_shapes (t : Typ) (hwf : WellFormed t) :
    (∀ v, (∃ bs, Encode v t = .ok bs) ↔ Shaped t v) ∧ (∀ v a, denote t v = some a → Shaped t v) ∧
      ∀ v w a b bs, denote t v = some a → denote t w = some b → Encode v t = .ok bs → Encode w t = .ok bs →
        bs.length < 2 ^ 63 → a = b := by
  refine ⟨fun v => encode_accepts t v, fun v a h => shaped_of_denote t h, ?_⟩
  intro v w a b bs ha hb hv hw hlen
  rw [Encode_eq_spec t hwf v a ha, Outcome.ok.injEq] at hv
  rw [Encode_eq_spec t hwf w b hb, Outcome.ok.injEq] at hw
  subst hv
  exact enc_inj hwf (hasType_of_denote t ha) (hasType_of_denote t hb) hlen hw.symm

theorem Encode_accepts_shapes_uint8 : Shaped (.uint 8) (.bigInt 256) :=
  ((Encode_accepts_shapes (.uint 8) (by simp [WellFormed])).1 (.bigInt 256)).mp ⟨_, rfl⟩

/-- Accepted without being inhabitants: a number out of range, an address of 21 bytes, four bytes for
`bytes3`, a list that is too long. Numbers that differ by `2 ^ 256` have one encoding. -/
theorem Encode_accepts_strangers :
    (∃ bs, Encode (.bigInt 256) (.uint 8) = .ok bs) ∧ denote (.uint 8) (.bigInt 256) = none ∧
      (∃ bs, Encode (.ofBytes (List.replicate 21 1)) .address = .ok bs) ∧
      denote .address (.ofBytes (List.replicate 21 1)) = none ∧
      (∃ bs, Encode (.ofBytes [1, 2, 3, 4]) (.fixedBytes 3) = .ok bs) ∧
      denote (.fixedBytes 3) (.ofBytes [1, 2, 3, 4]) = none ∧
      (∃ bs, Encode (.slice .iface [.bool true, .bool true]) (.tuple "" (.cons "" .bool false .nil)) = .ok bs) ∧
      denote (.tuple "" (.cons "" .bool false .nil)) (.slice .iface [.bool true, .bool true]) = none ∧
      Encode (.bigInt (2 ^ 256)) (.uint 256) = Encode (.bigInt 0) (.uint 256) := by
  refine ⟨⟨_, rfl⟩, rfl, ⟨_, rfl⟩, rfl, ⟨_, rfl⟩, rfl, ⟨_, rfl⟩, rfl, ?_⟩
  decide +kernel

end Web3.Abi
