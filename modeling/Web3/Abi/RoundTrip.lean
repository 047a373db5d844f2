import Web3.Abi.DecodeBounds
import Web3.Abi.DecodeMeaning

/-! # Decoding an encoding

Go values of a type's own Go type, with tuples given as positional lists, and what becomes of one
when it is encoded and decoded again: leaves come back as they are, a tuple comes back as a map. -/

namespace Web3.Abi
open HeadTail

mutual
/-- The Go values that inhabit a type: an integer in range of the type's reflect type, a byte slice
or byte array of the right length, a Go slice for `T[]`, a Go array of length `k` for `T[k]`, and a
list of the components for a tuple. -/
def Inhabits : Typ → Val → Prop
  | .bool, v => ∃ b, v = .bool b
  | .uint size, v => ∃ n : ℤ, 0 ≤ n ∧ n < 2 ^ size ∧ v = goUint size n
  | .int size, v => ∃ n : ℤ, -2 ^ (size - 1) ≤ n ∧ n < 2 ^ (size - 1) ∧ v = goInt size n
  | .string, v => ∃ s, v = .string s
  | .bytes, v => ∃ bs, v = .ofBytes bs
  | .address, v => ∃ bs, bs.length = 20 ∧ v = .ofByteArray bs
  | .fixedBytes size, v => ∃ bs, bs.length = size ∧ v = .ofByteArray bs
  | .function, v => ∃ bs, bs.length = 24 ∧ v = .ofByteArray bs
  | .slice elem, v => ∃ et vs, v = .slice et vs ∧ ∀ w ∈ vs, Inhabits elem w
  | .array size elem, v => ∃ et vs, v = .array et vs ∧ vs.length = size ∧ ∀ w ∈ vs, Inhabits elem w
  | .tuple _ elems, v => ∃ et vs, v = .slice et vs ∧ InhabitEach elems vs

def InhabitEach : TupleElems → List Val → Prop
  | .nil, [] => True
  | .cons _ elem _ rest, v :: vs => Inhabits elem v ∧ InhabitEach rest vs
  | _, _ => False
end

mutual
/-- An inhabitant after decoding: the same value, except that every tuple is the map from its
component keys and every slice or array has the reflect type of its elements. -/
def decoded : Typ → Val → Val
  | .slice elem, .slice _ vs => .slice (goType elem) (vs.map fun w => decoded elem w)
  | .array _ elem, .array _ vs => .array (goType elem) (vs.map fun w => decoded elem w)
  | .tuple _ elems, .slice _ vs => .map (decodedFields elems 0 vs)
  | _, v => v

def decodedFields : TupleElems → ℕ → List Val → List (String × Val)
  | .cons name elem _ rest, i, v :: vs =>
    (nameToKey name i, decoded elem v) :: decodedFields rest (i + 1) vs
  | _, _, _ => []
end

/-! ## An inhabitant stands for an ABI value -/

variable {size : ℕ} {n : ℤ}

theorem integer?_goUint (h0 : 0 ≤ n) (h : n < 2 ^ size) : (goUint size n).integer? = some n := by
  by_cases hs : NativeSize size
  · rcases hs with rfl | rfl | rfl | rfl <;> simp [goUint, Val.integer?] <;> omega
  · rw [goUint_big hs, Val.integer?]

theorem integer?_goInt (hlo : -2 ^ (size - 1) ≤ n) (hhi : n < 2 ^ (size - 1)) :
    (goInt size n).integer? = some n := by
  by_cases hs : NativeSize size
  · rcases hs with rfl | rfl | rfl | rfl
    · exact congrArg some (Int8.toInt_ofInt_of_le hlo hhi)
    · exact congrArg some (Int16.toInt_ofInt_of_le hlo hhi)
    · exact congrArg some (Int32.toInt_ofInt_of_le hlo hhi)
    · exact congrArg some (Int64.toInt_ofInt_of_le hlo hhi)
  · rw [goInt_big hs, Val.integer?]

theorem exists_denoted_list {elem : Typ} {vs : List Val}
    (h : ∀ w ∈ vs, ∃ a, denote elem w = some a ∧ goValue elem a = decoded elem w) :
    ∃ as, List.Forall₂ (fun w a => denote elem w = some a) vs as ∧
      as.map (fun a => goValue elem a) = vs.map fun w => decoded elem w := by
  induction vs with
  | nil => exact ⟨[], .nil, rfl⟩
  | cons w vs ih =>
    obtain ⟨a, ha, hgo⟩ := h w (List.mem_cons_self ..)
    obtain ⟨as, has, hgos⟩ := ih fun x hx => h x (List.mem_cons_of_mem w hx)
    exact ⟨a :: as, .cons ha has, by rw [List.map_cons, List.map_cons, hgo, hgos]⟩

theorem length_of_inhabitEach : (es : TupleElems) → {vs : List Val} → InhabitEach es vs → vs.length = es.length
  | .nil, [], _ => rfl
  | .cons name elem indexed rest, v :: vs, h => by
    rw [List.length_cons, TupleElems.length, length_of_inhabitEach rest h.2]

mutual
/-- An inhabitant stands for a value of its type, whose Go value is the decoded inhabitant. -/
theorem exists_denoted : (t : Typ) → {v : Val} → Inhabits t v → ∃ a, denote t v = some a ∧ goValue t a = decoded t v
  | .bool, v, h => by
    obtain ⟨b, rfl⟩ := h
    exact ⟨.bool b, rfl, rfl⟩
  | .uint size, v, h => by
    obtain ⟨n, h0, hn, rfl⟩ := h
    exact ⟨.num n, denoteNum_eq_some.mpr ⟨n, integer?_goUint h0 hn, ⟨h0, hn⟩, rfl⟩, rfl⟩
  | .int size, v, h => by
    obtain ⟨n, hlo, hhi, rfl⟩ := h
    exact ⟨.num n, denoteNum_eq_some.mpr ⟨n, integer?_goInt hlo hhi, ⟨hlo, hhi⟩, rfl⟩, rfl⟩
  | .string, v, h => by
    obtain ⟨s, rfl⟩ := h
    exact ⟨.data s, rfl, rfl⟩
  | .bytes, v, h => by
    obtain ⟨bs, rfl⟩ := h
    exact ⟨.data bs, denote_bytes.mpr ⟨bs, Val.bytes_ofBytes bs, rfl⟩, rfl⟩
  | .address, _, h | .fixedBytes _, _, h | .function, _, h => by
    obtain ⟨bs, hbs, rfl⟩ := h
    exact ⟨.data bs, denoteBytes_eq_some.mpr ⟨bs, Val.bytes_ofByteArray bs, hbs, rfl⟩, rfl⟩
  | .slice elem, v, h => by
    obtain ⟨et, vs, rfl, hvs⟩ := h
    obtain ⟨as, has, hgo⟩ := exists_denoted_list fun w hw => exists_denoted elem (hvs w hw)
    exact ⟨.seq as, denote_slice.mpr ⟨et, vs, as, rfl, has, rfl⟩, congrArg (Val.slice (goType elem)) hgo⟩
  | .array size elem, v, h => by
    obtain ⟨et, vs, rfl, hlen, hvs⟩ := h
    obtain ⟨as, has, hgo⟩ := exists_denoted_list fun w hw => exists_denoted elem (hvs w hw)
    exact ⟨.seq as, denote_array.mpr ⟨et, vs, as, rfl, hlen, has, rfl⟩, congrArg (Val.array (goType elem)) hgo⟩
  | .tuple name elems, v, h => by
    obtain ⟨et, vs, rfl, hvs⟩ := h
    obtain ⟨as, has, hgo⟩ := exists_denoted_fields elems [] hvs
    have hfit : (Fields.list vs).fits elems.length = true := by
      simp [Fields.fits, length_of_inhabitEach elems hvs]
    exact ⟨.seq as, denote_tuple.mpr ⟨.list vs, as, rfl, hfit, has, rfl⟩, congrArg Val.map hgo⟩

theorem exists_denoted_fields : (es : TupleElems) → (pre : List Val) → {vs : List Val} → InhabitEach es vs →
    ∃ as, denoteFields es pre.length (.list (pre ++ vs)) = some as ∧
      goFields es pre.length as = decodedFields es pre.length vs
  | .nil, pre, [], _ => ⟨[], rfl, rfl⟩
  | .cons name elem indexed rest, pre, v :: vs, h => by
    obtain ⟨a, ha, hgo⟩ := exists_denoted elem h.1
    obtain ⟨as, has, hgos⟩ := exists_denoted_fields rest (pre ++ [v]) h.2
    rw [List.length_append, List.length_singleton] at has hgos
    rw [List.append_assoc, List.singleton_append] at has
    refine ⟨a :: as, denoteFields_cons.mpr ⟨v, ?_, a, ha, as, has, rfl⟩, ?_⟩
    · simp [Fields.get]
    · rw [goFields, decodedFields, hgo, hgos]
end

/-! ## The round trip -/

/-- **Round trip.** An inhabitant of a well-formed type is encoded, and its encoding decodes to the
inhabitant again, with tuples as maps. The length of a Go byte slice is an `int`, so it is below
`2 ^ 63`. -/
theorem Decode_Encode (t : Typ) (hwf : WellFormed t) (v : Val) (hv : Inhabits t v) :
    ∃ bs, Encode v t = .ok bs ∧ (bs.length < 2 ^ 63 → Decode t bs = .ok (decoded t v)) := by
  obtain ⟨a, ha, hgo⟩ := exists_denoted t hv
  have hty := hasType_of_denote t ha
  refine ⟨Spec.enc t a, encode_eq_enc t hwf ha, ?_⟩
  intro hlen
  obtain ⟨tail, htail, -⟩ := decode_enc t hwf hty [] (by simpa using hlen)
  have h32 := length_enc_ge hwf hty
  have hdec : decode t (Spec.enc t a) = .ok (goValue t a, tail) := by simpa using htail
  rw [Decode, if_neg (by omega), hdec, Outcome.ok_bind, hgo]

def pairsType : Typ :=
  .slice (.tuple "" (.cons "s" .string false (.cons "" (.array 2 (.int 16)) false .nil)))

def onePair : Val :=
  .slice .iface [.slice .iface [.string [97, 98], .array .int16 [.int16 (-1), .int16 5]]]

theorem Decode_Encode_onePair : ∃ bs, Encode onePair pairsType = .ok bs ∧
      Decode pairsType bs = .ok (.slice .mapStringIface
        [.map [("s", .string [97, 98]), ("1", .array .int16 [.int16 (-1), .int16 5])]]) := by
  have hwf : WellFormed pairsType := by
    simp [pairsType, WellFormed, AllWellFormed, TupleElems.keys, nameToKey]
    decide
  have hin : Inhabits pairsType onePair := by
    refine ⟨_, _, rfl, ?_⟩
    intro w hw
    obtain rfl := List.mem_singleton.mp hw
    refine ⟨_, _, rfl, ⟨_, rfl⟩, ⟨_, _, rfl, rfl, ?_⟩, trivial⟩
    intro x hx
    rcases List.mem_cons.mp hx with rfl | hx
    · exact ⟨-1, by norm_num, by norm_num, rfl⟩
    · obtain rfl := List.mem_singleton.mp hx
      exact ⟨5, by norm_num, by norm_num, rfl⟩
  have hlen : (Encode onePair pairsType >>= fun bs => .ok bs.length) = .ok 224 := by
    decide +kernel
  obtain ⟨bs, henc, hdec⟩ := Decode_Encode pairsType hwf onePair hin
  rw [henc, Outcome.ok_bind, Outcome.ok.injEq] at hlen
  exact ⟨bs, henc, hdec (by omega)⟩

/-! ## Static types -/

/-- **The size of a static type is the length of its encodings**, and what decoding takes: what is left behind a static
value is what follows its bytes, behind a tuple what follows the heads of its components, and behind `n` elements what
follows their heads. -/
theorem static_size {t : Typ} (hwf : WellFormed t) (hs : isDynamicType t = false) :
    (∀ v a, denote t v = some a → ∃ bs, Encode v t = .ok bs ∧ bs.length = getTypeSize t ∧
      ∀ more, (bs ++ more).length < 2 ^ 63 → decode t (bs ++ more) = .ok (goValue t a, more)) ∧
    (∀ input v rest, decode t input = .ok (v, rest) → Consumes (getTypeSize t) input rest) ∧
    (∀ name indexed es i orig data res v rest, decodeTuple (.cons name t indexed es) i orig data res = .ok (v, rest) →
      Consumes (getTypeSize t + getTypeSizes es) data rest) ∧
    ∀ mk ty data n v rest, decodeArraySlice (decode t) (isDynamicType t) mk ty data n = .ok (v, rest) →
      Consumes (n * getTypeSize t) data rest := by
  refine ⟨fun v a ha => ?_, decode_consumes t hs, fun name indexed es => decodeTuple_consumes _, ?_⟩
  · have hty := hasType_of_denote t ha
    refine ⟨Spec.enc t a, encode_eq_enc t hwf ha, length_enc_static hwf hty hs, fun more hlen => ?_⟩
    obtain ⟨tail, hdec, htail⟩ := decode_enc t hwf hty more hlen
    rw [hdec, htail ((dynamic_eq t).trans hs)]
  · intro mk ty data n v rest h
    exact decodeArraySlice_consumes getTypeSize_of_dynamic (fun hs => decode_consumes t hs) h

/-- Two numbers and a flag. -/
theorem static_size_pair : ∃ bs,
    Encode (.slice .iface [.array .uint8 [.uint8 1, .uint8 2], .bool true])
      (.tuple "" (.cons "xs" (.array 2 (.uint 8)) false (.cons "ok" .bool false .nil))) = .ok bs ∧ bs.length = 96 := by
  obtain ⟨bs, henc, hlen, -⟩ := (static_size
    (t := .tuple "" (.cons "xs" (.array 2 (.uint 8)) false (.cons "ok" .bool false .nil)))
    (by simp [WellFormed, AllWellFormed, TupleElems.keys, nameToKey]) rfl).1
      (.slice .iface [.array .uint8 [.uint8 1, .uint8 2], .bool true]) (.seq [.seq [.num 1, .num 2], .bool true])
      (by simp [denote, denoteFields, denoteNum, tupleFields, Val.deref, Fields.fits, Fields.get,
        TupleElems.length, Val.integer?])
  exact ⟨bs, henc, hlen⟩

end Web3.Abi
