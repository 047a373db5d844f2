import Web3.Json.Logs
import Web3.Json.Readers

/-! # Well-formed fields

The fields of a document that are well formed, and those that the readers accept: the error of `UnmarshalText` in
`decodeHash` and `decodeAddr` is dropped, quotation marks inside of a hash are trimmed, and a big integer may have a
sign. -/

namespace Web3

/-! ## Fields -/

def ExactField (n : ℕ) (v : Json) (key : String) : Prop := ∃ bs : Bytes, bs.length = n ∧ FixedField v key bs

variable (v : Json) (key : String)

/-- The field is a string that is not empty, all that `decodeHash` and `decodeAddr` ask for. -/
def Present : Prop := v.getStringBytes key ≠ ""

def IsUint : Prop := ∃ n, UintField v key n

def IsBytes : Prop := ∃ bs, BytesField v key bs

def IsNull : Prop := v.get key = some .null

def IsArray : Prop := ∃ ws, v.get key = some (.array ws)

def HashValue (w : Json) (h : Hash) : Prop := ∃ s cs, w = .string s ∧ s.toList = '0' :: 'x' :: cs ∧ decodeHex cs = .ok h.1

def LooseHash (w : Json) : Prop :=
  ∃ s cs, ∃ h : Hash, w = .string s ∧ (trimQuotes s).toList = '0' :: 'x' :: cs ∧ decodeHex cs = .ok h.1

section
variable {v : Json} {key : String} {n : ℕ} {a : Address} {h : Hash} {w : Json}

theorem exactField_iff : ExactField n v key ↔ ∃ a : { bs : Bytes // bs.length = n }, FixedField v key a.1 := by
  constructor
  · rintro ⟨bs, hlen, h⟩
    exact ⟨⟨bs, hlen⟩, h⟩
  · rintro ⟨a, h⟩
    exact ⟨a.1, a.2, h⟩

theorem exists_decodeFixed_iff {a : { bs : Bytes // bs.length = n }} :
    (∃ b, decodeFixed (unmarshalTextByte n) a v key = .ok b) ↔ Present v key := by
  unfold Present
  constructor
  · rintro ⟨b, hb⟩
    exact (decodeFixed_eq_ok.mp hb).1
  · intro h
    cases htext : unmarshalTextByte n (v.getStringBytes key) with
    | ok b => exact ⟨b, decodeFixed_eq_ok.mpr ⟨h, .inl htext⟩⟩
    | error e => exact ⟨a, decodeFixed_eq_ok.mpr ⟨h, .inr ⟨⟨e, htext⟩, rfl⟩⟩⟩

theorem exists_decodeHash_iff {a : Hash} : (∃ b, decodeHash a v key = .ok b) ↔ Present v key := exists_decodeFixed_iff

theorem exists_decodeAddr_iff : (∃ b, decodeAddr a v key = .ok b) ↔ Present v key := exists_decodeFixed_iff

theorem exists_decodeUint_iff : (∃ n, decodeUint v key = .ok n) ↔ IsUint v key :=
  exists_congr fun _ => decodeUint_eq_ok

theorem exists_decodeBigInt_iff : (∃ n, decodeBigInt v key = .ok n) ↔ ∃ n, SignedField v key n :=
  exists_congr fun _ => decodeBigInt_eq_ok

theorem exists_readBytes_iff : (∃ bs, readBytes v key = .ok bs) ↔ IsBytes v key :=
  exists_congr fun _ => readBytes_eq_ok

theorem exists_decodeBytes_iff {dst : Option Bytes} :
    (∃ r, decodeBytes dst v key none = .ok r) ↔ IsBytes v key := by
  simp only [decodeBytes_eq_ok, IsBytes]
  constructor
  · rintro ⟨_, bs, hbs, -⟩
    exact ⟨bs, hbs⟩
  · rintro ⟨bs, hbs⟩
    exact ⟨_, bs, hbs, fun n h => (by cases h), rfl⟩

theorem decodeHash_strict_iff {a b : Hash} (h : decodeHash a v key = .ok b) : FixedField v key b.1 ↔ ExactField 32 v key :=
  (decodeFixed_strict_iff h).trans exactField_iff.symm

theorem decodeAddr_strict_iff {b : Address} (h : decodeAddr a v key = .ok b) :
    FixedField v key b.1 ↔ ExactField 20 v key :=
  (decodeFixed_strict_iff h).trans exactField_iff.symm

theorem decodeBigInt_strict_iff {value : Option ℤ} (h : ∃ n, decodeBigInt v key = .ok n ∧ value = some n) :
    (∃ n, value = some n ∧ NatField v key n) ↔ ∃ n, NatField v key n := by
  obtain ⟨n, hn, rfl⟩ := h
  rw [← natField_iff (decodeBigInt_eq_ok.mp hn)]
  simp

theorem unmarshalText_eq_ok {s : String} : Hash.unmarshalText s = .ok h ↔
    ∃ cs, (trimQuotes s).toList = '0' :: 'x' :: cs ∧ decodeHex cs = .ok h.1 := unmarshalTextByte_eq_ok

theorem decodeTopic_eq_ok : Log.decodeTopic w = .ok h ↔
    ∃ s cs, w = .string s ∧ (trimQuotes s).toList = '0' :: 'x' :: cs ∧ decodeHex cs = .ok h.1 := by
  constructor
  · intro hread
    cases w with
    | string s =>
      obtain ⟨cs, hs, hcs⟩ := unmarshalText_eq_ok.mp hread
      exact ⟨s, cs, rfl, hs, hcs⟩
    | _ => cases hread
  · rintro ⟨s, cs, rfl, hs, hcs⟩
    exact unmarshalText_eq_ok.mpr ⟨cs, hs, hcs⟩

theorem exists_decodeTopic_iff : (∃ h, Log.decodeTopic w = .ok h) ↔ LooseHash w := by
  constructor
  · rintro ⟨h, hread⟩
    obtain ⟨s, cs, hw, hs, hcs⟩ := decodeTopic_eq_ok.mp hread
    exact ⟨s, cs, h, hw, hs, hcs⟩
  · rintro ⟨s, cs, h, hw, hs, hcs⟩
    exact ⟨h, decodeTopic_eq_ok.mpr ⟨s, cs, hw, hs, hcs⟩⟩

theorem hashValue_iff (hread : Log.decodeTopic w = .ok h) : HashValue w h ↔ ∃ h', HashValue w h' := by
  constructor
  · exact fun hw => ⟨h, hw⟩
  · rintro ⟨h', s, cs, rfl, hs, hcs⟩
    obtain ⟨s', cs', heq, hs', hcs'⟩ := decodeTopic_eq_ok.mp hread
    cases heq
    have htext : HexText s cs := ⟨hs, decodeHex_digits cs hcs⟩
    rw [htext.trimQuotes_eq, hs] at hs'
    cases hs'
    exact ⟨s, cs, rfl, hs, hcs'⟩

end

/-! ## Fields that may be null -/

/-- The field is missing or null. -/
def Absent (v : Json) (key : String) : Prop := v.get key = none ∨ IsNull v key

theorem nullable_iff {α : Type} {N S S' : Prop} {a d : α} (h : N ∧ a = d ∨ ¬N ∧ (S ↔ S')) :
    (N ∧ a = d) ∨ S ↔ N ∨ S' := by
  rcases h with ⟨hN, rfl⟩ | ⟨hN, hS⟩
  · simp [hN]
  · simp [hN, hS]

section
variable {v : Json} {key : String}

theorem Present.not_absent (h : Present v key) : ¬Absent v key := by
  unfold Present Json.getStringBytes at h
  rintro (hnone | hnull)
  · rw [hnone] at h
    exact h rfl
  · rw [hnull] at h
    exact h rfl

variable {n : UInt64} {a b : Hash}

theorem UintField.not_null (h : UintField v key n) : ¬IsNull v key := by
  obtain ⟨s, -, hget, -⟩ := h
  intro hnull
  rw [hnull] at hget
  cases hget

theorem absent_iff : Absent v key ↔ fieldNotFull v key = false := by
  rw [← Bool.not_eq_true, fieldNotFull_iff, Absent, IsNull]
  cases v.get key with
  | none | some => simp

theorem decodeUintOrNull_eq_ok : decodeUintOrNull v key = .ok n ↔ (IsNull v key ∧ n = 0) ∨ UintField v key n := by
  unfold decodeUintOrNull
  split
  · next hnull =>
    have hnot : ¬UintField v key n := fun h => h.not_null hnull
    simp [IsNull, hnull, hnot, eq_comm]
  · next hnull =>
    have hnot : ¬IsNull v key := hnull
    simp [hnot, decodeUint_eq_ok]

theorem decodeHashOrNull_eq_ok : decodeHashOrNull a v key = .ok b ↔
    (IsNull v key ∧ b = Hash.zero) ∨ (¬IsNull v key ∧ decodeHash a v key = .ok b) := by
  unfold decodeHashOrNull
  split
  · next hnull => simp [IsNull, hnull, eq_comm]
  · next hnull =>
    have hnot : ¬IsNull v key := hnull
    simp [hnot]

theorem exists_decodeUintOrNull_iff : (∃ n, decodeUintOrNull v key = .ok n) ↔ IsNull v key ∨ IsUint v key := by
  simp only [decodeUintOrNull_eq_ok, exists_or, exists_and_left, exists_eq, and_true, IsUint]

theorem exists_decodeHashOrNull_iff : (∃ b, decodeHashOrNull a v key = .ok b) ↔ IsNull v key ∨ Present v key := by
  simp only [decodeHashOrNull_eq_ok, exists_or, exists_and_left, exists_eq, and_true, exists_decodeHash_iff]
  by_cases hnull : IsNull v key
  · simp [hnull]
  · simp [hnull]

theorem decodeHashOrNull_strict_iff (h : decodeHashOrNull a v key = .ok b) :
    (IsNull v key ∧ b = Hash.zero) ∨ FixedField v key b.1 ↔ IsNull v key ∨ ExactField 32 v key := by
  rw [decodeHashOrNull_eq_ok] at h
  exact nullable_iff (h.imp_right fun h => ⟨h.1, decodeHash_strict_iff h.2⟩)

end

/-! ## Sequences of readers -/

variable {ε : Type}

theorem exists_do_iff {α β : Type} {x : Except ε α} {f : α → Except ε β} :
    (∃ b, (x >>= f) = .ok b) ↔ ∃ a, x = .ok a ∧ ∃ b, f a = .ok b := by
  simp only [except_do_eq_ok]
  constructor
  · rintro ⟨b, a, ha, hb⟩
    exact ⟨a, ha, b, hb⟩
  · rintro ⟨a, ha, b, hb⟩
    exact ⟨b, a, ha, hb⟩

theorem forall_ok_imp_iff {α : Type} {x : Except ε α} {p : Prop} :
    (∀ a, x = .ok a → p) ↔ ((∃ a, x = .ok a) → p) := exists_imp.symm

theorem exists_pure_iff {α : Type} {a : α} : (∃ b, (pure a : Except ε α) = .ok b) ↔ True :=
  iff_true_intro ⟨a, rfl⟩

theorem exists_except_mapM_iff {α β : Type} {f : α → Except ε β} {xs : List α} :
    (∃ ys, xs.mapM f = .ok ys) ↔ ∀ x ∈ xs, ∃ y, f x = .ok y := by
  simp only [except_mapM_eq_ok]
  induction xs with
  | nil => exact iff_of_true ⟨[], .nil⟩ (by simp)
  | cons x xs ih =>
    rw [List.forall_mem_cons, ← ih]
    constructor
    · rintro ⟨_, h⟩
      cases h with
      | cons hxy h => exact ⟨⟨_, hxy⟩, _, h⟩
    · rintro ⟨⟨y, hxy⟩, ys, h⟩
      exact ⟨y :: ys, .cons hxy h⟩

theorem forall₂_iff_of_mapM {α β : Type} {f : α → Except ε β} {R : α → β → Prop} {P : α → Prop}
    {xs : List α} {ys : List β} (h : xs.mapM f = .ok ys)
    (hR : ∀ x ∈ xs, ∀ y, f x = .ok y → (R x y ↔ P x)) : List.Forall₂ R xs ys ↔ ∀ x ∈ xs, P x := by
  rw [except_mapM_eq_ok] at h
  induction h with
  | nil => simp
  | cons hxy h ih =>
    rw [List.forall₂_cons, List.forall_mem_cons, hR _ (List.mem_cons_self ..) _ hxy,
      ih fun x hx => hR x (List.mem_cons_of_mem _ hx)]

/-! ## Panics -/

def NoPanic {α : Type} (x : Except Fault α) : Prop := ∀ e, x ≠ .error (.panic e)

section
variable {α β : Type}

theorem noPanic_ok (a : α) : NoPanic (.ok a) := fun _ h => (by cases h)

theorem noPanic_pure (a : α) : NoPanic (pure a) := noPanic_ok a

variable {x : Except Fault α} {f : α → Except Fault β} {xs : List α}

theorem noPanic_bind : NoPanic (x >>= f) ↔ NoPanic x ∧ ∀ a, x = .ok a → NoPanic (f a) := by
  cases x with
  | ok a =>
    have hbind : (Except.ok a >>= f) = f a := rfl
    rw [hbind]
    constructor
    · intro h
      refine ⟨noPanic_ok a, fun b hb => ?_⟩
      cases hb
      exact h
    · exact fun h => h.2 a rfl
  | error e =>
    constructor
    · exact fun h => ⟨fun e' he => h e' (by rw [he]; rfl), fun a ha => (by cases ha)⟩
    · rintro ⟨h, -⟩ e' he
      refine h e' ?_
      cases he
      rfl

theorem noPanic_ofField (x : Except DecodeError α) : NoPanic (x.mapError Fault.ofField) := by
  cases x with
  | ok a => exact noPanic_ok a
  | error e => exact fun _ h => (by cases h)

theorem noPanic_mapM_cons {a : α} :
    NoPanic ((a :: xs).mapM f) ↔ NoPanic (f a) ∧ ((∃ b, f a = .ok b) → NoPanic (xs.mapM f)) := by
  rw [List.mapM_cons, noPanic_bind]
  refine and_congr_right fun _ => ?_
  constructor
  · rintro h ⟨b, hb⟩
    exact (noPanic_bind.mp (h b hb)).1
  · exact fun h b hb => noPanic_bind.mpr ⟨h ⟨b, hb⟩, fun bs _ => noPanic_ok _⟩

end

end Web3
