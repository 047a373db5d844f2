import Web3.Abi.Topics

/-! # Topics of a query

`contract/topics.go`. `MakeTopics` builds a topic for each rule of a filter query, by the Go type of the rule, with
code of its own: signed integers byte by byte, and unsigned and big integers through `u256.Int`. The topics are
compared with those of `abi.EncodeTopic`, which go through `toU256`. -/

namespace Web3.Contract
open Abi

/-- A rule, by its Go type. A nil `*big.Int` is `none`, also the one in a `u256.Int`. An `array` is a byte array that
is neither a hash nor an address. -/
inductive Rule where
  | hash (h : Hash)
  | address (a : Address)
  | bool (b : Bool)
  | int8 (n : Int8)
  | int16 (n : Int16)
  | int32 (n : Int32)
  | int64 (n : Int64)
  | uint8 (n : UInt8)
  | uint16 (n : UInt16)
  | uint32 (n : UInt32)
  | uint64 (n : UInt64)
  | bigInt (n : Option ℤ)
  | u256Int (n : Option ℤ)
  | u256Ptr (n : Option (Option ℤ))
  | string (s : Bytes)
  | bytes (bs : Bytes)
  | array (bs : Bytes)
  | other (goType : String)

/-! ## Integers -/

def setByte (topic : Hash) (i : ℕ) (b : UInt8) : Hash := ⟨topic.1.set i b, by rw [List.length_set, topic.2]⟩

def fill (b : UInt8) : Hash := ⟨List.replicate 32 b, List.length_replicate⟩

def shiftedByte (rule : Int64) (i : ℕ) : UInt8 := UInt8.ofNat (rule.toInt / 256 ^ i % 256).toNat

def genIntType (rule : Int64) (size : ℕ) : Hash :=
  let topic := if rule.toInt < 0 then fill 255 else fill 0
  (List.range size).foldl (fun topic i => setByte topic (32 - i - 1) (shiftedByte rule i)) topic

/-- `u256.New(val).Bytes32()`. The bytes of a `big.Int` are those of its absolute value. -/
def bytes32 (val : Option ℤ) : Hash :=
  ⟨beBytes 32 (ofBytes (toBytes (val.getD 0).natAbs) % 2 ^ 256), length_beBytes 32 _⟩

/-! ## Queries -/

section
variable (keccak256 : Bytes → Hash)

def makeTopic : Rule → Outcome Hash
  | .hash h => .ok h
  | .address a => .ok (bytesToHash a.1)
  | .bool b => .ok (if b then setByte Hash.zero 31 1 else Hash.zero)
  | .int8 n => .ok (genIntType n.toInt64 1)
  | .int16 n => .ok (genIntType n.toInt64 2)
  | .int32 n => .ok (genIntType n.toInt64 4)
  | .int64 n => .ok (genIntType n 8)
  | .uint8 n => .ok (bytes32 (some n.toNat))
  | .uint16 n => .ok (bytes32 (some n.toNat))
  | .uint32 n => .ok (bytes32 (some n.toNat))
  | .uint64 n => .ok (bytes32 (some n.toNat))
  | .bigInt n => .ok (bytes32 n)
  | .u256Int n => .ok (bytes32 n)
  | .u256Ptr none => .panic "runtime error: invalid memory address or nil pointer dereference"
  | .u256Ptr (some n) => .ok (bytes32 n)
  | .string s => .ok (keccak256 s)
  | .bytes bs => .ok (keccak256 bs)
  | .array bs => if bs.length ≤ 32 then .ok (copyHash bs) else .panic "runtime error: slice bounds out of range"
  | .other goType => .err ("unsupported indexed type: " ++ goType)

def makeTopics (query : List (List Rule)) : Outcome (List (List Hash)) :=
  query.mapM fun filter => filter.mapM (makeTopic keccak256)

end

/-! ## Arguments with an ABI type -/

/-- The Go values of the types that both encoders know. -/
inductive Arg where
  | bool (b : Bool)
  | address (a : Address)
  | int8 (n : Int8)
  | int16 (n : Int16)
  | int32 (n : Int32)
  | int64 (n : Int64)
  | uint8 (n : UInt8)
  | uint16 (n : UInt16)
  | uint32 (n : UInt32)
  | uint64 (n : UInt64)
  | bigInt (n : ℤ)

namespace Arg

def rule : Arg → Rule
  | bool b => .bool b
  | address a => .address a
  | int8 n => .int8 n
  | int16 n => .int16 n
  | int32 n => .int32 n
  | int64 n => .int64 n
  | uint8 n => .uint8 n
  | uint16 n => .uint16 n
  | uint32 n => .uint32 n
  | uint64 n => .uint64 n
  | bigInt n => .bigInt (some n)

def val : Arg → Val
  | bool b => .bool b
  | address a => .ofByteArray a.1
  | int8 n => .int8 n
  | int16 n => .int16 n
  | int32 n => .int32 n
  | int64 n => .int64 n
  | uint8 n => .uint8 n
  | uint16 n => .uint16 n
  | uint32 n => .uint32 n
  | uint64 n => .uint64 n
  | bigInt n => .bigInt n

/-- The number that the topic has to be. -/
def number : Arg → ℤ
  | bool b => if b then 1 else 0
  | address a => ofBytes a.1
  | int8 n => n.toInt
  | int16 n => n.toInt
  | int32 n => n.toInt
  | int64 n => n.toInt
  | uint8 n => n.toNat
  | uint16 n => n.toNat
  | uint32 n => n.toNat
  | uint64 n => n.toNat
  | bigInt n => n

/-- The argument is a value of the ABI type, which is one with topics. -/
structure HasType (a : Arg) (t : Typ) : Prop where
  wellFormed : WellFormed t
  topicType : TopicType t
  denotes : (denote t a.val).isSome

end Arg

/-- `EncodeTopic` gives the argument this topic, the word of its number. -/
def Agrees (q : Typ × Arg) (topic : Hash) : Prop :=
  encodeTopic q.1 q.2.val = .ok topic ∧ topic.1 = Spec.intWord q.2.number

/-! ## Words byte by byte -/

def residue (n : ℤ) : ℕ := (n % 2 ^ 256).toNat

theorem residue_cast (n : ℤ) : (residue n : ℤ) = n % 2 ^ 256 := Int.toNat_of_nonneg (Int.emod_nonneg n (by norm_num))

theorem residue_div_mod {n : ℤ} {i : ℕ} (hi : i < 32) : residue n / 256 ^ i % 256 = (n / 256 ^ i % 256).toNat := by
  have hsplit : (2 : ℤ) ^ 256 = 256 ^ i * (256 * 256 ^ (31 - i)) := by
    rw [← pow_succ', ← pow_add, show i + (31 - i + 1) = 32 by omega]
    norm_num
  have hpos : (0 : ℤ) < 256 ^ i := by positivity
  have hdiv : n % 2 ^ 256 / 256 ^ i = n / 256 ^ i + 256 * 256 ^ (31 - i) * -(n / 2 ^ 256) := by
    rw [Int.emod_def, ← Int.add_mul_ediv_left _ _ hpos.ne']
    congr 1
    rw [hsplit]
    ring
  have hmod : n % 2 ^ 256 / 256 ^ i % 256 = n / 256 ^ i % 256 := by
    rw [hdiv, mul_assoc, Int.add_mul_emod_self_left]
  have hcast : ((residue n / 256 ^ i % 256 : ℕ) : ℤ) = n / 256 ^ i % 256 := by
    push_cast
    rw [residue_cast, hmod]
  omega

/-! ## Signed integers -/

section
variable {n : ℤ} {size : ℕ}

def signByte (n : ℤ) : UInt8 := if n < 0 then 255 else 0

theorem residue_div_pow (hlo : -256 ^ size ≤ n) (hhi : n < 256 ^ size) (hsize : size ≤ 32) :
    beBytes (32 - size) (residue n / 256 ^ size) = List.replicate (32 - size) (signByte n) := by
  have hpos : 0 < 256 ^ size := by positivity
  have hsplit : 2 ^ 256 = 256 ^ (32 - size) * 256 ^ size := by
    rw [← pow_add, Nat.sub_add_cancel hsize]
    norm_num
  have hle : (256 : ℤ) ^ size ≤ 2 ^ 256 := by
    calc (256 : ℤ) ^ size ≤ 256 ^ 32 := pow_le_pow_right₀ (by norm_num) hsize
      _ = 2 ^ 256 := by norm_num
  have hres := residue_cast n
  unfold signByte
  split
  next hneg =>
    have hcast : (residue n : ℤ) = n + 2 ^ 256 := by
      rw [hres, ← Int.add_emod_right, Int.emod_eq_of_lt (by omega) (by omega)]
    have hone : 1 ≤ 256 ^ (32 - size) := Nat.one_le_pow _ _ (by norm_num)
    have hsum : residue n + n.natAbs = 256 ^ (32 - size) * 256 ^ size := by
      rw [← hsplit]
      omega
    have habs : n.natAbs ≤ 256 ^ size := by
      have hle : (n.natAbs : ℤ) ≤ 256 ^ size := by omega
      exact_mod_cast hle
    have hdiv : residue n / 256 ^ size = 256 ^ (32 - size) - 1 := by
      refine Nat.div_eq_of_lt_le ?_ ?_
      · rw [Nat.sub_mul, one_mul]
        omega
      · rw [Nat.sub_add_cancel hone]
        omega
    rw [hdiv, beBytes_ones]
  next hpos' =>
    have hdiv : residue n / 256 ^ size = 0 := by
      rw [Nat.div_eq_zero_iff_lt hpos]
      zify
      rw [hres, Int.emod_eq_of_lt (by omega) (by omega)]
      exact hhi
    rw [hdiv, beBytes_zero]

theorem foldl_setByte (rule : Int64) (topic : Hash)
    (htopic : topic.1 = List.replicate 32 (signByte rule.toInt)) (k : ℕ) (hk : k ≤ 32) :
    ((List.range k).foldl (fun topic i => setByte topic (32 - i - 1) (shiftedByte rule i)) topic).1 =
      List.replicate (32 - k) (signByte rule.toInt) ++ beBytes k (residue rule.toInt) := by
  induction k with
  | zero => simpa [beBytes] using htopic
  | succ k ih =>
    have hlast : List.replicate (32 - k) (signByte rule.toInt) =
        List.replicate (32 - (k + 1)) (signByte rule.toInt) ++ [signByte rule.toInt] := by
      rw [← List.replicate_succ']
      congr 1
      omega
    have hbyte : shiftedByte rule k = UInt8.ofNat (residue rule.toInt / 256 ^ k % 256) := by
      rw [shiftedByte, residue_div_mod (by omega)]
    rw [List.range_succ, List.foldl_append, List.foldl_cons, List.foldl_nil, setByte]
    dsimp only
    rw [ih (by omega), hlast, beBytes_succ_eq_cons, hbyte, List.append_assoc,
      List.set_append_right _ _ (by rw [List.length_replicate]; omega), List.length_replicate,
      show 32 - k - 1 - (32 - (k + 1)) = 0 by omega]
    rfl

theorem genIntType_val {rule : Int64} (hlo : -256 ^ size ≤ rule.toInt) (hhi : rule.toInt < 256 ^ size)
    (hsize : size ≤ 32) : (genIntType rule size).1 = Spec.intWord rule.toInt := by
  have hfill : (if rule.toInt < 0 then fill 255 else fill 0).1 = List.replicate 32 (signByte rule.toInt) := by
    unfold signByte
    split <;> rfl
  rw [genIntType, foldl_setByte rule _ hfill size hsize, ← residue_div_pow hlo hhi hsize, ← beBytes_add_eq_append,
    Nat.sub_add_cancel hsize]
  rfl

end

/-! ## Other arguments -/

theorem bytes32_val (n : ℤ) : (bytes32 (some n)).1 = beBytes 32 n.natAbs := by
  have hpow : (2 : ℕ) ^ 256 = 256 ^ 32 := by norm_num
  have hval : (bytes32 (some n)).1 = beBytes 32 (ofBytes (toBytes n.natAbs) % 2 ^ 256) := rfl
  rw [hval, ofBytes_toBytes, hpow, beBytes_mod]

theorem bytes32_natCast (n : ℕ) : (bytes32 (some (n : ℤ))).1 = Spec.intWord n := by
  have hres : ((n : ℤ) % 2 ^ 256).toNat = n % 256 ^ 32 := by
    norm_num
    omega
  rw [bytes32_val, Int.natAbs_natCast, Spec.intWord, hres]
  exact (beBytes_mod 32 n).symm

theorem bytes32_eq_intWord_iff {n : ℤ} (hlo : -2 ^ 255 ≤ n) (hhi : n < 2 ^ 256) :
    (bytes32 (some n)).1 = Spec.intWord n ↔ 0 ≤ n ∨ n = -2 ^ 255 := by
  rw [bytes32_val]
  constructor
  · intro h
    have hnum := congrArg ofBytes h
    have hpos := Int.emod_nonneg n (show (2 : ℤ) ^ 256 ≠ 0 by norm_num)
    have hlt := Int.emod_lt_of_pos n (show (0 : ℤ) < 2 ^ 256 by norm_num)
    rw [Spec.intWord, HeadTail.word, ofBytes_beBytes_of_lt (by norm_num at *; omega),
      ofBytes_beBytes_of_lt (by norm_num at *; omega)] at hnum
    by_contra hneg
    push Not at hneg
    have hmod : n % 2 ^ 256 = n + 2 ^ 256 := by
      rw [← Int.add_emod_right, Int.emod_eq_of_lt (by omega) (by omega)]
    omega
  · rintro (h | rfl)
    · lift n to ℕ using h
      rw [← bytes32_natCast, bytes32_val]
    · rfl

theorem address_val (a : Address) : (bytesToHash a.1).1 = Spec.intWord (ofBytes a.1) := by
  have hlt : ofBytes a.1 < 256 ^ 20 := by
    have h := ofBytes_lt a.1
    rwa [a.2] at h
  have hfit : (bytesToHash a.1).1 = List.replicate 12 0 ++ a.1 := by simp [bytesToHash, fitBytes, a.2]
  have hres : ((ofBytes a.1 : ℤ) % 2 ^ 256).toNat = ofBytes a.1 := by
    rw [Int.emod_eq_of_lt (by omega) (by norm_num at *; omega)]
    exact Int.toNat_natCast _
  have hbytes : beBytes 20 (ofBytes a.1) = a.1 := by
    have h := beBytes_ofBytes a.1
    rwa [a.2] at h
  rw [hfit, Spec.intWord, hres, HeadTail.word, beBytes_add (k := 20) 12 hlt, hbytes]


/-! ## The encoders on arguments -/

def Arg.Unsigned (a : Arg) : Prop := ∀ n, a = .bigInt n → 0 ≤ n ∨ n = -2 ^ 255

variable {a : Arg} {t : Typ}

theorem Arg.number_of_integer {n : ℤ} (h : a.val.integer? = some n) : a.number = n := by
  cases a with
  | bool | address => cases h
  | _ => exact Option.some.inj h

theorem Arg.HasType.bigInt_range {n : ℤ} (h : (Arg.bigInt n).HasType t) : -2 ^ 255 ≤ n ∧ n < 2 ^ 256 := by
  obtain ⟨hwf, htopic, hdenotes⟩ := h
  obtain ⟨x, hx⟩ := Option.isSome_iff_exists.mp hdenotes
  cases t with
  | uint size =>
    obtain ⟨m, hm, hrange, -⟩ := denoteNum_eq_some.mp hx
    cases hm
    have hpow : (2 : ℤ) ^ size ≤ 2 ^ 256 := pow_le_pow_right₀ (by norm_num) hwf.2.1
    constructor <;> omega
  | int size =>
    obtain ⟨m, hm, hrange, -⟩ := denoteNum_eq_some.mp hx
    cases hm
    have hsize := hwf.2.1
    have hpow : (2 : ℤ) ^ (size - 1) ≤ 2 ^ 255 := pow_le_pow_right₀ (by norm_num) (by omega)
    constructor <;> omega
  | bool => cases hx
  | address =>
    obtain ⟨bs, hbs, -⟩ := denoteBytes_eq_some.mp hx
    cases hbs
  | _ => exact absurd htopic id

theorem genIntType_int8 (n : Int8) : (genIntType n.toInt64 1).1 = Spec.intWord n.toInt := by
  have hlo := n.le_toInt
  have hhi := n.toInt_lt
  rw [← n.toInt_toInt64] at *
  exact genIntType_val (by omega) (by omega) (by omega)

theorem genIntType_int16 (n : Int16) : (genIntType n.toInt64 2).1 = Spec.intWord n.toInt := by
  have hlo := n.le_toInt
  have hhi := n.toInt_lt
  rw [← n.toInt_toInt64] at *
  exact genIntType_val (by omega) (by omega) (by omega)

theorem genIntType_int32 (n : Int32) : (genIntType n.toInt64 4).1 = Spec.intWord n.toInt := by
  have hlo := n.le_toInt
  have hhi := n.toInt_lt
  rw [← n.toInt_toInt64] at *
  exact genIntType_val (by omega) (by omega) (by omega)

theorem genIntType_int64 (n : Int64) : (genIntType n 8).1 = Spec.intWord n.toInt := by
  have hlo := n.le_toInt
  have hhi := n.toInt_lt
  exact genIntType_val (by omega) (by omega) (by omega)

theorem makeTopic_arg (keccak256 : Bytes → Hash) (h : a.HasType t) :
    ∃ topic, makeTopic keccak256 a.rule = .ok topic ∧ (topic.1 = Spec.intWord a.number ↔ a.Unsigned) := by
  cases a with
  | bigInt n =>
    obtain ⟨hlo, hhi⟩ := h.bigInt_range
    refine ⟨_, rfl, (bytes32_eq_intWord_iff hlo hhi).trans ?_⟩
    exact ⟨fun hn m hm => Arg.bigInt.inj hm ▸ hn, fun hn => hn n rfl⟩
  | bool b =>
    refine ⟨_, rfl, iff_of_true ?_ (fun _ h => by cases h)⟩
    cases b <;> rfl
  | address a => exact ⟨_, rfl, iff_of_true (address_val a) (fun _ h => by cases h)⟩
  | int8 n => exact ⟨_, rfl, iff_of_true (genIntType_int8 n) (fun _ h => by cases h)⟩
  | int16 n => exact ⟨_, rfl, iff_of_true (genIntType_int16 n) (fun _ h => by cases h)⟩
  | int32 n => exact ⟨_, rfl, iff_of_true (genIntType_int32 n) (fun _ h => by cases h)⟩
  | int64 n => exact ⟨_, rfl, iff_of_true (genIntType_int64 n) (fun _ h => by cases h)⟩
  | uint8 n | uint16 n | uint32 n
  | uint64 n => exact ⟨_, rfl, iff_of_true (bytes32_natCast n.toNat) (fun _ h => by cases h)⟩

theorem encodeTopic_arg (h : a.HasType t) :
    ∃ topic, encodeTopic t a.val = .ok topic ∧ topic.1 = Spec.intWord a.number := by
  obtain ⟨hwf, htopic, hdenotes⟩ := h
  obtain ⟨x, hx⟩ := Option.isSome_iff_exists.mp hdenotes
  cases t with
  | uint size | int size =>
    obtain ⟨m, hm, -⟩ := denoteNum_eq_some.mp hx
    rw [Arg.number_of_integer hm]
    exact encodeTopicNum_word hm
  | bool =>
    cases a with
    | bool b =>
      cases b
      · exact ⟨_, rfl, rfl⟩
      · exact ⟨_, rfl, rfl⟩
    | _ => cases hx
  | address =>
    cases a with
    | address a =>
      refine ⟨copyHash (leftPad a.1 32), ?_, ?_⟩
      · rw [encodeTopic, encodeTopicAddress, encodeAddress, Arg.val, Val.bytes_ofByteArray]
        rfl
      · have hpad : leftPad a.1 32 = List.replicate 12 0 ++ a.1 := by rw [leftPad_eq (by rw [a.2]; omega), a.2]
        have hfit : (bytesToHash a.1).1 = List.replicate 12 0 ++ a.1 := by simp [bytesToHash, fitBytes, a.2]
        rw [copyHash_word (by rw [hpad, List.length_append, List.length_replicate, a.2]), hpad, ← hfit]
        exact address_val a
    | _ =>
      obtain ⟨bs, hbs, -⟩ := denoteBytes_eq_some.mp hx
      cases hbs
  | _ => exact absurd htopic id

theorem makeTopic_agrees_iff (keccak256 : Bytes → Hash) {q : Typ × Arg} (h : q.2.HasType q.1) :
    (∃ topic, makeTopic keccak256 q.2.rule = .ok topic ∧ Agrees q topic) ↔ q.2.Unsigned := by
  obtain ⟨made, hmade, hiff⟩ := makeTopic_arg keccak256 h
  obtain ⟨topic, htopic, hword⟩ := encodeTopic_arg h
  rw [← hiff]
  constructor
  · rintro ⟨topic', htopic', hagrees⟩
    cases hmade.symm.trans htopic'
    exact hagrees.2
  · intro hval
    obtain rfl : made = topic := Subtype.ext (hval.trans hword.symm)
    exact ⟨made, hmade, htopic, hval⟩

/-! ## Whole queries -/

theorem makeTopics_agrees_iff (keccak256 : Bytes → Hash) (query : List (List (Typ × Arg)))
    (htyped : ∀ filter ∈ query, ∀ q ∈ filter, q.2.HasType q.1) :
    (∃ topics, makeTopics keccak256 (query.map fun filter => filter.map fun q => q.2.rule) = .ok topics ∧
      List.Forall₂ (List.Forall₂ Agrees) query topics) ↔
    ∀ filter ∈ query, ∀ q ∈ filter, ∀ n, q.2 = .bigInt n → 0 ≤ n ∨ n = -2 ^ 255 := by
  rw [makeTopics, Outcome.exists_mapM_iff]
  refine forall₂_congr fun filter hfilter => ?_
  rw [Outcome.exists_mapM_iff]
  exact forall₂_congr fun q hq => makeTopic_agrees_iff keccak256 (htyped filter hfilter q hq)

theorem makeTopics_agrees_iff_sample :
    ∃ topics, makeTopics (fun _ => Hash.zero) [[.int8 (-2)], [.bool true, .bigInt (some 7)]] = .ok topics ∧
      List.Forall₂ (List.Forall₂ Agrees)
        [[(.int 8, .int8 (-2))], [(.bool, .bool true), (.uint 256, .bigInt 7)]] topics := by
  refine (makeTopics_agrees_iff (fun _ => Hash.zero)
    [[(.int 8, .int8 (-2))], [(.bool, .bool true), (.uint 256, .bigInt 7)]] ?_).mpr ?_
  · simp only [List.forall_mem_cons, List.not_mem_nil, false_implies, implies_true, and_true]
    have hint : WellFormed (.int 8) := ⟨by decide, by decide, by decide⟩
    have huint : WellFormed (.uint 256) := ⟨by decide, by decide, by decide⟩
    exact ⟨⟨hint, trivial, rfl⟩, ⟨trivial, trivial, rfl⟩, huint, trivial, rfl⟩
  · simp only [List.forall_mem_cons, List.not_mem_nil, false_implies, implies_true, and_true]
    refine ⟨fun n h => (by cases h), fun n h => (by cases h), fun n h => ?_⟩
    cases h
    exact .inl (by norm_num)

/-- The topic of a negative big integer is that of its absolute value. -/
theorem makeTopics_negative : makeTopics (fun _ => Hash.zero) [[.bigInt (some (-1))]] = .ok [[topicTrue]] ∧
      encodeTopic (.int 256) (.bigInt (-1)) = .ok (fill 255) ∧ topicTrue ≠ fill 255 := by
  decide +kernel

end Web3.Contract
