import Web3.Primitives
import Web3.Abi.RoundTrip

/-! # Calls

`Method` of `abi/abi.go`: signatures, selectors, the input of a call, and the search of `DecodeTxInput` for the
method that an input calls. The hash is a parameter. The methods of an ABI are a Go map, so the search goes through
them in any order: a list stands for one order. -/

namespace Web3.Abi

/-! ## Signatures -/

mutual
def raw : Typ → String
  | .bool => "bool"
  | .uint size => "uint" ++ toString size
  | .int size => "int" ++ toString size
  | .string => "string"
  | .array size elem => raw elem ++ "[" ++ toString size ++ "]"
  | .slice elem => raw elem ++ "[]"
  | .address => "address"
  | .bytes => "bytes"
  | .fixedBytes size => "bytes" ++ toString size
  | .function => "function"
  | .tuple _ elems => "(" ++ ",".intercalate (raws elems) ++ ")"

def raws : TupleElems → List String
  | .nil => []
  | .cons _ elem _ rest => raw elem :: raws rest
end

def buildSignature (name : String) (inputs : TupleElems) : String :=
  name ++ "(" ++ ",".intercalate (raws inputs) ++ ")"

def rawsWithNames : TupleElems → List String
  | .nil => []
  | .cons name elem _ rest => (raw elem ++ " " ++ name) :: rawsWithNames rest

def buildHumanSignature (name : String) (inputs : TupleElems) : String :=
  name ++ "(" ++ ", ".intercalate (rawsWithNames inputs) ++ ")"

structure Method where
  Name : String
  Inputs : TupleElems

namespace Method

variable (keccak256 : Bytes → Hash)

def sig (m : Method) : String := buildSignature m.Name m.Inputs

def detailedSig (m : Method) : String := buildHumanSignature m.Name m.Inputs

def id (m : Method) : Bytes := (keccak256 m.sig.toUTF8.data.toList).1.take 4

def inputType (m : Method) : Typ := .tuple "" m.Inputs

def encodeIDAndInput (m : Method) (args : List Val) : Outcome Bytes := do
  let data ← Encode (.slice .iface args) m.inputType
  .ok (m.id keccak256 ++ data)

theorem length_id (m : Method) : (m.id keccak256).length = 4 := by
  rw [id, List.length_take, (keccak256 _).2]
  rfl

end Method

structure TxInput where
  params : List (String × Val)
  method : String

/-- What `DecodeTxInput` returns for the method that matches, from the bytes behind the selector. -/
def decodeFor (m : Method) (data : Bytes) : Outcome TxInput := do
  let value ← Decode m.inputType data
  match value with
  | .map params => .ok { params := params, method := m.detailedSig }
  | _ => .panic "interface conversion: interface is not map[string]interface"

/-- `DecodeTxInput` with the methods in the order of the loop. -/
def decodeTxInput (keccak256 : Bytes → Hash) : List Method → Bytes → Outcome TxInput
  | [], _ => .err "no matched method"
  | m :: ms, input => do
    let selector ← sliceExpr input 0 4
    if m.id keccak256 = selector then
      let data ← sliceExpr input 4 input.length
      decodeFor m data
    else decodeTxInput keccak256 ms input

/-! ## The search -/

section

variable {keccak256 : Bytes → Hash}

theorem take_id_append (m : Method) (data : Bytes) : (m.id keccak256 ++ data).take 4 = m.id keccak256 := by
  rw [← m.length_id keccak256, List.take_left]

variable {ms : List Method} {m : Method} {input : Bytes} {args : List Val}

theorem decodeTxInput_found (hdist : (ms.map (Method.id keccak256)).Nodup) (hm : m ∈ ms)
    (data : Bytes) : decodeTxInput keccak256 ms (m.id keccak256 ++ data) = decodeFor m data := by
  have hid := m.length_id keccak256
  have hlen : 4 ≤ (m.id keccak256 ++ data).length := by
    rw [List.length_append]
    omega
  have hselector : sliceExpr (m.id keccak256 ++ data) 0 4 = .ok (m.id keccak256) := by
    rw [sliceExpr_ok (by omega) hlen, List.drop_zero, take_id_append]
  have hdata : sliceExpr (m.id keccak256 ++ data) 4 (m.id keccak256 ++ data).length = .ok data := by
    rw [sliceExpr_suffix hlen, ← hid, List.drop_left]
  induction ms with
  | nil => cases hm
  | cons m' ms ih =>
    rw [List.map_cons, List.nodup_cons] at hdist
    rw [decodeTxInput, hselector, Outcome.ok_bind]
    rcases List.mem_cons.mp hm with rfl | hmem
    · rw [if_pos rfl, hdata, Outcome.ok_bind]
    · have hne : m'.id keccak256 ≠ m.id keccak256 := fun heq => hdist.1 (heq ▸ List.mem_map_of_mem hmem)
      rw [if_neg hne]
      exact ih hdist.2 hmem

theorem decodeTxInput_none (hlen : 4 ≤ input.length) (hnone : ∀ m ∈ ms, m.id keccak256 ≠ input.take 4) :
    decodeTxInput keccak256 ms input = .err "no matched method" := by
  induction ms with
  | nil => rfl
  | cons m ms ih =>
    rw [List.forall_mem_cons] at hnone
    rw [decodeTxInput, sliceExpr_ok (by omega) hlen, Outcome.ok_bind, List.drop_zero, if_neg hnone.1, ih hnone.2]

theorem decodeTxInput_short (hlen : input.length < 4) (hms : ms ≠ []) :
    decodeTxInput keccak256 ms input = .panic "runtime error: slice bounds out of range" := by
  obtain ⟨m, ms, rfl⟩ := List.exists_cons_of_ne_nil hms
  rw [decodeTxInput, sliceExpr, if_neg (by omega), Outcome.panic_bind]

/-! ## Calls decode to their arguments -/

theorem inhabits_inputs (h : InhabitEach m.Inputs args) :
    Inhabits m.inputType (.slice .iface args) := ⟨.iface, args, rfl, h⟩

theorem decodeFor_args (hne : m.Inputs ≠ .nil) (hkeys : (m.Inputs.keys 0).Nodup)
    (hwf : AllWellFormed m.Inputs) (hargs : InhabitEach m.Inputs args) :
    ∃ data, Encode (.slice .iface args) m.inputType = .ok data ∧ (data.length < 2 ^ 63 →
      decodeFor m data = .ok { params := decodedFields m.Inputs 0 args, method := m.detailedSig }) := by
  obtain ⟨data, henc, hdec⟩ := Decode_Encode m.inputType ⟨hne, hkeys, hwf⟩ _ (inhabits_inputs hargs)
  refine ⟨data, henc, fun hlen => ?_⟩
  rw [decodeFor, hdec hlen, Outcome.ok_bind]
  rfl

/-- A call decodes to its arguments if and only if the method has an input, and an input that calls no method is
answered with an error if and only if it has a selector or there are no methods. -/
theorem decodeTxInput_iff {methods order : List Method} (hperm : order.Perm methods)
    (hdist : (methods.map (Method.id keccak256)).Nodup) :
    (∀ m ∈ methods, (m.Inputs.keys 0).Nodup → AllWellFormed m.Inputs → ∀ args, InhabitEach m.Inputs args →
      ((∃ input, m.encodeIDAndInput keccak256 args = .ok input ∧ (input.length < 2 ^ 63 →
        decodeTxInput keccak256 order input =
          .ok { params := decodedFields m.Inputs 0 args, method := m.detailedSig })) ↔ m.Inputs ≠ .nil)) ∧
    ∀ input : Bytes, (∀ m ∈ methods, m.id keccak256 ≠ input.take 4) →
      ((∃ e, decodeTxInput keccak256 order input = .err e) ↔ 4 ≤ input.length ∨ methods = []) := by
  have hdist' : (order.map (Method.id keccak256)).Nodup := (hperm.map _).nodup_iff.mpr hdist
  constructor
  · intro m hm hkeys hwf args hargs
    have hfound := decodeTxInput_found hdist' (hperm.mem_iff.mpr hm)
    constructor
    · -- a method without inputs is called by its selector alone, and `Decode` rejects an empty input
      rintro ⟨input, henc, hdec⟩ hnil
      obtain ⟨name, inputs⟩ := m
      subst hnil
      obtain rfl : args = [] := by
        cases args with
        | nil => rfl
        | cons v vs => exact absurd hargs id
      have hinput : (Method.mk name .nil).id keccak256 ++ [] = input := Outcome.ok.inj henc
      subst hinput
      have hlen := (Method.mk name .nil).length_id keccak256
      rw [hfound, List.append_nil, hlen] at hdec
      exact absurd (hdec (by norm_num)) (by simp [decodeFor, Decode])
    · intro hne
      obtain ⟨data, henc, hdec⟩ := decodeFor_args hne hkeys hwf hargs
      refine ⟨m.id keccak256 ++ data, by rw [Method.encodeIDAndInput, henc, Outcome.ok_bind], fun hlen => ?_⟩
      rw [List.length_append] at hlen
      rw [hfound, hdec (by omega)]
  · intro input hnone
    constructor
    · rintro ⟨e, herr⟩
      by_contra hnot
      rw [not_or, not_le] at hnot
      have hne : order ≠ [] := fun hnil => hnot.2 (hnil ▸ hperm).symm.eq_nil
      rw [decodeTxInput_short hnot.1 hne] at herr
      cases herr
    · rintro (hlen | hnil)
      · exact ⟨_, decodeTxInput_none hlen fun m hm => hnone m (hperm.mem_iff.mp hm)⟩
      · subst hnil
        rw [hperm.eq_nil]
        exact ⟨_, rfl⟩

end

def setMethod : Method := { Name := "set", Inputs := .cons "on" .bool false .nil }

theorem decodeTxInput_iff_set :
    ∃ input, setMethod.encodeIDAndInput (fun _ => Hash.zero) [.bool true] = .ok input ∧ (input.length < 2 ^ 63 →
      decodeTxInput (fun _ => Hash.zero) [setMethod] input =
        .ok { params := [("on", .bool true)], method := "set(bool on)" }) := by
  have hkeys : (setMethod.Inputs.keys 0).Nodup := List.nodup_singleton _
  have hwf : AllWellFormed setMethod.Inputs := by simp [setMethod, AllWellFormed, WellFormed]
  have hargs : InhabitEach setMethod.Inputs [.bool true] := ⟨⟨true, rfl⟩, trivial⟩
  have hdist : ([setMethod].map (Method.id fun _ => Hash.zero)).Nodup := List.nodup_singleton _
  exact ((decodeTxInput_iff (.refl [setMethod]) hdist).1 setMethod (List.mem_singleton_self _) hkeys hwf _
    hargs).mpr (by simp [setMethod])

def pingMethod : Method := { Name := "ping", Inputs := .nil }

/-- The call of a method without inputs is an error, and an empty input a panic. -/
theorem decodeTxInput_misses : pingMethod.encodeIDAndInput (fun _ => Hash.zero) [] = .ok [0, 0, 0, 0] ∧
      decodeTxInput (fun _ => Hash.zero) [pingMethod] [0, 0, 0, 0] = .err "empty input" ∧
      decodeTxInput (fun _ => Hash.zero) [pingMethod] [] = .panic "runtime error: slice bounds out of range" :=
  ⟨rfl, rfl, rfl⟩

end Web3.Abi
