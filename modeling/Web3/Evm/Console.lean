import Web3.Abi.DecodeBounds
import Web3.Abi.Calls

/-! # The console contract

`Console.Run` of `evm/contracts_console.go`, the precompiled contract behind `console.log`. It looks the selector of
the call data up in the ABI of the console, whose methods are the overloads of `log`, and prints the decoded arguments.
Call data is a byte slice without spare capacity. The line that is printed is the result of the model; the values that
`Decode` returns all have a JSON form. -/

namespace Web3.Console
open Abi

/-! ## The methods -/

def argTypes : List Typ := [.address, .string, .bool, .uint 256]

def argLists : ℕ → List (List Typ)
  | 0 => [[]]
  | n + 1 => argTypes.flatMap fun t => (argLists n).map (t :: ·)

def singleTypes : List Typ := .int 256 :: .bytes :: (List.range 32).map fun n => .fixedBytes (n + 1)

def unnamed : List Typ → TupleElems
  | [] => .nil
  | t :: ts => .cons "" t false (unnamed ts)

/-- The methods of `consoleAbi`: up to four arguments of the first types, or one of the others. -/
def consoleMethods : List Method :=
  ((List.range 5).flatMap argLists ++ singleTypes.map ([·])).map fun ts => { Name := "log", Inputs := unnamed ts }

example : consoleMethods.length = 375 := by decide +kernel

/-! ## Calls -/

inductive Line where
  | decoded (sig : String) (value : Val)
  | unparsed (input : Bytes)

def answer (m : Method) (input : Bytes) : Outcome Line := do
  let data ← sliceExpr input 4 input.length
  let value ← (Decode m.inputType data).ensure
  .ok (.decoded m.sig value)

section
variable (keccak256 : Bytes → Hash)

def search (id input : Bytes) : List Method → Outcome Line
  | [] => .ok (.unparsed input)
  | m :: ms => if m.id keccak256 = id then answer m input else search id input ms

def run (order : List Method) (input : Bytes) : Outcome Line := do
  let id ← sliceExpr input 0 4
  search keccak256 id input order

end

/-! ## Readable arguments -/

def wordAt (data : Bytes) (pos : ℕ) : ℕ := ofBytes ((data.drop pos).take 32)

def StringAt (data : Bytes) (pos : ℕ) : Prop :=
  pos + 32 ≤ data.length ∧ wordAt data pos < 2 ^ 63 ∧ pos + 32 + wordAt data pos ≤ data.length

def HeadAt (data : Bytes) (pos : ℕ) : Typ → Prop
  | .bool => data[pos + 31]? = some 0 ∨ data[pos + 31]? = some 1
  | .string => wordAt data pos < 2 ^ 63 ∧ StringAt data (wordAt data pos)
  | .bytes => wordAt data pos < 2 ^ 63 ∧ StringAt data (wordAt data pos)
  | _ => True

def Readable (data : Bytes) (pos : ℕ) : TupleElems → Prop
  | .nil => True
  | .cons _ elem _ rest => pos + 32 ≤ data.length ∧ HeadAt data pos elem ∧ Readable data (pos + 32) rest

instance (data : Bytes) (pos : ℕ) : Decidable (StringAt data pos) := inferInstanceAs (Decidable (_ ∧ _ ∧ _))

instance (data : Bytes) (pos : ℕ) (t : Typ) : Decidable (HeadAt data pos t) :=
  match t with
  | .bool => inferInstanceAs (Decidable (_ ∨ _))
  | .string | .bytes => inferInstanceAs (Decidable (_ ∧ _))
  | .address | .function | .uint _ | .int _ | .fixedBytes _ | .slice _ | .array _ _ | .tuple _ _ => isTrue trivial

instance decidableReadable (data : Bytes) : (pos : ℕ) → (es : TupleElems) → Decidable (Readable data pos es)
  | _, .nil => isTrue trivial
  | pos, .cons _ _ _ rest =>
    have := decidableReadable data (pos + 32) rest
    inferInstanceAs (Decidable (_ ∧ _ ∧ _))

def ConsoleType : Typ → Prop
  | .address => True
  | .string => True
  | .bool => True
  | .bytes => True
  | .uint size => size = 256
  | .int size => size = 256
  | .fixedBytes size => 1 ≤ size ∧ size ≤ 32
  | _ => False

def ConsoleTypes : TupleElems → Prop
  | .nil => True
  | .cons name elem _ rest => name = "" ∧ ConsoleType elem ∧ ConsoleTypes rest

/-! ## The arguments -/

variable {n : ℕ} {data : Bytes} {t : Typ} {m : Method} {ts : List Typ}

theorem entryAt_dynamic {P : Bytes → Prop} {orig : Bytes} : (∃ entry ∈ entryAt true orig data, P entry) ↔
    32 ≤ data.length ∧ firstWord data < 2 ^ 63 ∧ firstWord data ≤ orig.length ∧ P (orig.drop (firstWord data)) := by
  by_cases h : 32 ≤ data.length ∧ firstWord data < 2 ^ 63 ∧ firstWord data ≤ orig.length
  · rw [entryAt, if_pos rfl, if_pos h, and_iff_right h.1, and_iff_right h.2.1, and_iff_right h.2.2]
    simp
  · rw [entryAt, if_pos rfl, if_neg h]
    exact iff_of_false (by simp) fun hall => h ⟨hall.1, hall.2.1, hall.2.2.1⟩

theorem entryAt_string_iff (data : Bytes) (pos : ℕ) : (∃ entry ∈ entryAt true data (data.drop pos),
      firstWord entry < 2 ^ 63 ∧ 32 + firstWord entry ≤ entry.length) ↔
    pos + 32 ≤ data.length ∧ wordAt data pos < 2 ^ 63 ∧ StringAt data (wordAt data pos) := by
  have hword (k : ℕ) : firstWord (data.drop k) = wordAt data k := rfl
  rw [entryAt_dynamic, hword, hword, List.length_drop, List.length_drop, StringAt]
  omega

theorem readableAt_iff (ht : ConsoleType t) (data : Bytes) (pos : ℕ) :
    (∃ entry ∈ entryAt (isDynamicType t) data (data.drop pos), Abi.Readable t entry) ↔
      pos + 32 ≤ data.length ∧ HeadAt data pos t := by
  have hlen : 32 ≤ (data.drop pos).length ↔ pos + 32 ≤ data.length := by
    rw [List.length_drop]
    omega
  cases t with
  | string | bytes => exact entryAt_string_iff data pos
  | bool =>
    have hshort : ¬pos + 32 ≤ data.length → data[pos + 31]? = none := fun h => List.getElem?_eq_none (by omega)
    simp only [isDynamicType, entryAt, Bool.false_eq_true, if_false, Option.mem_some_iff, exists_eq_left', Abi.Readable,
      List.getElem?_drop, HeadAt]
    by_cases h : pos + 32 ≤ data.length
    · simp [h]
    · simp [h, hshort h]
  | address | uint | int => simpa [isDynamicType, entryAt, Abi.Readable, HeadAt] using hlen
  | fixedBytes size =>
    have hsize := ht.2
    simp only [isDynamicType, entryAt, Bool.false_eq_true, if_false, Option.mem_some_iff, exists_eq_left', Abi.Readable,
      HeadAt, and_true, List.length_drop]
    omega
  | _ => exact absurd ht id

theorem getTypeSize_console (ht : ConsoleType t) : getTypeSize t = 32 := by
  cases t with
  | slice | array | tuple | function => exact absurd ht id
  | _ => rfl

theorem readableFields_iff (data : Bytes) (es : TupleElems) (ht : ConsoleTypes es) (i pos : ℕ) (keys : List String)
    (hkeys : (keys ++ es.keys i).Nodup) : ReadableFields es i data (data.drop pos) keys ↔ Readable data pos es := by
  cases es with
  | nil => exact Iff.rfl
  | cons name elem indexed rest =>
    have hkey : nameToKey name i ∉ keys := fun hmem =>
      (List.nodup_append.mp hkeys).2.2 _ hmem _ (List.mem_cons_self ..) rfl
    have hrest := readableFields_iff data rest ht.2.2 (i + 1) (pos + 32) (keys ++ [nameToKey name i])
      (by simpa [TupleElems.keys] using hkeys)
    rw [ReadableFields, Readable, readableAt_iff ht.2.1, getTypeSize_console ht.2.1, List.drop_drop, hrest,
      and_iff_right hkey, and_assoc]

theorem Decode_eq_ok_iff (ht : ConsoleTypes m.Inputs) (hkeys : (m.Inputs.keys 0).Nodup) (data : Bytes) :
    (∃ v, Decode m.inputType data = .ok v) ↔ 32 ≤ data.length ∧ Readable data 0 m.Inputs := by
  have hdecode : (∃ r, decode m.inputType data = .ok r) ↔ 32 ≤ data.length ∧ Readable data 0 m.Inputs := by
    rw [decode_eq_ok, Method.inputType, Abi.Readable, ← readableFields_iff data m.Inputs ht 0 0 [] hkeys, List.drop_zero]
  rw [← hdecode, Decode]
  split
  · next h => exact iff_of_false (by simp) fun hr => by have := (hdecode.mp hr).1; omega
  · simp [Outcome.bind_eq_ok]

/-! ## The methods of the console -/

theorem keys_unnamed (ts : List Typ) (i : ℕ) : (unnamed ts).keys i = (List.range' i ts.length).map toString := by
  induction ts generalizing i with
  | nil => rfl
  | cons t ts ih =>
    rw [unnamed, TupleElems.keys, ih]
    rfl

theorem toString_injective : Function.Injective (toString : ℕ → String) := by
  intro m n h
  have hdigits := congrArg (fun s => Nat.ofDigitChars 10 s.toList 0) h
  simpa [Nat.toString_eq_ofList_toDigits, Nat.ofDigitChars_ten_toDigits] using hdigits

theorem nodup_keys_unnamed (ts : List Typ) : ((unnamed ts).keys 0).Nodup := by
  rw [keys_unnamed]
  exact (List.nodup_range' (h := by decide)).map toString_injective

theorem consoleType_of_mem_argLists (h : ts ∈ argLists n) : ∀ t ∈ ts, ConsoleType t := by
  induction n generalizing ts with
  | zero =>
    obtain rfl := List.mem_singleton.mp h
    simp
  | succ n ih =>
    obtain ⟨t, ht, hts⟩ := List.mem_flatMap.mp h
    obtain ⟨ts, hts', rfl⟩ := List.mem_map.mp hts
    rw [List.forall_mem_cons]
    refine ⟨?_, ih hts'⟩
    simp only [argTypes, List.mem_cons, List.not_mem_nil, or_false] at ht
    rcases ht with rfl | rfl | rfl | rfl
    · trivial
    · trivial
    · trivial
    · rfl

theorem consoleType_of_mem_singleTypes (h : t ∈ singleTypes) : ConsoleType t := by
  simp only [singleTypes, List.mem_cons, List.mem_map, List.mem_range] at h
  rcases h with rfl | rfl | ⟨n, hn, rfl⟩
  · rfl
  · trivial
  · exact ⟨by omega, by omega⟩

theorem consoleTypes_unnamed (h : ∀ t ∈ ts, ConsoleType t) : ConsoleTypes (unnamed ts) := by
  induction ts with
  | nil => trivial
  | cons t ts ih =>
    rw [List.forall_mem_cons] at h
    exact ⟨rfl, h.1, ih h.2⟩

theorem consoleMethods_spec (hm : m ∈ consoleMethods) : ConsoleTypes m.Inputs ∧ (m.Inputs.keys 0).Nodup := by
  obtain ⟨ts, hts, rfl⟩ := List.mem_map.mp hm
  refine ⟨consoleTypes_unnamed ?_, nodup_keys_unnamed ts⟩
  rcases List.mem_append.mp hts with hts | hts
  · obtain ⟨n, -, hts⟩ := List.mem_flatMap.mp hts
    exact consoleType_of_mem_argLists hts
  · obtain ⟨t, ht, rfl⟩ := List.mem_map.mp hts
    exact List.forall_mem_singleton.mpr (consoleType_of_mem_singleTypes ht)

theorem wellFormed_console (ht : ConsoleType t) : WellFormed t := by
  cases t with
  | uint size | int size =>
    obtain rfl : size = 256 := ht
    exact ⟨by decide, by decide, by decide⟩
  | fixedBytes size => exact ht
  | slice | array | tuple => exact absurd ht id
  | _ => trivial

theorem allWellFormed_console (es : TupleElems) (ht : ConsoleTypes es) : AllWellFormed es := by
  cases es with
  | nil => trivial
  | cons name elem indexed rest => exact ⟨wellFormed_console ht.2.1, allWellFormed_console rest ht.2.2⟩

/-! ## Runs -/

section
variable {keccak256 : Bytes → Hash} {order : List Method} {input : Bytes} {id : Bytes}

theorem search_none (h : ∀ m ∈ order, m.id keccak256 ≠ id) :
    search keccak256 id input order = .ok (.unparsed input) := by
  induction order with
  | nil => rfl
  | cons m ms ih =>
    rw [List.forall_mem_cons] at h
    rw [search, if_neg h.1, ih h.2]

theorem search_found (hm : m ∈ order) (hid : m.id keccak256 = id)
    (hone : ∀ m' ∈ order, m'.id keccak256 = id → m' = m) : search keccak256 id input order = answer m input := by
  induction order with
  | nil => cases hm
  | cons m' ms ih =>
    rw [List.forall_mem_cons] at hone
    rw [search]
    split
    · next heq => rw [hone.1 heq]
    · next hne =>
      rcases List.mem_cons.mp hm with rfl | hm
      · exact absurd hid hne
      · exact ih hm hone.2

theorem answer_returns_iff (hm : m ∈ consoleMethods) (hlen : 4 ≤ input.length) :
    (answer m input).Returns ↔ 36 ≤ input.length ∧ Readable (input.drop 4) 0 m.Inputs := by
  obtain ⟨htypes, hkeys⟩ := consoleMethods_spec hm
  rw [answer, sliceExpr_suffix hlen, Outcome.ok_bind, Outcome.returns_bind, Outcome.returns_ensure,
    Decode_eq_ok_iff htypes hkeys, and_iff_left (fun _ _ => Outcome.returns_ok _), List.length_drop]
  exact and_congr_left fun _ => by omega

theorem answer_args (hm : m ∈ consoleMethods) (hne : m.Inputs ≠ .nil) {args : List Val}
    (hargs : InhabitEach m.Inputs args) (hdata : Encode (.slice .iface args) m.inputType = .ok data)
    (hlen : data.length < 2 ^ 63) :
    answer m (m.id keccak256 ++ data) = .ok (.decoded m.sig (.map (decodedFields m.Inputs 0 args))) := by
  obtain ⟨htypes, hkeys⟩ := consoleMethods_spec hm
  have hwf : WellFormed m.inputType := ⟨hne, hkeys, allWellFormed_console _ htypes⟩
  obtain ⟨data', hdata', hdec⟩ := Decode_Encode m.inputType hwf _ (inhabits_inputs hargs)
  cases hdata.symm.trans hdata'
  have hid := m.length_id keccak256
  rw [answer, sliceExpr_suffix (by rw [List.length_append]; omega), Outcome.ok_bind, ← hid, List.drop_left, hdec hlen]
  rfl

/-- **The console returns exactly on these call data**: those with a selector and, if it is one of a method of the
console, with arguments that can be read. Then calls are decoded to their arguments. -/
theorem run_safe_iff (hperm : order.Perm consoleMethods)
    (hone : ∀ m ∈ consoleMethods, ∀ m' ∈ consoleMethods, m.id keccak256 = input.take 4 →
      m'.id keccak256 = input.take 4 → m = m') :
    ((run keccak256 order input).Returns ∧ ∀ m ∈ consoleMethods, ∀ args, InhabitEach m.Inputs args →
      ∀ data, Encode (.slice .iface args) m.inputType = .ok data → data.length < 2 ^ 63 →
        input = m.id keccak256 ++ data →
          run keccak256 order input = .ok (.decoded m.sig (.map (decodedFields m.Inputs 0 args)))) ↔
    4 ≤ input.length ∧ ∀ m ∈ consoleMethods, m.id keccak256 = input.take 4 →
      36 ≤ input.length ∧ Readable (input.drop 4) 0 m.Inputs := by
  have hselector : 4 ≤ input.length → run keccak256 order input = search keccak256 (input.take 4) input order := by
    intro hlen
    rw [run, sliceExpr_ok (by omega) hlen, List.drop_zero, Outcome.ok_bind]
  have hfound {m : Method} (hm : m ∈ consoleMethods) (hid : m.id keccak256 = input.take 4) :
      search keccak256 (input.take 4) input order = answer m input :=
    search_found (hperm.mem_iff.mpr hm) hid fun m' hm' hid' => hone m' (hperm.mem_iff.mp hm') m hm hid' hid
  constructor
  · rintro ⟨hret, -⟩
    have hlen : 4 ≤ input.length := by
      by_contra hshort
      rw [run, sliceExpr, if_neg (by omega)] at hret
      exact hret
    refine ⟨hlen, fun m hm hid => ?_⟩
    rw [hselector hlen, hfound hm hid] at hret
    exact (answer_returns_iff hm hlen).mp hret
  · rintro ⟨hlen, hread⟩
    rw [hselector hlen]
    constructor
    · by_cases hsome : ∃ m ∈ consoleMethods, m.id keccak256 = input.take 4
      · obtain ⟨m, hm, hid⟩ := hsome
        rw [hfound hm hid]
        exact (answer_returns_iff hm hlen).mpr (hread m hm hid)
      · push Not at hsome
        rw [search_none fun m hm => hsome m (hperm.mem_iff.mp hm)]
        trivial
    · rintro m hm args hargs data hdata hfits rfl
      have hid : m.id keccak256 = (m.id keccak256 ++ data).take 4 := (take_id_append m data).symm
      have hne : m.Inputs ≠ .nil := by
        -- a call without arguments is its selector
        intro hnil
        have hargs' : args = [] := by
          rw [hnil] at hargs
          cases args with
          | nil => rfl
          | cons v vs => exact absurd hargs id
        rw [hargs', Method.inputType, hnil] at hdata
        have hempty : data = [] := (Outcome.ok.inj hdata).symm
        have hlong := (hread m hm hid).1
        rw [hempty, List.append_nil, m.length_id keccak256] at hlong
        omega
      rw [hfound hm hid]
      exact answer_args hm hne hargs hdata hfits

end

def boolHash (bs : Bytes) : Hash :=
  if bs = "log(bool)".toUTF8.data.toList then ⟨List.replicate 32 255, rfl⟩ else Hash.zero

theorem run_safe_iff_bool : (run boolHash consoleMethods ([255, 255, 255, 255] ++ beBytes 32 1)).Returns := by
  have hone : (consoleMethods.filter fun m => m.id boolHash = [255, 255, 255, 255]).length = 1 := by decide +kernel
  obtain ⟨m, hm⟩ := List.length_eq_one_iff.mp hone
  have hsel : ∀ m' ∈ consoleMethods, m'.id boolHash = [255, 255, 255, 255] → m' = m := fun m' hm' hid =>
    List.mem_singleton.mp (hm ▸ List.mem_filter.mpr ⟨hm', decide_eq_true hid⟩)
  refine ((run_safe_iff (.refl consoleMethods) ?_).mpr ⟨by decide, by decide +kernel⟩).1
  exact fun m₁ h₁ m₂ h₂ hid₁ hid₂ => (hsel m₁ h₁ hid₁).trans (hsel m₂ h₂ hid₂).symm

/-- Empty call data, and the call of `log()`. -/
theorem run_panics : run (fun _ => Hash.zero) consoleMethods [] = .panic "runtime error: slice bounds out of range" ∧
      run (fun _ => Hash.zero) consoleMethods [0, 0, 0, 0] = .panic "empty input" :=
  ⟨rfl, rfl⟩

end Web3.Console
