import Web3.Abi.Calls

/-! # Event logs

`abi/topics.go`. An event log has its indexed arguments in its topics, one word each, and the others in its data,
encoded as a tuple. `ParseLog` takes the two lists of arguments apart and puts the values together again: the key of
an argument in the result counts all arguments, and its key in the decoded data only those that are not indexed. -/

namespace Web3.Abi
open HeadTail

/-! ## Topics -/

def topicTrue : Hash := ⟨List.replicate 31 0 ++ [1], rfl⟩

def topicFalse : Hash := ⟨List.replicate 32 0, rfl⟩

def copyHash (b : Bytes) : Hash :=
  ⟨(b ++ List.replicate 32 0).take 32, by rw [List.length_take, List.length_append, List.length_replicate]; omega⟩

def encodeTopicAddress (val : Val) : Outcome Hash := do
  let b ← encodeAddress val
  .ok (copyHash b)

def encodeTopicNum (val : Val) : Outcome Hash := do
  let b ← encodeNum val
  .ok (copyHash b)

def encodeTopicBool (v : Val) : Outcome Hash :=
  match v with
  | .bool true => .ok topicTrue
  | .bool false => .ok topicFalse
  | _ => .err (encodeErr v "bool")

def encodeTopic (t : Typ) (val : Val) : Outcome Hash :=
  match t with
  | .bool => encodeTopicBool val
  | .uint _ => encodeTopicNum val
  | .int _ => encodeTopicNum val
  | .address => encodeTopicAddress val
  | _ => .err "not found"

def parseTopic (t : Typ) (topic : Hash) : Outcome Val :=
  match t with
  | .bool =>
    if topic = topicTrue then .ok (.bool true)
    else if topic = topicFalse then .ok (.bool false)
    else .err "is not a boolean"
  | .int size => .ok (readInteger true size topic.1)
  | .uint size => .ok (readInteger false size topic.1)
  | .address => readAddr topic.1
  | t => .err ("Topic parsing for type " ++ raw t ++ " not supported")

def parseEach : TupleElems → List Hash → List Val → Outcome (List Val)
  | .nil, _, elems => .ok elems
  | .cons _ _ _ _, [], _ => .panic "runtime error: index out of range"
  | .cons _ elem _ rest, topic :: topics, elems => do
    let val ← parseTopic elem topic
    parseEach rest topics (elems ++ [val])

def parseTopics (args : TupleElems) (topics : List Hash) : Outcome (List Val) :=
  if args.length ≠ topics.length then .err "bad length" else parseEach args topics []

/-! ## Logs -/

def trimUnderscores (name : String) : String :=
  String.ofList ((name.toList.dropWhile (· = '_')).reverse.dropWhile (· = '_')).reverse

def toName (name : String) (index : ℕ) : String :=
  if name = "" then "arg" ++ toString index else trimUnderscores name

def TupleElems.select (flag : Bool) : TupleElems → TupleElems
  | .nil => .nil
  | .cons name elem indexed rest =>
    if indexed = flag then .cons name elem indexed (rest.select flag) else rest.select flag

def setKey (res : List (String × Val)) (key : String) (val : Val) : List (String × Val) :=
  if key ∈ res.map Prod.fst then res.map fun kv => if kv.1 = key then (key, val) else kv else res ++ [(key, val)]

/-- The last loop of `ParseLog`, from the argument with index `i` on. A key that the decoded data does not have
reads a nil interface. -/
def mergeArgs : TupleElems → ℕ → List Val → List (String × Val) → ℕ → List (String × Val) →
    Outcome (List (String × Val))
  | .nil, _, _, _, _, res => .ok res
  | .cons name _ true rest, i, indexedObjs, nonIndexedObjs, nonIndexNum, res =>
    match indexedObjs with
    | [] => .panic "runtime error: index out of range"
    | val :: indexedObjs => mergeArgs rest (i + 1) indexedObjs nonIndexedObjs nonIndexNum (setKey res (toName name i) val)
  | .cons name _ false rest, i, indexedObjs, nonIndexedObjs, nonIndexNum, res =>
    let val := (nonIndexedObjs.lookup (nameToKey name nonIndexNum)).getD .invalid
    mergeArgs rest (i + 1) indexedObjs nonIndexedObjs (nonIndexNum + 1) (setKey res (toName name i) val)

def parseData (nonIndexed : TupleElems) (data : Bytes) : Outcome (List (String × Val)) :=
  if nonIndexed.length > 0 then do
    let nonIndexedRaw ← Decode (.tuple "" nonIndexed) data
    match nonIndexedRaw with
    | .map raw => .ok raw
    | _ => .err "bad decoding"
  else .ok []

def parseLog (args : TupleElems) (topics : List Hash) (data : Bytes) : Outcome (List (String × Val)) :=
  match topics with
  | [] => .panic "runtime error: slice bounds out of range"
  | _ :: topics => do
    let indexedObjs ← parseTopics (args.select true) topics
    let nonIndexedObjs ← parseData (args.select false) data
    mergeArgs args 0 indexedObjs nonIndexedObjs 0 []

/-! ## The log of an event -/

def selectArgs (flag : Bool) : TupleElems → List Val → List Val
  | .cons _ _ indexed rest, v :: vs =>
    if indexed = flag then v :: selectArgs flag rest vs else selectArgs flag rest vs
  | _, _ => []

def encodeTopics : TupleElems → List Val → Outcome (List Hash)
  | .cons _ elem _ rest, v :: vs => do
    let topic ← encodeTopic elem v
    let topics ← encodeTopics rest vs
    .ok (topic :: topics)
  | _, _ => .ok []

def logFields : TupleElems → ℕ → List Val → List (String × Val)
  | .cons name elem _ rest, i, v :: vs => (toName name i, decoded elem v) :: logFields rest (i + 1) vs
  | _, _, _ => []

def TupleElems.logNames : TupleElems → ℕ → List String
  | .nil, _ => []
  | .cons name _ _ rest, i => toName name i :: rest.logNames (i + 1)

def TopicType : Typ → Prop
  | .bool => True
  | .address => True
  | .int _ => True
  | .uint _ => True
  | _ => False

def IndexedTopics : TupleElems → Prop
  | .nil => True
  | .cons _ elem indexed rest => (indexed = true → TopicType elem) ∧ IndexedTopics rest

/-! ## One topic -/

theorem copyHash_word {b : Bytes} (h : b.length = 32) : (copyHash b).1 = b := by
  exact List.take_left' h

variable {v : Val}

theorem encodeTopicNum_word {n : ℤ} (h : v.integer? = some n) :
    ∃ topic, encodeTopicNum v = .ok topic ∧ topic.1 = Spec.intWord n := by
  refine ⟨copyHash (toU256 n), by simp [encodeTopicNum, encodeNum, h], ?_⟩
  rw [toU256_eq_intWord]
  exact copyHash_word (length_word _)

theorem parseTopic_encodeTopic {t : Typ} (hwf : WellFormed t) (ht : TopicType t) (hv : Inhabits t v) :
    ∃ topic, encodeTopic t v = .ok topic ∧ parseTopic t topic = .ok (decoded t v) := by
  cases t with
  | bool =>
    obtain ⟨b, rfl⟩ := hv
    cases b with
    | true => exact ⟨topicTrue, rfl, rfl⟩
    | false =>
      have hne : topicFalse ≠ topicTrue := by decide
      exact ⟨topicFalse, rfl, by simp [parseTopic, hne, decoded]⟩
  | uint size =>
    obtain ⟨n, h0, hn, rfl⟩ := hv
    obtain ⟨topic, htopic, hword⟩ := encodeTopicNum_word (integer?_goUint h0 hn)
    exact ⟨topic, htopic, congrArg Outcome.ok ((congrArg _ hword).trans (readInteger_unsigned hwf.2.1 h0 hn))⟩
  | int size =>
    obtain ⟨n, hlo, hhi, rfl⟩ := hv
    obtain ⟨topic, htopic, hword⟩ := encodeTopicNum_word (integer?_goInt hlo hhi)
    exact ⟨topic, htopic, congrArg Outcome.ok ((congrArg _ hword).trans (readInteger_signed hwf.2.1 hlo hhi))⟩
  | address =>
    obtain ⟨bs, hbs, rfl⟩ := hv
    have hpad : leftPad bs 32 = List.replicate 12 0 ++ bs := by
      rw [leftPad_eq (by omega), hbs]
    have hlen : (List.replicate 12 (0 : UInt8) ++ bs).length = 32 := by
      rw [List.length_append, List.length_replicate, hbs]
    refine ⟨copyHash (List.replicate 12 0 ++ bs), ?_, ?_⟩
    · rw [encodeTopic, encodeTopicAddress, encodeAddress, Val.bytes_ofByteArray]
      exact congrArg (Outcome.ok ∘ copyHash) hpad
    · rw [parseTopic, copyHash_word hlen, readAddr, if_neg (not_not.mpr hlen)]
      rfl
  | _ => exact absurd ht id

/-! ## Taking the arguments apart -/

theorem allWellFormed_select (flag : Bool) (es : TupleElems) (h : AllWellFormed es) : AllWellFormed (es.select flag) := by
  cases es with
  | nil => trivial
  | cons name elem indexed rest =>
    rw [TupleElems.select]
    split
    · exact ⟨h.1, allWellFormed_select flag rest h.2⟩
    · exact allWellFormed_select flag rest h.2

theorem inhabitEach_select (flag : Bool) : (es : TupleElems) → {vs : List Val} → InhabitEach es vs →
    InhabitEach (es.select flag) (selectArgs flag es vs)
  | .nil, [], _ => trivial
  | .cons name elem indexed rest, v :: vs, h => by
    rw [TupleElems.select, selectArgs]
    split
    · exact ⟨h.1, inhabitEach_select flag rest h.2⟩
    · exact inhabitEach_select flag rest h.2

def topicValues : TupleElems → List Val → List Val
  | .cons _ elem true rest, v :: vs => decoded elem v :: topicValues rest vs
  | .cons _ _ false rest, _ :: vs => topicValues rest vs
  | _, _ => []

theorem parseEach_encodeTopics : (es : TupleElems) → AllWellFormed es → IndexedTopics es → {vs : List Val} →
    InhabitEach es vs → ∃ topics, encodeTopics (es.select true) (selectArgs true es vs) = .ok topics ∧
      topics.length = (es.select true).length ∧
      ∀ elems, parseEach (es.select true) topics elems = .ok (elems ++ topicValues es vs)
  | .nil, _, _, [], _ => ⟨[], rfl, rfl, fun elems => by simp [TupleElems.select, parseEach, topicValues]⟩
  | .cons name elem true rest, hwf, htop, v :: vs, h => by
    obtain ⟨topic, htopic, hparse⟩ := parseTopic_encodeTopic hwf.1 (htop.1 rfl) h.1
    obtain ⟨topics, htopics, hlen, heach⟩ := parseEach_encodeTopics rest hwf.2 htop.2 h.2
    refine ⟨topic :: topics, ?_, ?_, fun elems => ?_⟩
    · simp [TupleElems.select, selectArgs, encodeTopics, htopic, htopics]
    · simp [TupleElems.select, TupleElems.length, hlen]
    · simp [TupleElems.select, parseEach, topicValues, hparse, heach]
  | .cons name elem false rest, hwf, htop, v :: vs, h => by
    obtain ⟨topics, htopics, hlen, heach⟩ := parseEach_encodeTopics rest hwf.2 htop.2 h.2
    refine ⟨topics, ?_, ?_, fun elems => ?_⟩
    · simp [TupleElems.select, selectArgs, htopics]
    · simp [TupleElems.select, hlen]
    · simp [TupleElems.select, topicValues, heach]

theorem parseData_Encode {es : TupleElems} (hwf : AllWellFormed es) (hkeys : (es.keys 0).Nodup) {vs : List Val}
    (hvs : InhabitEach es vs) :
    ∃ data, Encode (.slice .iface vs) (.tuple "" es) = .ok data ∧
      (data.length < 2 ^ 63 → parseData es data = .ok (decodedFields es 0 vs)) := by
  cases es with
  | nil =>
    obtain rfl : vs = [] := by
      cases vs with
      | nil => rfl
      | cons v vs => exact absurd hvs id
    exact ⟨[], rfl, fun _ => by simp [parseData, TupleElems.length, decodedFields]⟩
  | cons name elem indexed rest =>
    have hne : TupleElems.cons name elem indexed rest ≠ .nil := by simp
    obtain ⟨data, henc, hdec⟩ := Decode_Encode (.tuple "" (.cons name elem indexed rest)) ⟨hne, hkeys, hwf⟩
      (.slice .iface vs) ⟨.iface, vs, rfl, hvs⟩
    refine ⟨data, henc, fun hlen => ?_⟩
    rw [parseData, if_pos (by simp [TupleElems.length]), hdec hlen]
    rfl

/-! ## Putting the values together -/

theorem setKey_fresh {res : List (String × Val)} {key : String} (h : key ∉ res.map Prod.fst) (val : Val) :
    setKey res key val = res ++ [(key, val)] := by
  rw [setKey, if_neg h]

theorem mergeArgs_eq : (es : TupleElems) → {vs : List Val} → InhabitEach es vs → (i k : ℕ) →
    {kvs : List (String × Val)} → (kvs.map Prod.fst).Nodup →
    (∀ e ∈ decodedFields (es.select false) k (selectArgs false es vs), e ∈ kvs) → (res : List (String × Val)) →
    (res.map Prod.fst ++ es.logNames i).Nodup →
    mergeArgs es i (topicValues es vs) kvs k res = .ok (res ++ logFields es i vs)
  | .nil, [], _, i, k, kvs, _, _, res, _ => by simp [mergeArgs, logFields]
  | .cons name elem indexed rest, v :: vs, h, i, k, kvs, hnodup, hsub, res, hnames => by
    rw [TupleElems.logNames] at hnames
    have hfresh : toName name i ∉ res.map Prod.fst := by
      intro hmem
      exact (List.nodup_append.mp hnames).2.2 _ hmem _ (List.mem_cons_self ..) rfl
    have hnames' : ∀ w, ((res ++ [(toName name i, w)]).map Prod.fst ++ rest.logNames (i + 1)).Nodup := by
      intro w
      simpa using hnames
    cases indexed with
    | true =>
      rw [TupleElems.select, if_neg (by decide), selectArgs, if_neg (by decide)] at hsub
      simp only [topicValues, mergeArgs, logFields, setKey_fresh hfresh]
      rw [mergeArgs_eq rest h.2 (i + 1) k hnodup hsub _ (hnames' _), List.append_assoc, List.singleton_append]
    | false =>
      rw [TupleElems.select, if_pos rfl, selectArgs, if_pos rfl, decodedFields, List.forall_mem_cons] at hsub
      have hown := (lookup_eq_some_iff_mem hnodup).mpr hsub.1
      simp only [topicValues, mergeArgs, logFields, hown, setKey_fresh hfresh, Option.getD_some]
      rw [mergeArgs_eq rest h.2 (i + 1) (k + 1) hnodup hsub.2 _ (hnames' _), List.append_assoc, List.singleton_append]

theorem map_fst_decodedFields : (es : TupleElems) → {vs : List Val} → InhabitEach es vs → (i : ℕ) →
    (decodedFields es i vs).map Prod.fst = es.keys i
  | .nil, [], _, _ => by simp [decodedFields, TupleElems.keys]
  | .cons name _ _ rest, _ :: _, h, i => by
    rw [decodedFields, TupleElems.keys, List.map_cons, map_fst_decodedFields rest h.2]

/-- The log of an event is parsed into its arguments by name. -/
theorem parseLog_inverts (args : TupleElems) (hwf : AllWellFormed args) (htopics : IndexedTopics args)
    (hnames : (args.logNames 0).Nodup) (hkeys : ((args.select false).keys 0).Nodup) (vs : List Val)
    (hvs : InhabitEach args vs) (id : Hash) :
    ∃ topics data, encodeTopics (args.select true) (selectArgs true args vs) = .ok topics ∧
      Encode (.slice .iface (selectArgs false args vs)) (.tuple "" (args.select false)) = .ok data ∧
      (data.length < 2 ^ 63 → parseLog args (id :: topics) data = .ok (logFields args 0 vs)) := by
  obtain ⟨topics, henc, hlen, heach⟩ := parseEach_encodeTopics args hwf htopics hvs
  have hrest := inhabitEach_select false args hvs
  obtain ⟨data, hdata, hparse⟩ := parseData_Encode (allWellFormed_select false args hwf) hkeys hrest
  refine ⟨topics, data, henc, hdata, fun hshort => ?_⟩
  have hnodup : ((decodedFields (args.select false) 0 (selectArgs false args vs)).map Prod.fst).Nodup := by
    rwa [map_fst_decodedFields _ hrest]
  have hmerge := mergeArgs_eq args hvs 0 0 hnodup (fun _ h => h) [] (by simpa using hnames)
  rw [parseLog, parseTopics, if_neg (by rw [hlen]; simp), heach, Outcome.ok_bind, hparse hshort, Outcome.ok_bind,
    List.nil_append, hmerge, List.nil_append]

def transferArgs : TupleElems :=
  .cons "" (.slice (.uint 16)) false (.cons "_to" .address true .nil)

theorem parseLog_inverts_transfer : ∃ topics data,
      encodeTopics (transferArgs.select true) [.ofByteArray (List.replicate 20 7)] = .ok topics ∧
      Encode (.slice .iface [.slice .uint16 [.uint16 5]]) (.tuple "" (transferArgs.select false)) = .ok data ∧
      (data.length < 2 ^ 63 → parseLog transferArgs (topicTrue :: topics) data =
        .ok [("arg0", .slice .uint16 [.uint16 5]), ("to", .ofByteArray (List.replicate 20 7))]) := by
  have hwf : AllWellFormed transferArgs := by simp [transferArgs, AllWellFormed, WellFormed]
  have htopics : IndexedTopics transferArgs := by simp [transferArgs, IndexedTopics, TopicType]
  have hin : InhabitEach transferArgs [.slice .uint16 [.uint16 5], .ofByteArray (List.replicate 20 7)] := by
    refine ⟨⟨_, _, rfl, fun w hw => ?_⟩, ⟨_, rfl, rfl⟩, trivial⟩
    obtain rfl := List.mem_singleton.mp hw
    exact ⟨5, by norm_num, by norm_num, rfl⟩
  exact parseLog_inverts transferArgs hwf htopics (by decide +kernel) (by decide +kernel) _ hin topicTrue

end Web3.Abi
