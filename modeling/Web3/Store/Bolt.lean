import Web3.Foundations.SortedMap
import Web3.Store.Entries

/-! # The Bolt entry

An entry is a bucket in which a log stands as its JSON text under its index, as 8 bytes. The next index is
taken from the greatest key, so the keys have to be those from zero on without a gap (`Holds`). -/

namespace Web3.Store.Bolt

variable {E Doc : Type}

/-! ## Buckets -/

structure Bucket (Doc : Type) where
  kvs : List (Bytes × Doc)
  sorted : KeysSorted kvs

namespace Bucket

def empty : Bucket Doc := ⟨[], List.Pairwise.nil⟩

variable (b : Bucket Doc) (k : Bytes)

def get : Option Doc := b.kvs.lookup k

def put (v : Doc) : Bucket Doc := ⟨upsert k v b.kvs, b.sorted.upsert k v⟩

def delete : Bucket Doc := ⟨b.kvs.filter (·.1 ≠ k), b.sorted.filter _⟩

def last (b : Bucket Doc) : Option (Bytes × Doc) := b.kvs.getLast?

def seek : List (Bytes × Doc) := atOrAbove k b.kvs

@[simp] theorem kvs_put (b : Bucket Doc) (k : Bytes) (v : Doc) : (b.put k v).kvs = upsert k v b.kvs := rfl

@[simp] theorem kvs_delete (b : Bucket Doc) (k : Bytes) : (b.delete k).kvs = b.kvs.filter (·.1 ≠ k) := rfl

end Bucket

/-! ## The entry -/

def uint64ToBytes (u : UInt64) : Bytes := beBytes 8 u.toNat

/-- The number in the first 8 bytes; fewer bytes are a panic. -/
def bytesToUint64 (b : Bytes) : Option UInt64 := if 8 ≤ b.length then some (UInt64.ofNat (ofBytes (b.take 8))) else none

def lastIndex (b : Bucket Doc) : Option UInt64 :=
  match b.last with
  | some (last, _) => (bytesToUint64 last).map (· + 1)
  | none => some 0

section
variable (fastjson : FastJson Doc) (marshalEvent : E → Option Json) (parseLog : Log E → Option E)

def storeLoop (indx : UInt64) (b : Bucket Doc) (logs : List (Log E × ℕ)) : Bucket Doc :=
  logs.foldl (fun b (log, logIndx) =>
    b.put (uint64ToBytes (indx + UInt64.ofNat logIndx)) (log.marshalJSON marshalEvent fastjson)) b

def storeLogs (b : Bucket Doc) (logs : List (Log E)) : Option (Bucket Doc) :=
  (lastIndex b).map fun indx => storeLoop fastjson marshalEvent indx b logs.zipIdx

def removeLogs (b : Bucket Doc) (indx : UInt64) : Bucket Doc :=
  (b.seek (uint64ToBytes indx)).foldl (fun b (k, _) => b.delete k) b

def getLog (b : Bucket Doc) (indx : UInt64) (log : Log E) : Except DecodeError (Log E) :=
  match b.get (uint64ToBytes indx) with
  | some val => log.UnmarshalJSON parseLog fastjson val
  -- the parser refuses an empty text, and its error is not returned
  | none => .ok log

def step (b : Bucket Doc) : Call E → Answer E × Bucket Doc
  | .lastIndex =>
    match lastIndex b with
    | some n => (.index n, b)
    | none => (.panicked, b)
  | .storeLogs logs =>
    match storeLogs fastjson marshalEvent b logs with
    | some b => (.done, b)
    | none => (.panicked, b)
  | .removeLogs indx => (.done, removeLogs b indx)
  | .getLog indx log =>
    match getLog fastjson parseLog b indx log with
    | .ok log => (.log log, b)
    | .error e => (.failed (.decode e), b)

end

/-! ## Keys -/

variable {i : ℕ}

theorem uint64ToBytes_ofNat (hi : i < 2 ^ 64) : uint64ToBytes (UInt64.ofNat i) = beBytes 8 i := by
  rw [uint64ToBytes, toNat_index hi]

theorem compare_key {j : ℕ} (hi : i < 2 ^ 64) (hj : j < 2 ^ 64) :
    compare (uint64ToBytes (UInt64.ofNat i)) (uint64ToBytes (UInt64.ofNat j)) = compare i j := by
  rw [uint64ToBytes_ofNat hi, uint64ToBytes_ofNat hj]
  exact compare_beBytes (by simpa using hi) (by simpa using hj)

theorem bytesToUint64_key (hi : i < 2 ^ 64) :
    bytesToUint64 (uint64ToBytes (UInt64.ofNat i)) = some (UInt64.ofNat i) := by
  rw [uint64ToBytes_ofNat hi, bytesToUint64, if_pos (by simp), List.take_of_length_le (by simp)]
  rw [ofBytes_beBytes_of_lt (by simpa using hi)]

/-! ## A bucket with the logs of a list -/

section Refinement
variable (fastjson : FastJson Doc) (marshalEvent : E → Option Json) (parseLog : Log E → Option E)
  {b : Bucket Doc} {logs : List (Log E)}

def rows (start : ℕ) (logs : List (Log E)) : List (Bytes × Doc) :=
  (logs.zipIdx start).map fun (log, i) => (uint64ToBytes (UInt64.ofNat i), log.marshalJSON marshalEvent fastjson)

/-- The bucket holds the logs, from index zero on. -/
structure Holds (b : Bucket Doc) (logs : List (Log E)) : Prop where
  kvs : b.kvs = rows fastjson marshalEvent 0 logs
  length : logs.length < 2 ^ 64

theorem rows_append (start : ℕ) (logs new : List (Log E)) : rows fastjson marshalEvent start (logs ++ new) =
    rows fastjson marshalEvent start logs ++ rows fastjson marshalEvent (start + logs.length) new :=
  map_zipIdx_append ..

theorem mem_rows {start : ℕ} {kv : Bytes × Doc} (h : kv ∈ rows fastjson marshalEvent start logs) :
    ∃ i, start ≤ i ∧ i < start + logs.length ∧ kv.1 = uint64ToBytes (UInt64.ofNat i) := by
  obtain ⟨log, i, hlo, hhi, rfl⟩ := mem_map_zipIdx h
  exact ⟨i, hlo, hhi, rfl⟩

theorem rows_lt (hlen : logs.length ≤ i) (hi : i < 2 ^ 64) :
    ∀ kv ∈ rows fastjson marshalEvent 0 logs, compare kv.1 (uint64ToBytes (UInt64.ofNat i)) = .lt := by
  intro kv hkv
  obtain ⟨j, -, hj, hkey⟩ := mem_rows fastjson marshalEvent hkv
  rw [hkey, compare_key (by omega) hi, Nat.compare_eq_lt]
  omega

variable {fastjson marshalEvent}

section
variable (h : Holds fastjson marshalEvent b logs)
include h

theorem Holds.lastIndex : lastIndex b = some (UInt64.ofNat logs.length) := by
  unfold Bolt.lastIndex Bucket.last
  rw [h.kvs]
  have hlen := h.length
  rcases List.eq_nil_or_concat' logs with rfl | ⟨logs, log, rfl⟩
  · rfl
  · rw [List.length_append, List.length_singleton] at hlen ⊢
    have hlast : rows fastjson marshalEvent logs.length [log] =
        [(uint64ToBytes (UInt64.ofNat logs.length), log.marshalJSON marshalEvent fastjson)] := rfl
    rw [rows_append, Nat.zero_add, hlast, List.getLast?_append, List.getLast?_singleton, Option.some_or]
    dsimp only
    rw [bytesToUint64_key (by omega), Option.map_some, UInt64.ofNat_add]
    rfl

theorem Holds.put (log : Log E) (hlen : logs.length + 1 < 2 ^ 64) :
    Holds fastjson marshalEvent
      (b.put (uint64ToBytes (UInt64.ofNat logs.length)) (log.marshalJSON marshalEvent fastjson)) (logs ++ [log]) where
  kvs := by
    have hput := upsert_append (v := log.marshalJSON marshalEvent fastjson)
      (rows_lt fastjson marshalEvent (le_refl logs.length) (by omega)) []
    rw [List.append_nil] at hput
    rw [Bucket.kvs_put, h.kvs, hput, rows_append, Nat.zero_add]
    rfl
  length := by simpa using hlen

theorem Holds.storeLoop {n k : ℕ} (hk : n + k = logs.length)
    (new : List (Log E)) (hlen : logs.length + new.length < 2 ^ 64) :
    Holds fastjson marshalEvent (storeLoop fastjson marshalEvent (UInt64.ofNat n) b (new.zipIdx k)) (logs ++ new) := by
  induction new generalizing b logs k with
  | nil => simpa [Bolt.storeLoop] using h
  | cons log new ih =>
    rw [List.length_cons] at hlen
    have hput := h.put log (by omega)
    rw [← hk, UInt64.ofNat_add] at hput
    have hrest := ih hput (k := k + 1) (by rw [List.length_append, List.length_singleton]; omega)
      (by rw [List.length_append, List.length_singleton]; omega)
    rw [List.append_assoc, List.singleton_append] at hrest
    exact hrest

theorem Holds.storeLogs {new : List (Log E)} (hlen : logs.length + new.length < 2 ^ 64) :
    ∃ b', storeLogs fastjson marshalEvent b new = some b' ∧ Holds fastjson marshalEvent b' (logs ++ new) := by
  refine ⟨_, ?_, h.storeLoop (Nat.add_zero _) new hlen⟩
  rw [Bolt.storeLogs, h.lastIndex]
  rfl

end

theorem kvs_foldl_delete (kvs : List (Bytes × Doc)) (b : Bucket Doc) :
    (kvs.foldl (fun b (k, _) => b.delete k) b).kvs = b.kvs.filter fun kv => kv.1 ∉ kvs.map Prod.fst := by
  induction kvs generalizing b with
  | nil => simp
  | cons kv kvs ih =>
    rw [List.foldl_cons, ih, Bucket.kvs_delete, List.filter_filter]
    refine List.filter_congr fun kv' _ => ?_
    rw [← Bool.decide_and, decide_eq_decide, List.map_cons, List.mem_cons, not_or, and_comm]

variable {indx : UInt64}

variable (h : Holds fastjson marshalEvent b logs)
include h

theorem Holds.removeLogs (hindx : indx.toNat ≤ logs.length) :
    Holds fastjson marshalEvent (removeLogs b indx) (logs.take indx.toNat) := by
  have hlen : (logs.take indx.toNat).length = indx.toNat := List.length_take_of_le hindx
  have hkey : uint64ToBytes indx = uint64ToBytes (UInt64.ofNat indx.toNat) := by rw [UInt64.ofNat_toNat]
  -- the rows before the index, and those from it on
  have hsplit : b.kvs = rows fastjson marshalEvent 0 (logs.take indx.toNat) ++
      rows fastjson marshalEvent indx.toNat (logs.drop indx.toNat) := by
    have happend := rows_append fastjson marshalEvent 0 (logs.take indx.toNat) (logs.drop indx.toNat)
    rw [List.take_append_drop, hlen, Nat.zero_add] at happend
    rw [h.kvs, happend]
  have hbefore : ∀ kv ∈ rows fastjson marshalEvent 0 (logs.take indx.toNat),
      compare kv.1 (uint64ToBytes (UInt64.ofNat indx.toNat)) = .lt :=
    rows_lt fastjson marshalEvent hlen.le indx.toNat_lt
  have hbehind : ∀ kv ∈ rows fastjson marshalEvent indx.toNat (logs.drop indx.toNat),
      compare kv.1 (uint64ToBytes (UInt64.ofNat indx.toNat)) ≠ .lt := by
    intro kv hkv hlt
    obtain ⟨j, hj, hj', hk⟩ := mem_rows fastjson marshalEvent hkv
    have hlength := h.length
    rw [List.length_drop] at hj'
    rw [hk, compare_key (by omega) indx.toNat_lt, Nat.compare_eq_lt] at hlt
    omega
  have hseek : b.seek (uint64ToBytes indx) = rows fastjson marshalEvent indx.toNat (logs.drop indx.toNat) := by
    rw [Bucket.seek, hkey, hsplit, atOrAbove_append hbefore hbehind]
  constructor
  · rw [Bolt.removeLogs, hseek, kvs_foldl_delete, hsplit, List.filter_append]
    have hkept : (rows fastjson marshalEvent 0 (logs.take indx.toNat)).filter
        (fun kv => kv.1 ∉ (rows fastjson marshalEvent indx.toNat (logs.drop indx.toNat)).map Prod.fst) =
        rows fastjson marshalEvent 0 (logs.take indx.toNat) := by
      rw [List.filter_eq_self]
      intro kv hkv
      rw [decide_eq_true_iff]
      intro hmem
      obtain ⟨kv', hkv', hsame⟩ := List.mem_map.mp hmem
      exact hbehind kv' hkv' (hsame ▸ hbefore kv hkv)
    have hgone : (rows fastjson marshalEvent indx.toNat (logs.drop indx.toNat)).filter
        (fun kv => kv.1 ∉ (rows fastjson marshalEvent indx.toNat (logs.drop indx.toNat)).map Prod.fst) = [] := by
      rw [List.filter_eq_nil_iff]
      intro kv hkv
      simpa using ⟨kv.2, hkv⟩
    rw [hkept, hgone, List.append_nil]
  · rw [hlen]
    exact indx.toNat_lt

theorem Holds.get {log : Log E} (hlog : logs[indx.toNat]? = some log) :
    b.get (uint64ToBytes indx) = some (log.marshalJSON marshalEvent fastjson) := by
  rw [Bucket.get, ← b.sorted.mem_iff, h.kvs]
  refine List.mem_map.mpr ⟨(log, indx.toNat), List.mem_zipIdx_iff_getElem?.mpr hlog, ?_⟩
  dsimp only
  rw [UInt64.ofNat_toNat]

theorem Holds.step {call : Call E} (hproper : Proper logs call) :
    Holds fastjson marshalEvent (step fastjson marshalEvent parseLog b call).2 (listStep logs call).2 ∧
      (step fastjson marshalEvent parseLog b call).1.Same (listStep logs call).1 := by
  cases call with
  | lastIndex =>
    simp only [Bolt.step, h.lastIndex, listStep]
    exact ⟨h, .rfl⟩
  | storeLogs new =>
    obtain ⟨b', hb', hholds⟩ := h.storeLogs hproper
    simp only [Bolt.step, hb', listStep]
    exact ⟨hholds, .rfl⟩
  | removeLogs indx => exact ⟨h.removeLogs hproper, .rfl⟩
  | getLog indx log =>
    have hlog := List.getElem?_eq_getElem (l := logs) hproper
    obtain ⟨l', hl', hsame⟩ := Log.UnmarshalJSON_marshalJSON marshalEvent parseLog fastjson logs[indx.toNat] log
    simp only [Bolt.step, getLog, h.get hlog, hl', listStep, hlog]
    exact ⟨h, Answer.same_log.mpr hsame⟩

end Refinement

/-- **The entry is a list.** Its answers are those of a list of logs that is appended to and cut off. -/
theorem entry_answers_as_list (fastjson : FastJson Doc) (marshalEvent : E → Option Json) (parseLog : Log E → Option E)
    (calls : List (Call E)) (hproper : Transitions.Allows listStep Proper [] calls) :
    List.Forall₂ Answer.Same (Transitions.answers (step fastjson marshalEvent parseLog) Bucket.empty calls)
      (Transitions.answers listStep [] calls) := by
  have hempty : Holds fastjson marshalEvent (Bucket.empty : Bucket Doc) ([] : List (Log E)) := ⟨rfl, Nat.two_pow_pos 64⟩
  refine (Transitions.answers_related_iff (C := fun _ _ => True) (fun b logs call h hcall => ?_) hempty hproper).mpr
    (Transitions.allows_of_forall (fun _ _ => trivial) _ _)
  obtain ⟨hholds, hsame⟩ := Holds.step parseLog h hcall
  exact ⟨hholds, iff_of_true hsame trivial⟩

def sampleLog (n : UInt64) : Log Unit := { Log.zero with BlockNumber := n, Topics := [Hash.zero], Data := some [1, 2] }

def sampleCalls : List (Call Unit) :=
  [.storeLogs [sampleLog 1, sampleLog 2], .removeLogs 1, .storeLogs [sampleLog 3], .lastIndex, .getLog 1 Log.zero]

theorem entry_answers_as_list_sample : Transitions.Allows listStep Proper [] sampleCalls ∧
    Transitions.answers listStep [] sampleCalls = [.done, .done, .done, .index 2, .log (sampleLog 3)] ∧
    List.Forall₂ Answer.Same (Transitions.answers (step FastJson.ofValues (fun _ => none) fun _ => none) Bucket.empty sampleCalls)
      (Transitions.answers listStep [] sampleCalls) :=
  ⟨by decide, by decide, entry_answers_as_list FastJson.ofValues (fun _ => none) (fun _ => none) sampleCalls (by decide)⟩

end Web3.Store.Bolt
