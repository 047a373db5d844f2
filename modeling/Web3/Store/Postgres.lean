import Web3.Store.Entries

/-! # The PostgreSQL entry

An entry is a table with one row for each log. The columns have no place for `Removed` and `LogIndex`, and
`GetLog` leaves these fields of its argument as they are. -/

namespace Web3.Store.Postgres

variable {E : Type}

structure LogObj where
  Index : UInt64
  TxIndex : UInt64
  TxHash : String
  BlockNum : UInt64
  BlockHash : String
  Address : String
  Topics : String
  Data : String
  deriving DecidableEq

/-! ## Queries -/

variable (table : List LogObj)

def selectLast : Option UInt64 :=
  table.foldl (fun last obj =>
    match last with
    | some indx => if indx < obj.Index then some obj.Index else some indx
    | none => some obj.Index) none

/-- `SELECT * ... WHERE indx=$1`, of which the first row is taken. -/
def select (indx : UInt64) : Option LogObj := table.find? (·.Index = indx)

def delete (indx : UInt64) : List LogObj := table.filter fun obj => ¬indx ≤ obj.Index

/-! ## The entry -/

def lastIndex : UInt64 :=
  match selectLast table with
  | some index => index + 1
  | none => 0

def logRow (Index : UInt64) (log : Log E) : LogObj where
  Index := Index
  TxIndex := log.TransactionIndex
  TxHash := log.TransactionHash.string
  BlockNum := log.BlockNumber
  BlockHash := log.BlockHash.string
  Address := log.Address.string
  Topics := ",".intercalate (log.Topics.map Hash.string)
  Data :=
    match log.Data with
    | some data => "0x" ++ hexString data
    | none => ""

def storeLogs (logs : List (Log E)) : List LogObj :=
  let lastIndex := lastIndex table
  logs.zipIdx.foldl (fun table (log, indx) => table ++ [logRow (lastIndex + UInt64.ofNat indx) log]) table

def removeLogs (indx : UInt64) : List LogObj := delete table indx

def split (s : String) : List String := (s.toList.splitOn ',').map String.ofList

def decodeTopics (topics : String) : Except DecodeError (List Hash) :=
  if topics ≠ "" then (split topics).mapM Hash.unmarshalText else .ok []

def decodeData (data : String) : Except DecodeError (Option Bytes) :=
  if data ≠ "" then do
    let cs ← strip0x data
    let buf ← (decodeHex cs).mapError .hex
    return some buf
  else .ok none

def getLog (indx : UInt64) (log : Log E) : Except EntryError (Log E) :=
  match select table indx with
  | none => .error .errNoRows
  | some obj => Except.mapError .decode do
    let TransactionHash ← Hash.unmarshalText obj.TxHash
    let BlockHash ← Hash.unmarshalText obj.BlockHash
    let Address ← Address.unmarshalText obj.Address
    let Topics ← decodeTopics obj.Topics
    let Data ← decodeData obj.Data
    return { log with
      TransactionIndex := obj.TxIndex
      TransactionHash, BlockHash, Address, Topics, Data
      BlockNumber := obj.BlockNum }

def step : Call E → Answer E × List LogObj
  | .lastIndex => (.index (lastIndex table), table)
  | .storeLogs logs => (.done, storeLogs table logs)
  | .removeLogs indx => (.done, removeLogs table indx)
  | .getLog indx log =>
    match getLog table indx log with
    | .ok log => (.log log, table)
    | .error e => (.failed e, table)

/-! ## Rows -/

theorem comma_not_mem (topic : Hash) : ',' ∉ topic.string.toList := by
  intro hmem
  have htext := hexText_hexString topic.1
  have hlist : topic.string.toList = '0' :: 'x' :: (hexString topic.1).toList := htext.toList
  rw [hlist, List.mem_cons, List.mem_cons] at hmem
  rcases hmem with h | h | h
  · cases h
  · cases h
  · exact absurd (htext.digits _ h) (by decide)

theorem split_intercalate {topics : List Hash} (hne : topics ≠ []) :
    split (",".intercalate (topics.map Hash.string)) = topics.map Hash.string := by
  have hcomma : ",".toList = [','] := rfl
  rw [split, String.toList_intercalate, hcomma, List.splitOn_intercalate]
  · simp
  · intro l hl
    simp only [List.map_map, List.mem_map, Function.comp_apply] at hl
    obtain ⟨topic, -, rfl⟩ := hl
    exact comma_not_mem topic
  · simpa using hne

theorem mapM_unmarshalText (topics : List Hash) : (topics.map Hash.string).mapM Hash.unmarshalText = .ok topics := by
  induction topics with
  | nil => rfl
  | cons topic topics ih =>
    have htopic : Hash.unmarshalText topic.string = .ok topic := unmarshalText_hash topic
    rw [List.map_cons, List.mapM_cons, ih, htopic]
    rfl

theorem decodeTopics_eq (topics : List Hash) :
    decodeTopics (",".intercalate (topics.map Hash.string)) = .ok topics := by
  cases topics with
  | nil => rfl
  | cons topic topics =>
    have hne : ",".intercalate ((topic :: topics).map Hash.string) ≠ "" := by
      intro hempty
      have hsplit := split_intercalate (List.cons_ne_nil topic topics)
      rw [hempty, List.map_cons] at hsplit
      exact (hexText_hexString topic.1).ne_empty (List.cons.inj hsplit).1.symm
    rw [decodeTopics, if_pos hne, split_intercalate (List.cons_ne_nil _ _), mapM_unmarshalText]

theorem decodeData_eq (data : Option Bytes) :
    decodeData (match data with | some data => "0x" ++ hexString data | none => "") = .ok data := by
  cases data with
  | none => rfl
  | some data =>
    have htext := hexText_hexString data
    dsimp only
    rw [decodeData, if_pos htext.ne_empty, htext.strip0x_eq]
    simp [bind, Except.bind, decodeHex_hexString, Except.mapError, pure, Except.pure]

/-! ## A table with the logs of a list -/

def rows (start : ℕ) (logs : List (Log E)) : List LogObj :=
  (logs.zipIdx start).map fun (log, i) => logRow (UInt64.ofNat i) log

structure Holds (table : List LogObj) (logs : List (Log E)) : Prop where
  table : table = rows 0 logs
  length : logs.length < 2 ^ 64

theorem rows_cons (start : ℕ) (log : Log E) (logs : List (Log E)) :
    rows start (log :: logs) = logRow (UInt64.ofNat start) log :: rows (start + 1) logs := rfl

theorem rows_append (start : ℕ) (logs new : List (Log E)) :
    rows start (logs ++ new) = rows start logs ++ rows (start + logs.length) new :=
  map_zipIdx_append ..

variable {obj : LogObj} {indx : UInt64} {l : Log E}

theorem mem_rows {start : ℕ} {logs : List (Log E)} (h : obj ∈ rows start logs) :
    ∃ i, start ≤ i ∧ i < start + logs.length ∧ obj.Index = UInt64.ofNat i := by
  obtain ⟨log, i, hlo, hhi, rfl⟩ := mem_map_zipIdx h
  exact ⟨i, hlo, hhi, rfl⟩

variable {table : List LogObj} {logs : List (Log E)}

theorem selectLast_mem (h : selectLast table = some indx) : ∃ obj ∈ table, obj.Index = indx := by
  induction table using List.reverseRecOn generalizing indx with
  | nil => cases h
  | append_singleton table obj ih =>
    rw [selectLast, List.foldl_append, ← selectLast] at h
    cases hlast : selectLast table with
    | none => exact ⟨obj, by simp, by simpa [hlast] using h⟩
    | some last =>
      simp only [hlast, List.foldl_cons, List.foldl_nil] at h
      split at h
      · exact ⟨obj, by simp, Option.some.inj h⟩
      · obtain ⟨obj', hmem, hindex⟩ := ih hlast
        exact ⟨obj', List.mem_append_left _ hmem, hindex.trans (Option.some.inj h)⟩

theorem selectLast_concat (h : ∀ obj' ∈ table, obj'.Index < obj.Index) :
    selectLast (table ++ [obj]) = some obj.Index := by
  rw [selectLast, List.foldl_append, ← selectLast]
  cases hlast : selectLast table with
  | none => rfl
  | some last =>
    obtain ⟨obj', hmem, rfl⟩ := selectLast_mem hlast
    simp only [List.foldl_cons, List.foldl_nil, if_pos (h obj' hmem)]

theorem Holds.lastIndex (h : Holds table logs) : lastIndex table = UInt64.ofNat logs.length := by
  have hlen := h.length
  rw [Postgres.lastIndex, h.table]
  rcases List.eq_nil_or_concat' logs with rfl | ⟨logs, log, rfl⟩
  · rfl
  · rw [List.length_append, List.length_singleton] at hlen
    have hlast : rows logs.length [log] = [logRow (UInt64.ofNat logs.length) log] := rfl
    have hbefore : ∀ obj ∈ rows 0 logs, obj.Index < (logRow (UInt64.ofNat logs.length) log).Index := by
      intro obj hobj
      obtain ⟨i, -, hi, hindex⟩ := mem_rows hobj
      have hrow : (logRow (UInt64.ofNat logs.length) log).Index = UInt64.ofNat logs.length := rfl
      rw [hindex, hrow, UInt64.lt_iff_toNat_lt, toNat_index (by omega), toNat_index (by omega)]
      omega
    rw [rows_append, Nat.zero_add, hlast, selectLast_concat hbefore, List.length_append, UInt64.ofNat_add]
    rfl

theorem storeLoop_eq {n k : ℕ} (new : List (Log E)) (table : List LogObj) :
    (new.zipIdx k).foldl (fun table (log, indx) => table ++ [logRow (UInt64.ofNat n + UInt64.ofNat indx) log]) table =
      table ++ rows (n + k) new := by
  induction new generalizing table k with
  | nil => simp [rows]
  | cons log new ih =>
    rw [List.zipIdx_cons, List.foldl_cons, ih, List.append_assoc, ← UInt64.ofNat_add]
    rfl

section
variable (h : Holds table logs)
include h

theorem Holds.storeLogs {new : List (Log E)} (hlen : logs.length + new.length < 2 ^ 64) :
    Holds (storeLogs table new) (logs ++ new) where
  table := by
    rw [Postgres.storeLogs, h.lastIndex]
    dsimp only
    rw [storeLoop_eq, h.table, rows_append, Nat.zero_add, Nat.add_zero]
  length := by simpa using hlen

theorem Holds.removeLogs (hindx : indx.toNat ≤ logs.length) :
    Holds (removeLogs table indx) (logs.take indx.toNat) := by
  have hlen : (logs.take indx.toNat).length = indx.toNat := List.length_take_of_le hindx
  have hsplit := rows_append 0 (logs.take indx.toNat) (logs.drop indx.toNat)
  rw [List.take_append_drop, hlen, Nat.zero_add] at hsplit
  have hlength := h.length
  constructor
  · rw [Postgres.removeLogs, delete, h.table, hsplit, List.filter_append]
    have hkept : (rows 0 (logs.take indx.toNat)).filter (fun obj => ¬indx ≤ obj.Index) =
        rows 0 (logs.take indx.toNat) := by
      rw [List.filter_eq_self]
      intro obj hobj
      obtain ⟨i, -, hi, hindex⟩ := mem_rows hobj
      rw [decide_eq_true_iff, hindex, UInt64.le_iff_toNat_le, toNat_index (by omega)]
      omega
    have hgone : (rows indx.toNat (logs.drop indx.toNat)).filter (fun obj => ¬indx ≤ obj.Index) = [] := by
      rw [List.filter_eq_nil_iff]
      intro obj hobj
      obtain ⟨i, hi, hi', hindex⟩ := mem_rows hobj
      rw [List.length_drop] at hi'
      rw [decide_eq_true_iff, not_not, hindex, UInt64.le_iff_toNat_le, toNat_index (by omega)]
      exact hi
    rw [hkept, hgone, List.append_nil]
  · rw [hlen]
    exact indx.toNat_lt

theorem Holds.select (hl : logs[indx.toNat]? = some l) : select table indx = some (logRow indx l) := by
  obtain ⟨hi, rfl⟩ := List.getElem?_eq_some_iff.mp hl
  have hlength := h.length
  -- the rows before the one with the index
  have hsplit := rows_append 0 (logs.take indx.toNat) (logs.drop indx.toNat)
  rw [List.take_append_drop, List.length_take_of_le hi.le, Nat.zero_add, List.drop_eq_getElem_cons hi, rows_cons,
    UInt64.ofNat_toNat] at hsplit
  have hbefore : ∀ obj ∈ rows 0 (logs.take indx.toNat), ¬decide (obj.Index = indx) = true := by
    intro obj hobj hindx
    obtain ⟨i, -, hlt, hindex⟩ := mem_rows hobj
    rw [List.length_take_of_le hi.le] at hlt
    rw [decide_eq_true_iff, hindex] at hindx
    have htoNat := congrArg UInt64.toNat hindx
    rw [toNat_index (by omega)] at htoNat
    omega
  rw [Postgres.select, h.table, hsplit, List.find?_append, List.find?_eq_none.mpr hbefore, Option.none_or]
  exact List.find?_cons_of_pos (by simp [logRow])

theorem Holds.getLog (hl : logs[indx.toNat]? = some l) (log : Log E) :
    getLog table indx log = .ok { l with Removed := log.Removed, LogIndex := log.LogIndex, Event := log.Event } := by
  have htx : Hash.unmarshalText (logRow indx l).TxHash = .ok l.TransactionHash := unmarshalText_hash _
  have hblock : Hash.unmarshalText (logRow indx l).BlockHash = .ok l.BlockHash := unmarshalText_hash _
  have haddr : Address.unmarshalText (logRow indx l).Address = .ok l.Address := unmarshalText_address _
  have htopics : decodeTopics (logRow indx l).Topics = .ok l.Topics := decodeTopics_eq _
  have hdata : decodeData (logRow indx l).Data = .ok l.Data := decodeData_eq _
  rw [Postgres.getLog, h.select hl]
  dsimp only
  rw [htx, hblock, haddr, htopics, hdata]
  rfl

end

/-- A call of `GetLog` is given a log that already has the `Removed` and the `LogIndex` of the one it reads. -/
def Prepared (logs : List (Log E)) : Call E → Prop
  | .getLog indx log => ∀ l ∈ logs[indx.toNat]?, log.Removed = l.Removed ∧ log.LogIndex = l.LogIndex
  | .lastIndex | .storeLogs _ | .removeLogs _ => True

instance (logs : List (Log E)) : DecidablePred (Prepared logs)
  | .getLog indx log =>
    inferInstanceAs (Decidable (∀ l ∈ logs[indx.toNat]?, log.Removed = l.Removed ∧ log.LogIndex = l.LogIndex))
  | .lastIndex | .storeLogs _ | .removeLogs _ => inferInstanceAs (Decidable True)

theorem same_iff (l log : Log E) :
    Log.Same { l with Removed := log.Removed, LogIndex := log.LogIndex, Event := log.Event } l ↔
      log.Removed = l.Removed ∧ log.LogIndex = l.LogIndex := by
  simp [Log.Same, Log.bare]

theorem step_getLog {log : Log E} (h : getLog table indx log = .ok l) :
    step table (.getLog indx log) = (.log l, table) := by
  simp only [step, h]

theorem Holds.step (h : Holds table logs) {call : Call E} (hproper : Proper logs call) :
    Holds (step table call).2 (Inmem.step logs call).2 ∧
      ((step table call).1.Same (Inmem.step logs call).1 ↔ Prepared logs call) := by
  rw [Inmem.step_eq hproper]
  cases call with
  | lastIndex =>
    rw [Postgres.step, h.lastIndex]
    exact ⟨h, iff_of_true .rfl trivial⟩
  | storeLogs new => exact ⟨h.storeLogs hproper, iff_of_true .rfl trivial⟩
  | removeLogs indx => exact ⟨h.removeLogs hproper, iff_of_true .rfl trivial⟩
  | getLog indx log =>
    have hl := List.getElem?_eq_getElem (l := logs) hproper
    simp only [step_getLog (h.getLog hl log), listStep, hl, Prepared, Option.mem_some_iff, forall_eq']
    exact ⟨h, Answer.same_log.trans (same_iff _ _)⟩

/-- **The entries agree exactly if `GetLog` need not write `Removed` and `LogIndex`.** -/
theorem answers_same_iff_prepared (calls : List (Call E)) (hproper : Transitions.Allows Inmem.step Proper [] calls) :
    List.Forall₂ Answer.Same (Transitions.answers step [] calls) (Transitions.answers Inmem.step [] calls) ↔
      Transitions.Allows Inmem.step Prepared [] calls := by
  have hempty : Holds [] ([] : List (Log E)) := ⟨rfl, Nat.two_pow_pos 64⟩
  exact Transitions.answers_related_iff (fun table logs call h hcall => h.step hcall) hempty hproper

def sampleLog (logIndex : UInt64) : Log Unit :=
  { Log.zero with LogIndex := logIndex, BlockNumber := 7, Topics := [Hash.zero, Hash.zero], Data := some [] }

theorem answers_same_iff_prepared_sample : List.Forall₂ Answer.Same
      (Transitions.answers step [] [.storeLogs [sampleLog 0, sampleLog 0], .removeLogs 1, .lastIndex, .getLog 0 Log.zero])
      (Transitions.answers Inmem.step []
        [.storeLogs [sampleLog 0, sampleLog 0], .removeLogs 1, .lastIndex, .getLog 0 Log.zero]) :=
  (answers_same_iff_prepared _ (by decide)).mpr (by decide)

/-- The second entry loses the index of the log. -/
theorem log_index_lost :
    Transitions.answers step [] [.storeLogs [sampleLog 1], .getLog 0 Log.zero] = [.done, .log (sampleLog 0)] ∧
    Transitions.answers Inmem.step [] [.storeLogs [sampleLog 1], .getLog 0 Log.zero] = [.done, .log (sampleLog 1)] ∧
    ¬(Answer.log (sampleLog 0)).Same (.log (sampleLog 1)) := by
  have hempty : Holds [] ([] : List (Log Unit)) := ⟨rfl, Nat.two_pow_pos 64⟩
  have hstored : Holds (storeLogs [] [sampleLog 1]) [sampleLog 1] := hempty.storeLogs (by decide)
  have hlog : [sampleLog 1][(0 : UInt64).toNat]? = some (sampleLog 1) := rfl
  have hget : getLog (storeLogs [] [sampleLog 1]) 0 Log.zero = .ok (sampleLog 0) := hstored.getLog hlog Log.zero
  have hfirst : step [] (.storeLogs [sampleLog 1]) = (.done, storeLogs [] [sampleLog 1]) := rfl
  refine ⟨?_, by decide, by decide⟩
  rw [Transitions.answers, Transitions.answers, Transitions.answers, hfirst, step_getLog hget]

end Web3.Store.Postgres
