import Web3.Foundations.Transitions
import Web3.Json.Logs

/-! # Entries of a store

A store keeps the logs of a filter in an entry (`store.Entry`). What an entry is for is said by `listStep`:
it is a list of logs that grows and is cut at its end. The entry of the in-memory store is one. -/

namespace Web3.Store

variable {E : Type}

/-- The calls on an entry. `GetLog` writes to a log of the caller. -/
inductive Call (E : Type) where
  | lastIndex
  | storeLogs (logs : List (Log E))
  | removeLogs (indx : UInt64)
  | getLog (indx : UInt64) (log : Log E)

inductive EntryError where
  | errNoRows
  | decode (e : DecodeError)
  deriving DecidableEq

inductive Answer (E : Type) where
  | done
  | index (n : UInt64)
  | log (l : Log E)
  | failed (e : EntryError)
  | panicked
  deriving DecidableEq

def Answer.bare : Answer E → Answer E
  | .log l => .log l.bare
  | a => a

def Answer.Same (a a' : Answer E) : Prop := a.bare = a'.bare

instance [DecidableEq E] (a a' : Answer E) : Decidable (a.Same a') := inferInstanceAs (Decidable (a.bare = a'.bare))

theorem Answer.Same.rfl {a : Answer E} : a.Same a := Eq.refl _

theorem Answer.same_log {l l' : Log E} : (Answer.log l).Same (.log l') ↔ l.Same l' := by
  simp [Answer.Same, Answer.bare, Log.Same]

/-! ## Lists of logs -/

variable (logs : List (Log E))

def listStep : Call E → Answer E × List (Log E)
  | .lastIndex => (.index (UInt64.ofNat logs.length), logs)
  | .storeLogs new => (.done, logs ++ new)
  | .removeLogs indx => (.done, logs.take indx.toNat)
  | .getLog indx _ =>
    match logs[indx.toNat]? with
    | some l => (.log l, logs)
    | none => (.panicked, logs)

/-- Calls with an index inside of the list. The length is to be one that `LastIndex` can return. -/
def Proper : Call E → Prop
  | .lastIndex => True
  | .storeLogs new => logs.length + new.length < 2 ^ 64
  | .removeLogs indx => indx.toNat ≤ logs.length
  | .getLog indx _ => indx.toNat < logs.length

instance (logs : List (Log E)) : DecidablePred (Proper logs)
  | .lastIndex => inferInstanceAs (Decidable True)
  | .storeLogs new => inferInstanceAs (Decidable (logs.length + new.length < 2 ^ 64))
  | .removeLogs indx => inferInstanceAs (Decidable (indx.toNat ≤ logs.length))
  | .getLog indx _ => inferInstanceAs (Decidable (indx.toNat < logs.length))

theorem toNat_index {i : ℕ} (h : i < 2 ^ 64) : (UInt64.ofNat i).toNat = i := UInt64.toNat_ofNat_of_lt' h

/-! ## Logs in rows

The other entries keep a row for each log, made from the log and its index. -/

section Rows
variable {R : Type} {row : Log E × ℕ → R} {start : ℕ} {logs : List (Log E)}

theorem map_zipIdx_append (row : Log E × ℕ → R) (start : ℕ) (logs new : List (Log E)) :
    ((logs ++ new).zipIdx start).map row =
      (logs.zipIdx start).map row ++ (new.zipIdx (start + logs.length)).map row := by
  rw [List.zipIdx_append, List.map_append]

theorem mem_map_zipIdx {r : R} (h : r ∈ (logs.zipIdx start).map row) :
    ∃ log i, start ≤ i ∧ i < start + logs.length ∧ r = row (log, i) := by
  obtain ⟨⟨log, i⟩, hmem, rfl⟩ := List.mem_map.mp h
  have hi := List.mem_zipIdx hmem
  exact ⟨log, i, hi.1, by omega, rfl⟩

end Rows

/-! ## The in-memory entry -/

namespace Inmem

def lastIndex : UInt64 := UInt64.ofNat logs.length

def storeLogs (logs new : List (Log E)) : List (Log E) := new.foldl (fun logs log => logs ++ [log]) logs

/-- The slice up to an index, which is not behind the end. -/
def removeLogs (indx : UInt64) : Option (List (Log E)) :=
  if indx.toNat ≤ logs.length then some (logs.take indx.toNat) else none

def getLog (indx : UInt64) : Option (Log E) := logs[indx.toNat]?

def step : Call E → Answer E × List (Log E)
  | .lastIndex => (.index (lastIndex logs), logs)
  | .storeLogs new => (.done, storeLogs logs new)
  | .removeLogs indx =>
    match removeLogs logs indx with
    | some logs => (.done, logs)
    | none => (.panicked, logs)
  | .getLog indx _ =>
    match getLog logs indx with
    | some l => (.log l, logs)
    | none => (.panicked, logs)

theorem storeLogs_eq (logs new : List (Log E)) : storeLogs logs new = logs ++ new := by
  unfold storeLogs
  induction new generalizing logs with
  | nil => simp
  | cons log new ih => rw [List.foldl_cons, ih, List.append_assoc, List.singleton_append]

theorem step_eq {logs : List (Log E)} {call : Call E} (h : Proper logs call) : step logs call = listStep logs call := by
  cases call with
  | lastIndex => rfl
  | storeLogs new => rw [step, storeLogs_eq, listStep]
  | removeLogs indx =>
    have hle : indx.toNat ≤ logs.length := h
    simp only [step, removeLogs, if_pos hle, listStep]
  | getLog indx log => rfl

end Inmem
end Web3.Store
