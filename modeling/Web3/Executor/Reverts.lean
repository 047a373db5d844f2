import Web3.Abi.Decode
import Web3.Foundations.Hex

/-! # Revert reasons

`NewExecutionResult` and `DecodeRevert` of `types.go`. The data of a revert is the selector of `Error(string)`, a word
for the position of the string, a word for its length, and the string. `readLength` compares the length with the data
behind the position, of which the length word itself is a part, and `DecodeRevert` takes the string behind that word;
its failures are panics. -/

namespace Web3.Reverts
open Abi (sliceExpr)

structure ExecutionResult where
  UsedGas : UInt64
  Err : Option String
  ReturnData : Bytes
  RevertReason : Bytes
  deriving DecidableEq

def readLength (data : Bytes) : Outcome ℕ := Abi.readLength data

def decodeRevert (ret : Bytes) : Outcome (Option Bytes) :=
  if ret.length ≥ 68 ∧ hexString (ret.take 4) = "08c379a0" then do
    let data ← sliceExpr ret 36 ret.length
    let length ← (readLength data).ensure
    let reason ← sliceExpr data 32 (32 + length)
    return some reason
  else .ok none

def newExecutionResult (usedGas : UInt64) (err : Option String) (ret : Bytes) : Outcome ExecutionResult :=
  match err with
  | none => .ok { UsedGas := usedGas, Err := none, ReturnData := ret, RevertReason := [] }
  | some msg => do
    let reason ← decodeRevert ret
    return { UsedGas := usedGas, Err := some msg, ReturnData := ret
             RevertReason := reason.getD msg.toUTF8.data.toList }

/-! ## What the data says -/

def errorSelector : Bytes := [0x08, 0xc3, 0x79, 0xa0]

def lengthWord (ret : Bytes) : ℕ := ofBytes ((ret.drop 36).take 32)

theorem hexString_eq_selector {bs : Bytes} : hexString bs = "08c379a0" ↔ bs = errorSelector := by
  constructor
  · intro h
    have hdecode := decodeHex_hexString bs
    rw [h] at hdecode
    exact Except.ok.inj (hdecode.symm.trans rfl)
  · rintro rfl
    rfl

variable {ret : Bytes}

theorem readLength_suffix (h : 68 ≤ ret.length) : readLength (ret.drop 36) =
    if bitLen (lengthWord ret) > 63 then
      .err ("length larger than int64: " ++ toString (Abi.lowInt64 (lengthWord ret)))
    else if lengthWord ret > ret.length - 36 then
      .err ("length insufficient " ++ toString (ret.length - 36) ++ " require " ++ toString (lengthWord ret))
    else .ok (lengthWord ret) := by
  have hlen : (ret.drop 36).length = ret.length - 36 := List.length_drop
  rw [readLength, Abi.readLength, Abi.sliceExpr_word (by omega), Outcome.map_ok, Outcome.ok_bind, hlen]
  rfl

def ReasonFits (ret : Bytes) : Prop := lengthWord ret < 2 ^ 63 ∧ 68 + lengthWord ret ≤ ret.length

theorem decodeRevert_fits (hsel : ret.take 4 = errorSelector) (hfits : ReasonFits ret) :
    decodeRevert ret = .ok (some ((ret.drop 68).take (lengthWord ret))) := by
  obtain ⟨hint, hlen⟩ := hfits
  have hbits : ¬bitLen (lengthWord ret) > 63 := by
    have := (bitLen_le_iff (lengthWord ret) 63).mpr hint
    omega
  have hslice : sliceExpr (ret.drop 36) 32 (32 + lengthWord ret) = .ok ((ret.drop 68).take (lengthWord ret)) := by
    rw [Abi.sliceExpr_ok (by omega) (by rw [List.length_drop]; omega), List.drop_take, List.drop_drop,
      Nat.add_sub_cancel_left]
  rw [decodeRevert, if_pos ⟨by omega, hexString_eq_selector.mpr hsel⟩, Abi.sliceExpr_suffix (by omega),
    Outcome.ok_bind, readLength_suffix (by omega), if_neg hbits, if_neg (by omega), Outcome.ensure_ok, Outcome.ok_bind, hslice]
  rfl

theorem decodeRevert_overruns (hlen : 68 ≤ ret.length) (hsel : ret.take 4 = errorSelector)
    (hfits : ¬ReasonFits ret) : ¬(decodeRevert ret).Returns := by
  rw [decodeRevert, if_pos ⟨hlen, hexString_eq_selector.mpr hsel⟩, Abi.sliceExpr_suffix (by omega),
    Outcome.ok_bind, readLength_suffix hlen]
  split
  · exact id
  · next hbits =>
    have hint : lengthWord ret < 2 ^ 63 := (bitLen_le_iff _ _).mp (by omega)
    have hover : ret.length < 68 + lengthWord ret := by
      by_contra hle
      exact hfits ⟨hint, by omega⟩
    split
    · exact id
    · -- the length word was counted as a part of the string
      have hslice : sliceExpr (ret.drop 36) 32 (32 + lengthWord ret) =
          .panic "runtime error: slice bounds out of range" := by
        rw [sliceExpr, if_neg (by rw [List.length_drop]; omega)]
      rw [Outcome.ensure_ok, Outcome.ok_bind, hslice]
      exact id

theorem decodeRevert_other (h : ¬(68 ≤ ret.length ∧ ret.take 4 = errorSelector)) : decodeRevert ret = .ok none := by
  rw [decodeRevert, if_neg]
  rwa [hexString_eq_selector]

def IsRevert (ret : Bytes) : Prop := 68 ≤ ret.length ∧ ret.take 4 = errorSelector

theorem decodeRevert_returns_iff (ret : Bytes) : (decodeRevert ret).Returns ↔ (IsRevert ret → ReasonFits ret) := by
  constructor
  · intro h hrev
    by_contra hfits
    exact decodeRevert_overruns hrev.1 hrev.2 hfits h
  · intro h
    by_cases hrev : IsRevert ret
    · rw [decodeRevert_fits hrev.2 (h hrev)]
      trivial
    · rw [decodeRevert_other hrev]
      trivial

theorem decodeRevert_reason {reason : Bytes} (h : decodeRevert ret = .ok (some reason)) :
    68 + lengthWord ret ≤ ret.length ∧ reason = (ret.drop 68).take (lengthWord ret) := by
  have hrev : IsRevert ret := by
    by_contra hother
    rw [decodeRevert_other hother] at h
    cases h
  have hfits := (decodeRevert_returns_iff ret).mp (h ▸ trivial) hrev
  rw [decodeRevert_fits hrev.2 hfits] at h
  cases h
  exact ⟨hfits.2, rfl⟩

theorem newExecutionResult_returns_iff (usedGas : UInt64) (err : Option String) (ret : Bytes) :
    (newExecutionResult usedGas err ret).Returns ↔ err = none ∨ (decodeRevert ret).Returns := by
  cases err with
  | none => exact iff_of_true trivial (.inl rfl)
  | some msg =>
    rw [newExecutionResult, Outcome.returns_bind]
    constructor
    · exact fun h => .inr h.1
    · rintro (h | h)
      · cases h
      · exact ⟨h, fun _ _ => trivial⟩

/-- **Revert reasons are safe exactly when the string that the length word announces is in the data.** -/
theorem newExecutionResult_safe_iff (usedGas : UInt64) (err : Option String) (ret : Bytes) :
    ((newExecutionResult usedGas err ret).Returns ∧ ∀ reason, decodeRevert ret = .ok (some reason) →
      68 + lengthWord ret ≤ ret.length ∧ reason = (ret.drop 68).take (lengthWord ret)) ↔
    (err = none ∨ ret.length < 68 ∨ ret.take 4 ≠ errorSelector ∨
      lengthWord ret < 2 ^ 63 ∧ 68 + lengthWord ret ≤ ret.length) := by
  rw [and_iff_left (fun reason => decodeRevert_reason), newExecutionResult_returns_iff, decodeRevert_returns_iff,
    IsRevert, ReasonFits, ← Nat.not_lt]
  tauto

/-- One byte is announced and there is none. -/
theorem newExecutionResult_panics :
    newExecutionResult 0 (some "execution reverted") (errorSelector ++ beBytes 32 32 ++ beBytes 32 1) =
      .panic "runtime error: slice bounds out of range" := by
  decide +kernel

end Web3.Reverts
