import Mathlib.Data.List.DropRight
import Web3.Foundations.Words

/-! # Hexadecimal text

What `encoding/hex` and `strconv` of the standard library print and read, as lists of characters. -/

namespace Web3

def hexDigit (n : ℕ) : Char := if n < 10 then Char.ofNat (48 + n) else Char.ofNat (87 + n)

def hexString (bs : Bytes) : String :=
  String.ofList (bs.flatMap fun b => [hexDigit (b.toNat / 16), hexDigit (b.toNat % 16)])

def hexNumber (n : ℕ) : String := String.ofList (Nat.toDigits 16 n)

def hexValue (c : Char) : Option ℕ :=
  if '0' ≤ c ∧ c ≤ '9' then some (c.toNat - 48)
  else if 'a' ≤ c ∧ c ≤ 'f' then some (c.toNat - 87)
  else if 'A' ≤ c ∧ c ≤ 'F' then some (c.toNat - 55)
  else none

inductive HexError where
  | errLength
  | invalidByteError (c : Char)
  deriving DecidableEq

def decodeHex : List Char → Except HexError Bytes
  | [] => .ok []
  | [c] => if (hexValue c).isSome then .error .errLength else .error (.invalidByteError c)
  | p :: q :: cs =>
    match hexValue p, hexValue q with
    | none, _ => .error (.invalidByteError p)
    | some _, none => .error (.invalidByteError q)
    | some a, some b => (decodeHex cs).map (UInt8.ofNat (a * 16 + b) :: ·)

inductive NumError where
  | errSyntax | errRange
  deriving DecidableEq

/-- The loop of `strconv.ParseUint` for 64 bits in base 16, after the digits that gave `n`. -/
def parseDigits : List Char → ℕ → Except NumError ℕ
  | [], n => .ok n
  | c :: cs, n =>
    match hexValue c with
    | none => .error .errSyntax
    | some d => if n * 16 + d < 2 ^ 64 then parseDigits cs (n * 16 + d) else .error .errRange

def parseUint (cs : List Char) : Except NumError UInt64 :=
  if cs = [] then .error .errSyntax else (parseDigits cs 0).map UInt64.ofNat

def parseDecimalDigits : List Char → ℕ → Except NumError ℕ
  | [], n => .ok n
  | c :: cs, n =>
    if '0' ≤ c ∧ c ≤ '9' then
      if n * 10 + (c.toNat - 48) < 2 ^ 64 then parseDecimalDigits cs (n * 10 + (c.toNat - 48)) else .error .errRange
    else .error .errSyntax

def parseDecimal (cs : List Char) : Except NumError UInt64 :=
  if cs = [] then .error .errSyntax else (parseDecimalDigits cs 0).map UInt64.ofNat

/-! ## Reading what was printed -/

variable {n : ℕ} {c : Char}

theorem hexDigit_eq (h : n < 16) : hexDigit n = n.digitChar := by
  interval_cases n <;> rfl

theorem hexValue_digitChar (h : n < 16) : hexValue n.digitChar = some n := by
  interval_cases n <;> rfl

theorem hexValue_hexDigit (h : n < 16) : hexValue (hexDigit n) = some n := by
  rw [hexDigit_eq h, hexValue_digitChar h]

theorem decodeHex_hexString (bs : Bytes) : decodeHex (hexString bs).toList = .ok bs := by
  rw [hexString, String.toList_ofList]
  induction bs with
  | nil => rfl
  | cons b bs ih =>
    have hlt : b.toNat < 256 := b.toNat_lt
    have hbyte : b.toNat / 16 * 16 + b.toNat % 16 = b.toNat := Nat.div_add_mod' _ _
    simp only [List.flatMap_cons, List.cons_append, List.nil_append, decodeHex]
    rw [hexValue_hexDigit (by omega), hexValue_hexDigit (by omega), ih]
    dsimp only [Except.map]
    rw [hbyte, UInt8.ofNat_toNat]

theorem length_hexString (bs : Bytes) : (hexString bs).toList.length = 2 * bs.length := by
  rw [hexString, String.toList_ofList]
  induction bs with
  | nil => rfl
  | cons b bs ih =>
    simp only [List.flatMap_cons, List.length_append, List.length_cons, List.length_nil, ih]
    omega

theorem parseDigits_append (cs : List Char) (c : Char) (n : ℕ) :
    parseDigits (cs ++ [c]) n = (parseDigits cs n).bind (parseDigits [c]) := by
  induction cs generalizing n with
  | nil => rfl
  | cons d cs ih =>
    simp only [List.cons_append, parseDigits]
    cases hexValue d with
    | none => rfl
    | some d =>
      dsimp only
      split
      · exact ih _
      · rfl

theorem parseDigits_toDigits (h : n < 2 ^ 64) : parseDigits (Nat.toDigits 16 n) 0 = .ok n := by
  induction n using Nat.strong_induction_on with
  | _ n ih =>
    rw [Nat.toDigits_eq_if (by decide)]
    split
    next hlt => simpa [parseDigits, hexValue_digitChar hlt] using h
    next hge =>
      have hdigit : n % 16 < 16 := Nat.mod_lt _ (by decide)
      rw [parseDigits_append, ih (n / 16) (by omega) (by omega)]
      simpa [parseDigits, hexValue_digitChar hdigit, Except.bind, Nat.div_add_mod'] using h

theorem parseUint_hexNumber (n : UInt64) : parseUint (hexNumber n.toNat).toList = .ok n := by
  rw [hexNumber, String.toList_ofList, parseUint, if_neg Nat.toDigits_ne_nil, parseDigits_toDigits n.toNat_lt]
  simp [Except.map]

theorem isSome_hexValue_of_mem_hexString {bs : Bytes} (h : c ∈ (hexString bs).toList) : (hexValue c).isSome := by
  rw [hexString, String.toList_ofList, List.mem_flatMap] at h
  obtain ⟨b, -, hc⟩ := h
  have hlt : b.toNat < 256 := b.toNat_lt
  simp only [List.mem_cons, List.not_mem_nil, or_false] at hc
  rcases hc with rfl | rfl
  · rw [hexValue_hexDigit (by omega), Option.isSome_some]
  · rw [hexValue_hexDigit (by omega), Option.isSome_some]

theorem isSome_hexValue_of_mem_hexNumber (h : c ∈ (hexNumber n).toList) : (hexValue c).isSome := by
  rw [hexNumber, String.toList_ofList] at h
  induction n using Nat.strong_induction_on with
  | _ n ih =>
    rw [Nat.toDigits_eq_if (by decide)] at h
    split at h
    next hlt =>
      cases List.mem_singleton.mp h
      rw [hexValue_digitChar hlt, Option.isSome_some]
    next hge =>
      rcases List.mem_append.mp h with h | h
      · exact ih (n / 16) (by omega) h
      · cases List.mem_singleton.mp h
        rw [hexValue_digitChar (Nat.mod_lt _ (by decide)), Option.isSome_some]

end Web3
