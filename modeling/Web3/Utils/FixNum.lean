import Mathlib.Tactic
import Web3.Foundations.Outcome

/-! # Fixed-point numbers as text

`ToFixNum` puts a point into the digits of a number, or zeros and a point in front of them, and removes the zeros at the
end. Something always stops that: the point, or a digit. The text is a numeral of the number divided by a power of ten. -/

namespace Web3.Utils

/-- The loop of `removeZeroAtTail` below index `i`: how many characters stay. -/
def keptLen (str : List Char) : ℕ → ℕ
  | 0 => 0
  | i + 1 => if str[i]? = some '0' then keptLen str i else i + 1

def removeZeroAtTail (str : List Char) : Outcome (List Char) :=
  let str := str.take (keptLen str str.length)
  match str.getLast? with
  | none => .panic "runtime error: index out of range [-1]"
  | some c => .ok (if c = '.' then str.dropLast else str)

def toStringByPrecise (bigNum precise : ℕ) : Outcome (List Char) :=
  let destStr := Nat.toDigits 10 bigNum
  let destLen := destStr.length
  if precise ≥ destLen then removeZeroAtTail ('0' :: '.' :: (List.replicate (precise - destLen) '0' ++ destStr))
  else
    let pointIndex := destLen - precise
    removeZeroAtTail (destStr.take pointIndex ++ '.' :: destStr.drop pointIndex)

def toFixNum (n precise : ℕ) : Outcome (List Char) := toStringByPrecise n precise

/-- A numeral: digits, and digits behind a point that do not end with a zero. -/
structure FixNum where
  whole : List Char
  frac : List Char
  whole_ne : whole ≠ []
  digits : ∀ c ∈ whole ++ frac, c.isDigit
  trimmed : frac.getLast? ≠ some '0'

namespace FixNum

/-- There is no point without digits behind it. -/
def text (x : FixNum) : List Char := if x.frac = [] then x.whole else x.whole ++ '.' :: x.frac

def value (x : FixNum) : ℚ := Nat.ofDigitChars 10 x.whole 0 + Nat.ofDigitChars 10 x.frac 0 / 10 ^ x.frac.length

end FixNum

/-! ## Zeros at the end -/

variable {front whole : List Char} {c : Char}

theorem keptLen_append (hc : c ≠ '0') {k j : ℕ} (hj : j ≤ k) :
    keptLen (front ++ c :: List.replicate k '0') (front.length + 1 + j) = front.length + 1 := by
  induction j with
  | zero =>
    rw [Nat.add_zero, keptLen, List.getElem?_append_right le_rfl, Nat.sub_self, List.getElem?_cons_zero,
      if_neg fun h => hc (Option.some.inj h)]
  | succ j ih =>
    have hzero : (front ++ c :: List.replicate k '0')[front.length + 1 + j]? = some '0' := by
      rw [List.getElem?_append_right (by omega), show front.length + 1 + j - front.length = j + 1 by omega,
        List.getElem?_cons_succ, List.getElem?_replicate_of_lt (by omega)]
    rw [← Nat.add_assoc, keptLen, if_pos hzero, ih (by omega)]

theorem removeZeroAtTail_append (hc : c ≠ '0') (k : ℕ) :
    removeZeroAtTail (front ++ c :: List.replicate k '0') = .ok (if c = '.' then front else front ++ [c]) := by
  have hlen : (front ++ c :: List.replicate k '0').length = front.length + 1 + k := by
    rw [List.length_append, List.length_cons, List.length_replicate]
    omega
  have htake : (front ++ c :: List.replicate k '0').take (front.length + 1) = front ++ [c] := by
    rw [List.take_length_add_append]
    rfl
  rw [removeZeroAtTail, hlen, keptLen_append hc le_rfl, htake]
  simp only [List.getLast?_concat, List.dropLast_concat]

theorem exists_trimmed (digits : List Char) : ∃ frac k, digits = frac ++ List.replicate k '0' ∧ frac.getLast? ≠ some '0' := by
  induction digits using List.reverseRecOn with
  | nil => exact ⟨[], 0, rfl, nofun⟩
  | append_singleton digits c ih =>
    by_cases hc : c = '0'
    · obtain ⟨frac, k, rfl, hlast⟩ := ih
      exact ⟨frac, k + 1, by rw [hc, List.replicate_succ', List.append_assoc], hlast⟩
    · refine ⟨digits ++ [c], 0, (List.append_nil _).symm, ?_⟩
      rw [List.getLast?_concat]
      exact fun h => hc (Option.some.inj h)

theorem removeZeroAtTail_point {frac : List Char} (hdigits : ∀ c ∈ frac, c.isDigit)
    (hlast : frac.getLast? ≠ some '0') (k : ℕ) : removeZeroAtTail (whole ++ '.' :: (frac ++ List.replicate k '0')) =
      .ok (if frac = [] then whole else whole ++ '.' :: frac) := by
  rcases List.eq_nil_or_concat' frac with rfl | ⟨front, c, rfl⟩
  · exact removeZeroAtTail_append (by decide) k
  · have hpoint : c ≠ '.' := by
      rintro rfl
      exact absurd (hdigits '.' (List.mem_append_right _ (List.mem_singleton_self _))) (by decide)
    have htext : whole ++ '.' :: (front ++ [c] ++ List.replicate k '0') =
        (whole ++ '.' :: front) ++ c :: List.replicate k '0' := by simp
    rw [List.getLast?_concat] at hlast
    rw [htext, removeZeroAtTail_append fun h => hlast (congrArg some h), if_neg hpoint, if_neg (by simp), List.append_assoc]
    rfl

/-- Without the zeros at the end, the digits on both sides of a point are a numeral of the same number. -/
theorem removeZeroAtTail_numeral {digits : List Char} (hne : whole ≠ [])
    (hdigits : ∀ c ∈ whole ++ digits, c.isDigit) : ∃ x : FixNum, removeZeroAtTail (whole ++ '.' :: digits) = .ok x.text ∧
      x.value = Nat.ofDigitChars 10 (whole ++ digits) 0 / 10 ^ digits.length := by
  obtain ⟨frac, k, rfl, hlast⟩ := exists_trimmed digits
  have hvalue : Nat.ofDigitChars 10 (whole ++ (frac ++ List.replicate k '0')) 0 =
      10 ^ k * (10 ^ frac.length * Nat.ofDigitChars 10 whole 0 + Nat.ofDigitChars 10 frac 0) := by
    rw [Nat.ofDigitChars_append, Nat.ofDigitChars_append, Nat.ofDigitChars_replicate_zero,
      Nat.ofDigitChars_eq_ofDigitChars_zero]
  rw [← List.append_assoc, List.forall_mem_append] at hdigits
  refine ⟨⟨whole, frac, hne, hdigits.1, hlast⟩,
    removeZeroAtTail_point (fun c hc => hdigits.1 c (List.mem_append_right _ hc)) hlast k, ?_⟩
  rw [hvalue, FixNum.value, List.length_append, List.length_replicate, pow_add]
  push_cast
  field_simp

/-- **Printing is exact.** There is no panic, and the text is a numeral whose value is the number over a power of ten. -/
theorem toFixNum_exact (n precise : ℕ) : ∃ x : FixNum, toFixNum n precise = .ok x.text ∧ x.value = n / 10 ^ precise := by
  have hdest : ∀ c ∈ Nat.toDigits 10 n, c.isDigit := fun c => Nat.isDigit_of_mem_toDigits (by decide) le_rfl
  have hvalue := Nat.ofDigitChars_ten_toDigits (n := n)
  rw [toFixNum, toStringByPrecise]
  dsimp only
  split
  · next hle =>
    have hzeros : ∀ c ∈ ['0'] ++ (List.replicate (precise - (Nat.toDigits 10 n).length) '0' ++ Nat.toDigits 10 n), c.isDigit := by
      intro c hc
      rw [← List.append_assoc, ← List.replicate_one, List.replicate_append_replicate] at hc
      rcases List.mem_append.mp hc with hc | hc
      · rw [List.eq_of_mem_replicate hc]
        rfl
      · exact hdest c hc
    obtain ⟨x, htext, hx⟩ := removeZeroAtTail_numeral (by decide) hzeros
    refine ⟨x, htext, hx.trans ?_⟩
    rw [← List.append_assoc, ← List.replicate_one, List.replicate_append_replicate, Nat.ofDigitChars_append,
      Nat.ofDigitChars_replicate_zero, Nat.mul_zero, hvalue, List.length_append, List.length_replicate, Nat.sub_add_cancel hle]
  · next hlt =>
    have hsplit := List.take_append_drop ((Nat.toDigits 10 n).length - precise) (Nat.toDigits 10 n)
    have hne : (Nat.toDigits 10 n).take ((Nat.toDigits 10 n).length - precise) ≠ [] := by
      intro hnil
      rcases List.take_eq_nil_iff.mp hnil with hzero | hnone
      · omega
      · exact Nat.toDigits_ne_nil hnone
    obtain ⟨x, htext, hx⟩ := removeZeroAtTail_numeral hne (hsplit.symm ▸ hdest)
    refine ⟨x, htext, hx.trans ?_⟩
    rw [hsplit, hvalue, List.length_drop, Nat.sub_sub_self (by omega)]

end Web3.Utils
