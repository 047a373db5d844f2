import Mathlib.Data.List.DropRight
import Mathlib.Tactic

/-! # Windows

A list of which only the last `n` elements are kept (`List.rtake`): what is dropped at the front does not
depend on when it is dropped. -/

namespace Web3

variable {α : Type} {xs : List α} {n m : ℕ}

theorem rtake_of_length_le (h : xs.length ≤ n) : xs.rtake n = xs := by
  rw [List.rtake, Nat.sub_eq_zero_of_le h, List.drop_zero]

theorem rtake_suffix (xs : List α) (n : ℕ) : xs.rtake n <:+ xs := List.drop_suffix _ _

theorem length_rtake_le (xs : List α) (n : ℕ) : (xs.rtake n).length ≤ n := by
  rw [List.rtake, List.length_drop]
  omega

theorem rtake_append_rtake (xs ys : List α) (n : ℕ) : (xs.rtake n ++ ys).rtake n = (xs ++ ys).rtake n := by
  rw [List.rtake_eq_reverse_take_reverse, List.rtake_eq_reverse_take_reverse, List.rtake_eq_reverse_take_reverse]
  rw [List.reverse_append, List.reverse_append, List.reverse_reverse, List.take_append, List.take_append,
    List.take_take]
  congr 3
  omega

theorem push_eq_rtake (hn : 1 ≤ n) (hlen : xs.length ≤ n) (x : α) :
    (if xs.length = n then xs.drop 1 else xs) ++ [x] = (xs ++ [x]).rtake n := by
  obtain ⟨m, rfl⟩ : ∃ m, n = m + 1 := ⟨n - 1, by omega⟩
  rw [List.rtake_concat_succ]
  congr 1
  split
  · next h => rw [List.rtake, h, Nat.add_sub_cancel_left]
  · next h => rw [rtake_of_length_le (by omega)]

theorem suffix_append_right {ys : List α} (h : xs <:+ ys) (zs : List α) : xs ++ zs <:+ ys ++ zs := by
  obtain ⟨t, rfl⟩ := h
  exact ⟨t, (List.append_assoc _ _ _).symm⟩

theorem getLast?_rtake (hn : 1 ≤ n) : (xs.rtake n).getLast? = xs.getLast? := by
  rw [List.rtake, List.getLast?_drop]
  split
  · next h =>
    rw [List.eq_nil_of_length_eq_zero (by omega : xs.length = 0)]
    rfl
  · rfl

theorem rtake_rtake (h : m ≤ n) : (xs.rtake n).rtake m = xs.rtake m := by
  rw [List.rtake, List.rtake, List.rtake, List.drop_drop, List.length_drop]
  congr 1
  omega

theorem rtake_succ {x : α} (hn : n < xs.length) (hx : xs[xs.length - 1 - n]? = some x) :
    xs.rtake (n + 1) = x :: xs.rtake n := by
  obtain ⟨hlt, rfl⟩ := List.getElem?_eq_some_iff.mp hx
  have hindex : xs.length - (n + 1) = xs.length - 1 - n := by omega
  have hsucc : xs.length - 1 - n + 1 = xs.length - n := by omega
  rw [List.rtake, List.rtake, hindex, List.drop_eq_getElem_cons hlt, hsucc]

theorem drop_take_append {a : ℕ} (ha : a ≤ n) (hn : n ≤ m) (hm : m ≤ xs.length) :
    (xs.take m).drop a = (xs.take n).drop a ++ (xs.take m).drop n := by
  have hsplit : xs.take m = xs.take n ++ (xs.take m).drop n := by
    conv_lhs => rw [← List.take_append_drop n (xs.take m)]
    rw [List.take_take, Nat.min_eq_left hn]
  conv_lhs => rw [hsplit]
  rw [List.drop_append_of_le_length]
  rw [List.length_take]
  omega

/-! ## Ordered lists -/

theorem filter_lt_append_filter_le {key : α → ℕ} (h : xs.Pairwise fun a b => key a ≤ key b) (n : ℕ) :
    (xs.filter fun x => key x < n) ++ (xs.filter fun x => n ≤ key x) = xs := by
  induction xs with
  | nil => rfl
  | cons x xs ih =>
    rw [List.pairwise_cons] at h
    by_cases hx : key x < n
    · rw [List.filter_cons_of_pos (by simpa using hx), List.filter_cons_of_neg (by simpa using hx), List.cons_append,
        ih h.2]
    · have hle := Nat.le_of_not_lt hx
      have hnone : xs.filter (fun y => key y < n) = [] := by
        refine List.filter_eq_nil_iff.mpr fun y hy => ?_
        rw [decide_eq_true_eq]
        exact Nat.not_lt.mpr (hle.trans (h.1 y hy))
      have hall : xs.filter (fun y => n ≤ key y) = xs :=
        List.filter_eq_self.mpr fun y hy => decide_eq_true (hle.trans (h.1 y hy))
      rw [List.filter_cons_of_neg (by simpa using hle), List.filter_cons_of_pos (by simpa using hle), hnone, hall,
        List.nil_append]

theorem reverse_eq_self_iff_length_le (h : xs.Nodup) : xs.reverse = xs ↔ xs.length ≤ 1 := by
  constructor
  · intro hrev
    by_contra hlen
    have hpos : 0 < xs.length := by omega
    have hget : xs[0]? = xs[xs.length - 1]? := by
      conv_lhs => rw [← hrev]
      rw [List.getElem?_reverse hpos, Nat.sub_zero]
    have hzero := (List.getElem?_inj hpos h).mp hget
    omega
  · intro hlen
    match xs, hlen with
    | [], _ => rfl
    | [x], _ => rfl

end Web3
