import Mathlib.Tactic

/-! # Big-endian byte strings

Numbers as byte strings, most significant byte first, as `math/big` and `encoding/binary` read and
write them: `ofBytes` is `SetBytes`, `toBytes` is `Bytes` (no leading zero byte), and `beBytes k`
is the fixed-width form with `k` bytes. -/

namespace Web3

abbrev Bytes := List UInt8

def bitLen (n : ℕ) : ℕ := if n = 0 then 0 else Nat.log2 n + 1

def ofBytes (bs : Bytes) : ℕ := bs.foldl (fun n b => n * 256 + b.toNat) 0

def beBytes : ℕ → ℕ → Bytes
  | 0, _ => []
  | k + 1, n => beBytes k (n / 256) ++ [UInt8.ofNat (n % 256)]

def toBytes (n : ℕ) : Bytes := beBytes ((bitLen n + 7) / 8) n

/-! ## Bit lengths -/

theorem lt_two_pow_bitLen (n : ℕ) : n < 2 ^ bitLen n := by
  unfold bitLen
  split
  · next h => simp [h]
  · exact Nat.lt_log2_self

theorem bitLen_le_iff (n k : ℕ) : bitLen n ≤ k ↔ n < 2 ^ k := by
  constructor
  · intro h
    exact lt_of_lt_of_le (lt_two_pow_bitLen n) (Nat.pow_le_pow_right (by omega) h)
  · intro h
    unfold bitLen
    split
    · omega
    · next hn => exact (Nat.log2_lt hn).mpr h

/-! ## Reading and writing -/

@[simp] theorem ofBytes_nil : ofBytes [] = 0 := rfl

theorem ofBytes_append_singleton (xs : Bytes) (b : UInt8) : ofBytes (xs ++ [b]) = ofBytes xs * 256 + b.toNat := by
  simp [ofBytes, List.foldl_append]

theorem ofBytes_lt (bs : Bytes) : ofBytes bs < 256 ^ bs.length := by
  induction bs using List.reverseRecOn with
  | nil => simp
  | append_singleton bs b ih =>
    have hb := b.toNat_lt
    rw [ofBytes_append_singleton, List.length_append, List.length_singleton, pow_succ]
    omega

@[simp] theorem length_beBytes (k n : ℕ) : (beBytes k n).length = k := by
  induction k generalizing n with
  | zero => rfl
  | succ k ih => simp [beBytes, ih]

theorem ofBytes_beBytes (k n : ℕ) : ofBytes (beBytes k n) = n % 256 ^ k := by
  induction k generalizing n with
  | zero => simp [beBytes, Nat.mod_one]
  | succ k ih =>
    have hb : (UInt8.ofNat (n % 256)).toNat = n % 256 := by
      simp
    rw [beBytes, ofBytes_append_singleton, ih, hb, pow_succ, mul_comm (256 ^ k) 256, Nat.mod_mul]
    ring

variable {k n : ℕ}

theorem ofBytes_beBytes_of_lt (h : n < 256 ^ k) : ofBytes (beBytes k n) = n := by
  rw [ofBytes_beBytes, Nat.mod_eq_of_lt h]

theorem beBytes_ofBytes (bs : Bytes) : beBytes bs.length (ofBytes bs) = bs := by
  induction bs using List.reverseRecOn with
  | nil => rfl
  | append_singleton bs b ih =>
    have hb : b.toNat < 256 := b.toNat_lt
    have hdiv : (ofBytes bs * 256 + b.toNat) / 256 = ofBytes bs := by omega
    have hmod : (ofBytes bs * 256 + b.toNat) % 256 = b.toNat := by omega
    rw [List.length_append, List.length_singleton, beBytes, ofBytes_append_singleton, hdiv, hmod, ih, UInt8.ofNat_toNat]

theorem beBytes_mod (k n : ℕ) : beBytes k (n % 256 ^ k) = beBytes k n := by
  induction k generalizing n with
  | zero => rfl
  | succ k ih =>
    have hdiv : n % 256 ^ (k + 1) / 256 = n / 256 % 256 ^ k := by
      rw [pow_succ, mul_comm, Nat.mod_mul_right_div_self]
    have hmod : n % 256 ^ (k + 1) % 256 = n % 256 :=
      Nat.mod_mod_of_dvd n (Dvd.intro_left (256 ^ k) rfl)
    rw [beBytes, beBytes, hdiv, hmod, ih]

theorem beBytes_zero (k : ℕ) : beBytes k 0 = List.replicate k 0 := by
  induction k with
  | zero => rfl
  | succ k ih =>
    rw [beBytes, Nat.zero_div, ih, List.replicate_succ']
    rfl

theorem beBytes_add (j : ℕ) (h : n < 256 ^ k) : beBytes (j + k) n = List.replicate j 0 ++ beBytes k n := by
  induction k generalizing n with
  | zero =>
    have hn : n = 0 := by simpa using h
    subst hn
    simp [beBytes_zero, beBytes]
  | succ k ih =>
    have hdiv : n / 256 < 256 ^ k := by
      rw [pow_succ] at h
      omega
    rw [← Nat.add_assoc, beBytes, ih hdiv, beBytes, List.append_assoc]

theorem drop_beBytes (j k n : ℕ) : (beBytes (j + k) n).drop j = beBytes k n := by
  induction k generalizing n with
  | zero => simp [beBytes]
  | succ k ih =>
    rw [← Nat.add_assoc, beBytes, List.drop_append_of_le_length (by simp), ih, beBytes]

theorem beBytes_add_eq_append (j k n : ℕ) : beBytes (j + k) n = beBytes j (n / 256 ^ k) ++ beBytes k n := by
  induction k generalizing n with
  | zero => simp [beBytes]
  | succ k ih =>
    rw [← Nat.add_assoc, beBytes, ih, beBytes, List.append_assoc, Nat.div_div_eq_div_mul, pow_succ']

theorem beBytes_succ_eq_cons (k n : ℕ) : beBytes (k + 1) n = UInt8.ofNat (n / 256 ^ k % 256) :: beBytes k n := by
  rw [Nat.add_comm, beBytes_add_eq_append]
  rfl

theorem beBytes_ones (j : ℕ) : beBytes j (256 ^ j - 1) = List.replicate j 255 := by
  induction j with
  | zero => rfl
  | succ j ih =>
    have hpos : 0 < 256 ^ j := by positivity
    have hdiv : (256 ^ (j + 1) - 1) / 256 = 256 ^ j - 1 := by
      rw [pow_succ]
      omega
    have hmod : (256 ^ (j + 1) - 1) % 256 = 255 := by
      rw [pow_succ]
      omega
    rw [beBytes, hdiv, hmod, ih, List.replicate_succ']
    rfl

theorem lt_pow_of_bytes (n : ℕ) : n < 256 ^ ((bitLen n + 7) / 8) := by
  have h256 : (256 : ℕ) = 2 ^ 8 := by norm_num
  rw [h256, ← pow_mul, ← bitLen_le_iff]
  omega

theorem ofBytes_toBytes (n : ℕ) : ofBytes (toBytes n) = n := ofBytes_beBytes_of_lt (lt_pow_of_bytes n)

theorem length_toBytes_le (h : n < 2 ^ (8 * k)) : (toBytes n).length ≤ k := by
  rw [toBytes, length_beBytes]
  have := (bitLen_le_iff n (8 * k)).mpr h
  omega

theorem replicate_append_toBytes (h : n < 2 ^ (8 * k)) :
    List.replicate (k - (toBytes n).length) 0 ++ toBytes n = beBytes k n := by
  have hle := length_toBytes_le h
  rw [toBytes, length_beBytes] at *
  rw [← beBytes_add _ (lt_pow_of_bytes n)]
  congr 1
  omega

/-! ## Order -/

theorem ofBytes_cons (b : UInt8) (bs : Bytes) : ofBytes (b :: bs) = b.toNat * 256 ^ bs.length + ofBytes bs := by
  induction bs using List.reverseRecOn with
  | nil => simp [ofBytes]
  | append_singleton bs c ih =>
    rw [← List.cons_append, ofBytes_append_singleton, ofBytes_append_singleton, ih, List.length_append]
    simp only [List.length_cons, List.length_nil]
    ring

theorem compare_eq_compare_ofBytes {xs ys : Bytes} (h : xs.length = ys.length) :
    compare xs ys = compare (ofBytes xs) (ofBytes ys) := by
  induction xs generalizing ys with
  | nil =>
    cases List.length_eq_zero_iff.mp h.symm
    rfl
  | cons x xs ih =>
    obtain ⟨y, ys, rfl⟩ := List.exists_cons_of_length_eq_add_one h.symm
    have hlen : xs.length = ys.length := Nat.succ.inj h
    have hx := ofBytes_lt xs
    have hy := ofBytes_lt ys
    have hcons : compare (x :: xs) (y :: ys) = (compare x y).then (compare xs ys) := List.compareLex_cons_cons
    rw [hcons, ih hlen, UInt8.compare_eq_toNat_compare_toNat, ofBytes_cons, ofBytes_cons, hlen]
    rw [hlen] at hx
    generalize 256 ^ ys.length = p at hx hy
    rcases lt_trichotomy x.toNat y.toNat with hlt | heq | hgt
    · have hmul : (x.toNat + 1) * p ≤ y.toNat * p := Nat.mul_le_mul_right _ hlt
      have hsum : x.toNat * p + ofBytes xs < y.toNat * p + ofBytes ys := by linarith
      rw [Nat.compare_eq_lt.mpr hlt, Nat.compare_eq_lt.mpr hsum, Ordering.lt_then]
    · rw [heq, Nat.compare_eq_eq.mpr rfl, Ordering.eq_then, Nat.compare_eq_ite_lt, Nat.compare_eq_ite_lt]
      simp only [Nat.add_lt_add_iff_left]
    · have hmul : (y.toNat + 1) * p ≤ x.toNat * p := Nat.mul_le_mul_right _ hgt
      have hsum : y.toNat * p + ofBytes ys < x.toNat * p + ofBytes xs := by linarith
      rw [Nat.compare_eq_gt.mpr hgt, Nat.compare_eq_gt.mpr hsum, Ordering.gt_then]

theorem compare_beBytes {a b : ℕ} (ha : a < 256 ^ k) (hb : b < 256 ^ k) :
    compare (beBytes k a) (beBytes k b) = compare a b := by
  rw [compare_eq_compare_ofBytes (by simp), ofBytes_beBytes_of_lt ha, ofBytes_beBytes_of_lt hb]

end Web3
