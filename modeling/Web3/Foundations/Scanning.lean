import Mathlib.Tactic

/-! # Scanning text into tokens

A scanner takes one token at a time from the front of a text. `scan` is the list of all tokens. Where a token
never reaches across a boundary, the tokens of a text are those before the boundary and those behind it. -/

namespace Web3

/-- The next token and the text behind it; `none` if no token is left. -/
structure Scanner (C T : Type) where
  next : List C → Option (T × List C)
  progress : ∀ {text : List C} {t : T} {rest : List C}, next text = some (t, rest) → rest.length < text.length

namespace Scanner
variable {C T : Type} (s : Scanner C T)

def scanUpTo : ℕ → List C → List T
  | 0, _ => []
  | n + 1, text =>
    match s.next text with
    | none => []
    | some (t, rest) => t :: scanUpTo n rest

def scan (text : List C) : List T := s.scanUpTo text.length text

theorem next_nil : s.next [] = none := by
  cases h : s.next [] with
  | none => rfl
  | some r => exact absurd (s.progress h) (Nat.not_lt_zero _)

theorem scanUpTo_nil (n : ℕ) : s.scanUpTo n [] = [] := by
  cases n with
  | zero => rfl
  | succ n => rw [scanUpTo, next_nil]

variable {text : List C}

theorem scanUpTo_eq {n m : ℕ} (hn : text.length ≤ n) (hm : text.length ≤ m) :
    s.scanUpTo n text = s.scanUpTo m text := by
  induction n generalizing m text with
  | zero =>
    obtain rfl := List.eq_nil_of_length_eq_zero (Nat.le_zero.mp hn)
    rw [scanUpTo_nil, scanUpTo_nil]
  | succ n ih =>
    cases m with
    | zero =>
      obtain rfl := List.eq_nil_of_length_eq_zero (Nat.le_zero.mp hm)
      rw [scanUpTo_nil, scanUpTo_nil]
    | succ m =>
      rw [scanUpTo, scanUpTo]
      cases h : s.next text with
      | none => rfl
      | some r =>
        have hlt := s.progress h
        exact congrArg (r.1 :: ·) (ih (by omega) (by omega))

theorem scan_of_none (h : s.next text = none) : s.scan text = [] := by
  rw [scan]
  cases text.length with
  | zero => rfl
  | succ n => rw [scanUpTo, h]

theorem scan_of_some {rest : List C} {t : T} (h : s.next text = some (t, rest)) :
    s.scan text = t :: s.scan rest := by
  have hlt := s.progress h
  obtain ⟨n, hn⟩ := Nat.exists_eq_succ_of_ne_zero (by omega : text.length ≠ 0)
  rw [scan, hn, scanUpTo, h, scan]
  exact congrArg (t :: ·) (s.scanUpTo_eq (by omega) le_rfl)

/-- A property of the tokens, by a condition on the text that every token leaves true of the rest. -/
theorem forall_mem_scan {P : List C → Prop} {G : T → Prop}
    (hstep : ∀ {text : List C} {t : T} {rest : List C}, P text → s.next text = some (t, rest) → G t ∧ P rest)
    (h : P text) : ∀ t ∈ s.scan text, G t := by
  induction hlen : text.length using Nat.strongRecOn generalizing text with
  | _ n ih =>
    cases hnext : s.next text with
    | none => simp [s.scan_of_none hnext]
    | some r =>
      obtain ⟨t, rest⟩ := r
      obtain ⟨ht, hrest⟩ := hstep h hnext
      rw [s.scan_of_some hnext]
      exact List.forall_mem_cons.mpr ⟨ht, ih rest.length (hlen ▸ s.progress hnext) hrest rfl⟩

structure Boundary (tail : List C) : Prop where
  some : ∀ {text : List C} {t : T} {rest : List C}, s.next text = some (t, rest) →
    s.next (text ++ tail) = some (t, rest ++ tail)
  none : ∀ {text : List C}, s.next text = none → s.next (text ++ tail) = s.next tail

theorem scan_append {tail : List C} (hb : s.Boundary tail) (text : List C) :
    s.scan (text ++ tail) = s.scan text ++ s.scan tail := by
  induction hlen : text.length using Nat.strongRecOn generalizing text with
  | _ n ih =>
    cases h : s.next text with
    | none =>
      rw [s.scan_of_none h, List.nil_append]
      cases h' : s.next tail with
      | none => rw [s.scan_of_none h', s.scan_of_none ((hb.none h).trans h')]
      | some r => rw [s.scan_of_some h', s.scan_of_some ((hb.none h).trans h')]
    | some r =>
      obtain ⟨t, rest⟩ := r
      have hlt := s.progress h
      rw [s.scan_of_some h, s.scan_of_some (hb.some h), ih rest.length (by omega) rest rfl, List.cons_append]

end Scanner

/-! ## Words

The characters of a word are taken as far as they go; `tail` does not go on with one. -/

section
variable {C : Type} {p : C → Bool}

def Stops (p : C → Bool) (tail : List C) : Prop := ∀ c ∈ tail.head?, p c = false

theorem stops_cons {c : C} (h : p c = false) (tail : List C) : Stops p (c :: tail) := by
  simpa [Stops] using h

theorem stops_nil : Stops p [] := by
  simp [Stops]

variable {tail : List C}

theorem takeWhile_append_stops (h : Stops p tail) (text : List C) :
    (text ++ tail).takeWhile p = text.takeWhile p := by
  induction text with
  | nil =>
    cases tail with
    | nil => rfl
    | cons c tail => simp [h c rfl]
  | cons c text ih =>
    rw [List.cons_append, List.takeWhile_cons, List.takeWhile_cons, ih]

theorem dropWhile_append_stops (h : Stops p tail) (text : List C) :
    (text ++ tail).dropWhile p = text.dropWhile p ++ tail := by
  induction text with
  | nil =>
    cases tail with
    | nil => rfl
    | cons c tail => simp [h c rfl]
  | cons c text ih =>
    rw [List.cons_append, List.dropWhile_cons, List.dropWhile_cons, ih]
    split <;> rfl

end

end Web3
