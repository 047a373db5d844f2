import Mathlib.Tactic

/-! # Cursors

A cursor steps through the entries of something of type `S`, which may change between two steps. Its
meaning is a relation `Stands s i kvs`: the cursor `i` over `s` has the entries `kvs` left, the current
one first. A cursor that has run out shows the default key and value and stays where it is. -/

namespace Web3

variable {S I K V : Type}

/-- The methods of a cursor; `none` is a call that does not come back. -/
structure Cursor (S I K V : Type) where
  first : S → I → Option (Bool × I)
  next : S → I → Option (Bool × I)
  key : I → K
  value : I → V
  error : I → Option String

namespace Cursor

def entry (c : Cursor S I K V) (i : I) : K × V := (c.key i, c.value i)

/-- The loop `for has := first(); has; has = next()` over something that does not change: the entries
it sees, or `none` when the steps run out. -/
def walk (c : Cursor S I K V) (s : S) : ℕ → Bool × I → Option (List (K × V))
  | _, (false, _) => some []
  | 0, (true, _) => none
  | n + 1, (true, i) => (c.next s i).bind fun r => (c.walk s n r).map (c.entry i :: ·)

def Found (Stands : S → I → List (K × V) → Prop) (s : S) (r : Bool × I) (kvs : List (K × V)) : Prop :=
  r.1 = !kvs.isEmpty ∧ Stands s r.2 kvs

structure Lawful [Inhabited K] [Inhabited V] (c : Cursor S I K V)
    (Stands : S → I → List (K × V) → Prop) : Prop where
  entry : ∀ {s i kvs}, Stands s i kvs → c.entry i = kvs.headD default
  next : ∀ {s i kvs}, Stands s i kvs → ∃ r, c.next s i = some r ∧ Found Stands s r kvs.tail
  error : ∀ {s i kvs}, Stands s i kvs → c.error i = none

variable [Inhabited K] [Inhabited V] {c : Cursor S I K V} {Stands : S → I → List (K × V) → Prop}
  {s : S} {kvs : List (K × V)}

theorem Lawful.walk_eq (hc : c.Lawful Stands) {r : Bool × I} {n : ℕ} (hr : Found Stands s r kvs)
    (hn : kvs.length ≤ n) : c.walk s n r = some kvs := by
  obtain ⟨has, i⟩ := r
  induction n generalizing has i kvs with
  | zero =>
    obtain rfl := List.length_eq_zero_iff.mp (Nat.le_zero.mp hn)
    obtain rfl : has = false := hr.1
    rfl
  | succ n ih =>
    cases kvs with
    | nil =>
      obtain rfl : has = false := hr.1
      rfl
    | cons kv kvs =>
      obtain rfl : has = true := hr.1
      have hentry : c.entry i = kv := hc.entry hr.2
      obtain ⟨r, hnext, hfound⟩ := hc.next hr.2
      rw [walk, hnext, Option.bind_some, ih (Nat.le_of_succ_le_succ hn) _ _ hfound, hentry]
      rfl

/-- The loop comes back with the entries `kvs`, if it may take enough steps. -/
def Enumerates (c : ℕ → Cursor S I K V) (s : S) (i : I) (kvs : List (K × V)) : Prop :=
  ∃ N, ∀ steps, N < steps → ∃ r, (c steps).first s i = some r ∧ (c steps).walk s steps r = some kvs

omit [Inhabited K] [Inhabited V] in
theorem Enumerates.unique {c : ℕ → Cursor S I K V} {i : I} {kvs' : List (K × V)}
    (h : Enumerates c s i kvs) (h' : Enumerates c s i kvs') : kvs = kvs' := by
  obtain ⟨N, h⟩ := h
  obtain ⟨N', h'⟩ := h'
  obtain ⟨r, hfirst, hwalk⟩ := h (max N N' + 1) (Nat.lt_succ_of_le (le_max_left _ _))
  obtain ⟨r', hfirst', hwalk'⟩ := h' (max N N' + 1) (Nat.lt_succ_of_le (le_max_right _ _))
  cases hfirst.symm.trans hfirst'
  exact Option.some.inj (hwalk.symm.trans hwalk')

/-! ## Cursors over lists -/

def ofList (kvs : List (K × V)) : Cursor Unit (List (K × V)) K V where
  first _ _ := some (!kvs.isEmpty, kvs)
  next _ left := some (!left.tail.isEmpty, left.tail)
  key left := (left.headD default).1
  value left := (left.headD default).2
  error _ := none

theorem ofList_lawful (kvs : List (K × V)) : (ofList kvs).Lawful fun _ left kvs' => left = kvs' where
  entry := by
    rintro _ left _ rfl
    rfl
  next := by
    rintro _ left _ rfl
    exact ⟨_, rfl, rfl, rfl⟩
  error _ := rfl

def ended : Cursor S I K V where
  first _ i := some (false, i)
  next _ i := some (false, i)
  key _ := default
  value _ := default
  error _ := none

theorem ended_lawful : (ended : Cursor S I K V).Lawful fun _ _ kvs => kvs = [] where
  entry := by
    rintro _ i _ rfl
    rfl
  next := by
    rintro _ i _ rfl
    exact ⟨_, rfl, rfl, rfl⟩
  error _ := rfl

end Cursor
end Web3
