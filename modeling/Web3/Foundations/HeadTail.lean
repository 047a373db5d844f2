import Web3.Foundations.Words

/-! # Head/tail layout of a sequence of byte strings

A sequence is laid out as all its heads followed by all its tails. A static part has its bytes in
the head and no tail; a dynamic part has its bytes in the tail, and its head is a 32-byte word with
the offset of that tail from the start of the layout.

`layout` is the definition by positions; `headsFrom` is the same with a running offset, which is
how an encoder that appends one part after the other computes it. -/

namespace Web3.HeadTail

def word (n : ℕ) : Bytes := beBytes 32 n

@[simp] theorem length_word (n : ℕ) : (word n).length = 32 := length_beBytes 32 n

theorem ofBytes_word {n : ℕ} (h : n < 2 ^ 256) : ofBytes (word n) = n :=
  ofBytes_beBytes_of_lt (by simpa using h)

/-- One element of a sequence: its encoding, and whether it is placed in the tail. -/
structure Part where
  dyn : Bool
  enc : Bytes

namespace Part

def head (offset : ℕ) (p : Part) : Bytes := if p.dyn then word offset else p.enc

def tail (p : Part) : Bytes := if p.dyn then p.enc else []

def headSize (p : Part) : ℕ := if p.dyn then 32 else p.enc.length

@[simp] theorem length_head (offset : ℕ) (p : Part) : (p.head offset).length = p.headSize := by
  unfold head headSize
  split <;> simp

end Part

def headsSize (ps : List Part) : ℕ := (ps.map Part.headSize).sum

def tails (ps : List Part) : Bytes := ps.flatMap Part.tail

/-- All heads, in order: the offset in the head of part `i` counts all heads and the tails of the
parts before it. -/
def heads (ps : List Part) : Bytes :=
  ps.zipIdx.flatMap fun p => p.1.head (headsSize ps + (tails (ps.take p.2)).length)

def layout (ps : List Part) : Bytes := heads ps ++ tails ps

def headsFrom : ℕ → List Part → Bytes
  | _, [] => []
  | offset, p :: ps => p.head offset ++ headsFrom (offset + p.tail.length) ps

@[simp] theorem headsSize_nil : headsSize [] = 0 := rfl

@[simp] theorem headsSize_cons (p : Part) (ps : List Part) : headsSize (p :: ps) = p.headSize + headsSize ps := by
  simp [headsSize]

@[simp] theorem tails_nil : tails [] = [] := rfl

@[simp] theorem tails_cons (p : Part) (ps : List Part) : tails (p :: ps) = p.tail ++ tails ps := by
  simp [tails]

@[simp] theorem tails_append (ps qs : List Part) : tails (ps ++ qs) = tails ps ++ tails qs := by
  simp [tails]

theorem length_headsFrom (offset : ℕ) (ps : List Part) : (headsFrom offset ps).length = headsSize ps := by
  induction ps generalizing offset with
  | nil => rfl
  | cons p ps ih => simp [headsFrom, ih]

theorem heads_eq_headsFrom_aux (H : ℕ) (pre ps : List Part) : (ps.zipIdx pre.length).flatMap
        (fun p => p.1.head (H + (tails ((pre ++ ps).take p.2)).length)) =
      headsFrom (H + (tails pre).length) ps := by
  induction ps generalizing pre with
  | nil => rfl
  | cons p ps ih =>
    have hpre : (pre ++ p :: ps).take pre.length = pre := List.take_left
    have happ : pre ++ p :: ps = (pre ++ [p]) ++ ps := by simp
    have hlen : pre.length + 1 = (pre ++ [p]).length := by simp
    rw [List.zipIdx_cons, List.flatMap_cons, hpre, headsFrom, happ, hlen, ih (pre ++ [p])]
    simp [Nat.add_assoc]

theorem heads_eq_headsFrom (ps : List Part) : heads ps = headsFrom (headsSize ps) ps := by
  have h := heads_eq_headsFrom_aux (headsSize ps) [] ps
  simpa [heads] using h

theorem layout_eq (ps : List Part) : layout ps = headsFrom (headsSize ps) ps ++ tails ps := by
  rw [layout, heads_eq_headsFrom]

theorem length_layout (ps : List Part) : (layout ps).length = headsSize ps + (tails ps).length := by
  rw [layout_eq, List.length_append, length_headsFrom]

theorem drop_headsSize_layout (ps : List Part) (rest : Bytes) :
    (layout ps ++ rest).drop (headsSize ps) = tails ps ++ rest := by
  rw [layout_eq, List.append_assoc]
  exact List.drop_left' (length_headsFrom (headsSize ps) ps)

variable {k : ℕ} {ps : List Part}

theorem mul_le_headsSize (ps : List Part) (h : ∀ p ∈ ps, k ≤ p.headSize) : ps.length * k ≤ headsSize ps := by
  have hsum := List.card_nsmul_le_sum (ps.map Part.headSize) k (by simpa using h)
  simpa [headsSize] using hsum

theorem headsSize_eq_mul (h : ∀ p ∈ ps, p.headSize = k) : headsSize ps = ps.length * k := by
  induction ps with
  | nil => simp
  | cons p ps ih =>
    rw [headsSize_cons, h p (List.mem_cons_self ..), ih fun q hq => h q (List.mem_cons_of_mem p hq), List.length_cons]
    ring

/-! ## Sequences without dynamic parts -/

theorem tails_eq_nil (h : ∀ p ∈ ps, p.dyn = false) : tails ps = [] := by
  induction ps with
  | nil => rfl
  | cons p ps ih =>
    have hp := h p (List.mem_cons_self ..)
    have hps := ih fun q hq => h q (List.mem_cons_of_mem p hq)
    simp [Part.tail, hp, hps]

theorem headsFrom_static (h : ∀ p ∈ ps, p.dyn = false) (o o' : ℕ) : headsFrom o ps = headsFrom o' ps := by
  induction ps generalizing o o' with
  | nil => rfl
  | cons p ps ih =>
    have hp := h p (List.mem_cons_self ..)
    have hps := ih fun q hq => h q (List.mem_cons_of_mem p hq)
    rw [headsFrom, headsFrom, hps (o + p.tail.length) (o' + p.tail.length)]
    simp [Part.head, hp]

end Web3.HeadTail
