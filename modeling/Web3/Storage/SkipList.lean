import Web3.Foundations.Linked
import Web3.Foundations.Lists
import Web3.Storage.MemDB

/-! # The skip list and its search

`Represents p L`: the records of `p` at the offsets `L` are the nodes of a skip list in key order.
The records do not overlap, every level is a chain through the nodes that are high enough for it, and
every key and value lies in the buffer. A search for a key splits the nodes into those before the key
and those at or behind it, and ends at the first of the latter on every level. -/

namespace Web3.Storage.MemDB

def heightOf (p : MemDB) (node : ℕ) : ℕ := p.nodeAt (node + nHeight)

def recordEnd (p : MemDB) (node : ℕ) : ℕ := node + nNext + p.heightOf node

def onLevel (p : MemDB) (h node : ℕ) : Bool := h < p.heightOf node

@[simp] theorem onLevel_eq_true {p : MemDB} {h node : ℕ} :
    p.onLevel h node = true ↔ h < p.heightOf node := decide_eq_true_iff

/-- The table is a skip list with the nodes `L`, in this order. -/
structure Represents (p : MemDB) (L : List ℕ) : Prop where
  maxHeight_pos : 1 ≤ p.maxHeight
  maxHeight_le : p.maxHeight ≤ tMaxHeight
  prevNode_length : p.prevNode.length = tMaxHeight
  head_height : p.heightOf 0 = tMaxHeight
  heights : ∀ x ∈ L, 1 ≤ p.heightOf x ∧ p.heightOf x ≤ p.maxHeight
  in_bounds : ∀ x ∈ 0 :: L, p.recordEnd x ≤ p.nodeData.length
  nodup : (0 :: L).Nodup
  apart : ∀ x ∈ 0 :: L, ∀ y ∈ 0 :: L, x ≠ y → p.recordEnd x ≤ y ∨ p.recordEnd y ≤ x
  linked : ∀ h < tMaxHeight, Linked (p.next h) 0 ((0 :: L).filter (p.onLevel h))
  sorted : L.Pairwise fun x y => compare (p.keyOf x) (p.keyOf y) = .lt
  data : ∀ x ∈ L, p.nodeAt x + p.nodeAt (x + nKey) + p.nodeAt (x + nVal) ≤ p.kvData.length
  count : p.n = L.length
  size : p.kvSize = (L.map fun x => (p.nodeAt (x + nKey) + p.nodeAt (x + nVal) : ℤ)).sum

namespace Represents
variable {p : MemDB} {L : List ℕ}

theorem lt_recordEnd (p : MemDB) (x : ℕ) : x < p.recordEnd x := by
  unfold recordEnd nNext
  omega

variable {x : ℕ}

section
variable (h : Represents p L)
include h

theorem ne_zero (hx : x ∈ L) : x ≠ 0 := by
  rintro rfl
  exact (List.nodup_cons.mp h.nodup).1 hx

theorem lt_length (hx : x ∈ 0 :: L) : x < p.nodeData.length :=
  lt_of_lt_of_le (lt_recordEnd p x) (h.in_bounds x hx)

theorem length_lt : L.length < p.nodeData.length := by
  have hsub : (0 :: L) ⊆ List.range p.nodeData.length :=
    fun x hx => List.mem_range.mpr (h.lt_length hx)
  have := (List.subperm_of_subset h.nodup hsub).length_le
  simpa using this

theorem onLevel_zero (hx : x ∈ L) : p.onLevel 0 x = true :=
  onLevel_eq_true.mpr (h.heights x hx).1

theorem filter_onLevel_zero {xs : List ℕ} (hxs : xs ⊆ L) : xs.filter (p.onLevel 0) = xs :=
  List.filter_eq_self.mpr fun _ hx => h.onLevel_zero (hxs hx)

end

theorem next_eq (h : Represents p L) (pre rest : List ℕ) (x : ℕ) {l : ℕ} (hL : 0 :: L = pre ++ x :: rest)
    (hl : l < tMaxHeight) (hx : l < p.heightOf x) : p.next l x = (rest.filter (p.onLevel l)).headD 0 := by
  have hlink := h.linked l hl
  rw [hL, List.filter_append, List.filter_cons_of_pos (onLevel_eq_true.mpr hx)] at hlink
  exact hlink.next_eq

end Represents

/-! ## Search -/

/-- The nodes before a key, and those at or behind it. -/
structure SplitAt (p : MemDB) (L : List ℕ) (key : Bytes) (A B : List ℕ) : Prop where
  eq : L = A ++ B
  before : ∀ x ∈ A, compare (p.keyOf x) key = .lt
  behind : ∀ x ∈ B, compare (p.keyOf x) key ≠ .lt

def headIs (p : MemDB) (key : Bytes) (B : List ℕ) : Bool :=
  B.head?.any fun x => compare (p.keyOf x) key == .eq

def LastOn (p : MemDB) (A : List ℕ) (h x : ℕ) : Prop :=
  ∃ C, (0 :: A).filter (p.onLevel h) = C ++ [x]

section
variable {p : MemDB} {L A B : List ℕ} {key : Bytes} {x : ℕ} {q : ℕ → Bool} {pre rest : List ℕ}

namespace SplitAt
variable (hs : SplitAt p L key A B)
include hs

theorem subset_left : A ⊆ L := hs.eq ▸ List.subset_append_left A B

theorem subset_right : B ⊆ L := hs.eq ▸ List.subset_append_right A B

theorem cmp_ne_lt : (if (B.filter q).headD 0 = 0 then Ordering.gt
      else compare (p.keyOf ((B.filter q).headD 0)) key) ≠ .lt := by
  split
  · simp
  · next hne =>
    cases hB : B.filter q with
    | nil => simp [hB] at hne
    | cons x xs =>
      have hx : x ∈ B.filter q := by simp [hB]
      exact hs.behind x (List.mem_filter.mp hx).1

variable (h : Represents p L)
include h

theorem head_eq (hx : x ∈ B) (heq : compare (p.keyOf x) key = .eq) : B.headD 0 = x ∧ p.headIs key B = true := by
  cases B with
  | nil => simp at hx
  | cons y B =>
    have hsort := h.sorted
    rw [hs.eq, List.pairwise_append, List.pairwise_cons] at hsort
    rcases List.mem_cons.mp hx with rfl | hx
    · simp [headIs, heq]
    · have hlt := hsort.2.1.1 x hx
      rw [Std.LawfulEqCmp.compare_eq_iff_eq.mp heq] at hlt
      exact absurd hlt (hs.behind y (List.mem_cons_self ..))

theorem head_of_cmp_eq
    (heq : (if (B.filter q).headD 0 = 0 then Ordering.gt else compare (p.keyOf ((B.filter q).headD 0)) key) = .eq) :
    (B.filter q).headD 0 = B.headD 0 ∧ p.headIs key B = true := by
  split at heq
  · simp at heq
  · next hne =>
    cases hB : B.filter q with
    | nil => simp [hB] at hne
    | cons x xs =>
      have hx : x ∈ B.filter q := by simp [hB]
      rw [hB] at heq
      obtain ⟨hhead, his⟩ := hs.head_eq h (List.mem_filter.mp hx).1 heq
      exact ⟨hhead.symm, his⟩

theorem cmp_head :
    ((if B.headD 0 = 0 then Ordering.gt else compare (p.keyOf (B.headD 0)) key) == .eq) = p.headIs key B := by
  cases B with
  | nil => rfl
  | cons x B =>
    have hx : x ≠ 0 := h.ne_zero (by rw [hs.eq]; simp)
    simp [headIs, hx]

end SplitAt

theorem rest_subset {a : ℕ} (h : a :: A = pre ++ x :: rest) : rest ⊆ A := by
  cases pre with
  | nil =>
    obtain ⟨-, rfl⟩ := List.cons.inj h
    exact fun _ hy => hy
  | cons y pre =>
    obtain ⟨-, rfl⟩ := List.cons.inj h
    exact fun _ hz => List.mem_append_right pre (List.mem_cons_of_mem x hz)

theorem lastOn_of_rest {l node : ℕ} (hsplit : 0 :: A = pre ++ node :: rest)
    (hnode : l < p.heightOf node) (hrest : rest.filter (p.onLevel l) = []) : p.LastOn A l node :=
  ⟨pre.filter (p.onLevel l), by
    rw [hsplit, List.filter_append, List.filter_cons_of_pos (onLevel_eq_true.mpr hnode), hrest]⟩

/-- The loop ends at the first node at or behind the key. With `prev` it leaves the last node before the
key on the levels up to `l` in `prevNode`, and else nothing. -/
def EndsAt (p : MemDB) (key : Bytes) (A B : List ℕ) (prev : Bool) (l : ℕ) (prevNode : List ℕ)
    (r : Option (ℕ × Bool × List ℕ)) : Prop :=
  ∃ prevNode', r = some (B.headD 0, p.headIs key B, prevNode') ∧ prevNode'.length = tMaxHeight ∧
    (prev = false → prevNode' = prevNode) ∧
    (prev = true → (∀ i ≤ l, p.LastOn A i (prevNode'.getD i 0)) ∧ ∀ i > l, prevNode'.getD i 0 = prevNode.getD i 0)

section Levels
variable {prev : Bool} {prevNode : List ℕ} {node l : ℕ} {r : Option (ℕ × Bool × List ℕ)}

theorem length_setIf (hlen : prevNode.length = tMaxHeight) :
    (if prev then prevNode.set l node else prevNode).length = tMaxHeight := by
  split
  · rw [List.length_set, hlen]
  · exact hlen

theorem endsAt_zero (hlast : p.LastOn A 0 node) (hlen : prevNode.length = tMaxHeight) : EndsAt p key A B prev 0 prevNode
      (some (B.headD 0, p.headIs key B, if prev then prevNode.set 0 node else prevNode)) := by
  refine ⟨_, rfl, length_setIf hlen, fun hp => by rw [hp]; rfl, fun hp => ?_⟩
  rw [hp, if_pos rfl]
  refine ⟨fun i hi => ?_, fun i hi => getD_set_ne hi.ne'⟩
  obtain rfl : i = 0 := by omega
  rw [getD_set_self (by rw [hlen]; decide)]
  exact hlast

theorem EndsAt.down (h : EndsAt p key A B prev l (if prev then prevNode.set (l + 1) node else prevNode) r)
    (hlast : p.LastOn A (l + 1) node) (hl : l + 1 < prevNode.length) :
    EndsAt p key A B prev (l + 1) prevNode r := by
  obtain ⟨prevNode', heq, hlen, hfalse, htrue⟩ := h
  refine ⟨prevNode', heq, hlen, fun hp => ?_, fun hp => ?_⟩
  · rw [hfalse hp, hp]
    rfl
  · obtain ⟨hle, hgt⟩ := htrue hp
    rw [hp, if_pos rfl] at hgt
    refine ⟨fun i hi => ?_, fun i hi => ?_⟩
    · rcases Nat.lt_or_ge l i with hli | hli
      · obtain rfl : i = l + 1 := by omega
        rw [hgt (l + 1) (by omega), getD_set_self hl]
        exact hlast
      · exact hle i hli
    · rw [hgt i (by omega), getD_set_ne (by omega)]

end Levels

theorem findGELoop_eq (h : Represents p L) (hs : SplitAt p L key A B) (prev : Bool) :
    ∀ (fuel node l : ℕ) (prevNode pre rest : List ℕ), 0 :: A = pre ++ node :: rest →
      l < tMaxHeight → l < p.heightOf node → rest.length + l < fuel → prevNode.length = tMaxHeight →
      EndsAt p key A B prev l prevNode (p.findGELoop key prev fuel node l prevNode)
  | 0, _, _, _, _, _, _, _, _, hfuel, _ => by omega
  | fuel + 1, node, l, prevNode, pre, rest, hsplit, hl, hnode, hfuel, hprev => by
    have hL : 0 :: L = pre ++ node :: (rest ++ B) := by
      rw [hs.eq, ← List.cons_append, hsplit]
      simp
    have hnext := h.next_eq _ _ _ hL hl hnode
    rw [List.filter_append] at hnext
    cases hrest : rest.filter (p.onLevel l) with
    | cons x xs =>
      -- the next node on this level is still before the key: move right
      obtain ⟨r₁, r₂, rfl, -, hx, -⟩ := List.filter_eq_cons_iff.mp hrest
      rw [hrest, List.cons_append, List.headD_cons] at hnext
      have hxA : x ∈ A := rest_subset hsplit (by simp)
      have hx0 : x ≠ 0 := h.ne_zero (by rw [hs.eq]; exact List.mem_append_left B hxA)
      have hcmp := hs.before x hxA
      have := findGELoop_eq h hs prev fuel x l prevNode (pre ++ node :: r₁) r₂ (by simp [hsplit]) hl
        (onLevel_eq_true.mp hx) (by simp at hfuel; omega) hprev
      simpa [findGELoop, hnext, hx0, hcmp] using this
    | nil =>
      rw [hrest, List.nil_append] at hnext
      have hlt := hs.cmp_ne_lt (q := p.onLevel l)
      have hlast := lastOn_of_rest hsplit hnode hrest
      have hheadEq := hs.head_of_cmp_eq h (q := p.onLevel l)
      rw [findGELoop]
      simp only [hnext]
      generalize hcmp : (if (B.filter (p.onLevel l)).headD 0 = 0 then Ordering.gt
        else compare (p.keyOf ((B.filter (p.onLevel l)).headD 0)) key) = cmp at hlt hheadEq
      rw [if_neg hlt]
      by_cases hret : (!prev && cmp == .eq) = true
      · -- found on a higher level, and there is no need to go down
        rw [if_pos hret]
        rw [Bool.and_eq_true, Bool.not_eq_true', beq_iff_eq] at hret
        obtain ⟨hhead, his⟩ := hheadEq hret.2
        exact ⟨prevNode, by rw [hhead, his], hprev, fun _ => rfl, by simp [hret.1]⟩
      · rw [if_neg hret]
        cases l with
        | zero =>
          have hB : B.filter (p.onLevel 0) = B :=
            h.filter_onLevel_zero hs.subset_right
          have hend := hs.cmp_head h
          rw [hB] at hcmp ⊢
          rw [hcmp] at hend
          dsimp only
          rw [hend]
          exact endsAt_zero hlast hprev
        | succ l =>
          have hdown := findGELoop_eq h hs prev fuel node l
            (if prev then prevNode.set (l + 1) node else prevNode) pre rest hsplit (by omega)
            (by omega) (by omega) (length_setIf hprev)
          exact hdown.down hlast (by omega)

theorem exists_splitAt (h : Represents p L) (key : Bytes) : ∃ A B, SplitAt p L key A B := by
  refine ⟨L.takeWhile fun x => compare (p.keyOf x) key == .lt,
    L.dropWhile fun x => compare (p.keyOf x) key == .lt, List.takeWhile_append_dropWhile.symm, ?_, ?_⟩
  · intro x hx
    have hall := List.all_takeWhile (p := fun x => compare (p.keyOf x) key == .lt) (l := L)
    simpa using List.all_eq_true.mp hall x hx
  · intro x hx hlt
    cases hB : L.dropWhile fun x => compare (p.keyOf x) key == .lt with
    | nil => simp [hB] at hx
    | cons y B =>
      have hy : ¬ compare (p.keyOf y) key = .lt := by
        have := List.head_dropWhile_not (fun x => compare (p.keyOf x) key == .lt)
          (l := L) (by simp [hB])
        simpa [hB] using this
      rw [hB] at hx
      rcases List.mem_cons.mp hx with rfl | hx
      · exact hy hlt
      · have hsort := h.sorted
        rw [← List.takeWhile_append_dropWhile (p := fun x => compare (p.keyOf x) key == .lt) (l := L),
          hB, List.pairwise_append, List.pairwise_cons] at hsort
        exact hy (Std.TransCmp.lt_trans (hsort.2.1.1 x hx) hlt)

theorem findGE_eq (h : Represents p L) (hs : SplitAt p L key A B) (prev : Bool) :
    ∃ prevNode', p.findGE key prev = (B.headD 0, p.headIs key B, { p with prevNode := prevNode' }) ∧
      prevNode'.length = tMaxHeight ∧
      (prev = true → ∀ i < p.maxHeight, p.LastOn A i (prevNode'.getD i 0)) := by
  have hpos := h.maxHeight_pos
  have hle := h.maxHeight_le
  have hlen : A.length ≤ L.length := by
    rw [hs.eq, List.length_append]
    omega
  have hlt := h.length_lt
  have hhead := h.head_height
  obtain ⟨prevNode', heq, hlen', -, htrue⟩ := findGELoop_eq h hs prev
    (p.nodeData.length + p.maxHeight) 0 (p.maxHeight - 1) p.prevNode [] A rfl (by omega) (by omega)
    (by omega) h.prevNode_length
  refine ⟨prevNode', by rw [findGE, heq], hlen', ?_⟩
  exact fun hp i hi => (htrue hp).1 i (by omega)

end
end Web3.Storage.MemDB
