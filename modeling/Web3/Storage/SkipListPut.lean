import Web3.Foundations.SortedMap
import Web3.Storage.SkipList

/-! # Writing to the skip list

`Put` keeps the representation and writes one entry of the sorted map that the table stands for. An
existing key keeps its node, whose record is pointed to the new bytes; a new key gets a record at the
end of the array, linked in behind the last smaller key of every level it is on. -/

namespace Web3.Storage.MemDB

def entries (p : MemDB) (L : List ℕ) : List (Bytes × Bytes) :=
  L.map fun x => (p.keyOf x, p.valOf x)

section
variable {p : MemDB} {L A B : List ℕ} {key value : Bytes}

theorem entries_cons (p : MemDB) (x : ℕ) (xs : List ℕ) :
    p.entries (x :: xs) = (p.keyOf x, p.valOf x) :: p.entries xs := rfl

theorem entries_append (p : MemDB) (A B : List ℕ) : p.entries (A ++ B) = p.entries A ++ p.entries B :=
  List.map_append

theorem length_keyOf (h : Represents p L) {x : ℕ} (hx : x ∈ L) : (p.keyOf x).length = p.nodeAt (x + nKey) := by
  have := h.data x hx
  rw [keyOf, List.length_take, List.length_drop]
  omega

theorem entries_sorted (h : Represents p L) : KeysSorted (p.entries L) :=
  List.pairwise_map.mpr h.sorted

/-! ## What stays where it is -/

theorem slice_append_left {l r : Bytes} {o n : ℕ} (h : o + n ≤ l.length) :
    ((l ++ r).drop o).take n = (l.drop o).take n := by
  rw [List.drop_append_of_le_length (by omega), List.take_append_of_le_length]
  rw [List.length_drop]
  omega

variable {c i : ℕ}

theorem add_lt_recordEnd (p : MemDB) (y : ℕ) (hc : c < nNext) : y + c < p.recordEnd y := by
  unfold recordEnd
  omega

structure KeepsEntries (p p' : MemDB) (xs : List ℕ) : Prop where
  keyLen : ∀ y ∈ xs, p'.nodeAt (y + nKey) = p.nodeAt (y + nKey)
  valLen : ∀ y ∈ xs, p'.nodeAt (y + nVal) = p.nodeAt (y + nVal)
  keyOf : ∀ y ∈ xs, p'.keyOf y = p.keyOf y
  valOf : ∀ y ∈ xs, p'.valOf y = p.valOf y

/-- Nodes whose offset and lengths are unchanged keep their entries when the buffer grows. -/
theorem keepsEntries {p' : MemDB} {xs : List ℕ} (h : Represents p L) (hxs : xs ⊆ L)
    (hkv : ∃ ext, p'.kvData = p.kvData ++ ext)
    (hcells : ∀ y ∈ xs, ∀ c < nHeight, p'.nodeAt (y + c) = p.nodeAt (y + c)) : KeepsEntries p p' xs := by
  obtain ⟨ext, hext⟩ := hkv
  have h0 := fun y hy => hcells y hy 0 (by simp [nHeight])
  have h1 := fun y hy => hcells y hy nKey (by simp [nKey, nHeight])
  have h2 := fun y hy => hcells y hy nVal (by simp [nVal, nHeight])
  refine ⟨h1, h2, fun y hy => ?_, fun y hy => ?_⟩
  · have hdata := h.data y (hxs hy)
    rw [keyOf, keyOf, hext, h1 y hy, ← Nat.add_zero y, h0 y hy, Nat.add_zero, slice_append_left (by omega)]
  · have hdata := h.data y (hxs hy)
    rw [valOf, valOf, hext, h1 y hy, h2 y hy, ← Nat.add_zero y, h0 y hy, Nat.add_zero, slice_append_left (by omega)]

namespace KeepsEntries
variable {p' : MemDB} {xs ys : List ℕ} (hk : KeepsEntries p p' xs)
include hk

theorem subset (h : ys ⊆ xs) : KeepsEntries p p' ys :=
  ⟨fun y hy => hk.keyLen y (h hy), fun y hy => hk.valLen y (h hy), fun y hy => hk.keyOf y (h hy),
    fun y hy => hk.valOf y (h hy)⟩

theorem entries : p'.entries xs = p.entries xs :=
  List.map_congr_left fun y hy => by rw [hk.keyOf y hy, hk.valOf y hy]

theorem sizes : xs.map (fun y => (p'.nodeAt (y + nKey) + p'.nodeAt (y + nVal) : ℤ)) =
      xs.map fun y => (p.nodeAt (y + nKey) + p.nodeAt (y + nVal) : ℤ) :=
  List.map_congr_left fun y hy => by rw [hk.keyLen y hy, hk.valLen y hy]

theorem sorted (h : xs.Pairwise fun x y => compare (p.keyOf x) (p.keyOf y) = .lt) :
    xs.Pairwise fun x y => compare (p'.keyOf x) (p'.keyOf y) = .lt :=
  h.imp_of_mem fun hx hy hlt => by rw [hk.keyOf _ hx, hk.keyOf _ hy, hlt]

end KeepsEntries

theorem linked_congr {p' : MemDB} {l : ℕ} (h : Represents p L) (hl : l < tMaxHeight)
    (hheight : ∀ y ∈ 0 :: L, p'.heightOf y = p.heightOf y)
    (hnext : ∀ y ∈ 0 :: L, l < p.heightOf y → p'.next l y = p.next l y) :
    Linked (p'.next l) 0 ((0 :: L).filter (p'.onLevel l)) := by
  have hfilter : (0 :: L).filter (p'.onLevel l) = (0 :: L).filter (p.onLevel l) :=
    List.filter_congr fun y hy => by rw [onLevel, onLevel, hheight y hy]
  rw [hfilter]
  refine (h.linked l hl).congr fun y hy => ?_
  obtain ⟨hy, hlev⟩ := List.mem_filter.mp hy
  exact hnext y hy (onLevel_eq_true.mp hlev)

/-! ## Overwriting -/

/-- What a write to the record of `x` that keeps its key does to the table. -/
structure Overwritten (p p' : MemDB) (x : ℕ) (value : Bytes) : Prop where
  prevNode : p'.prevNode = p.prevNode
  maxHeight : p'.maxHeight = p.maxHeight
  n : p'.n = p.n
  kvSize : p'.kvSize = p.kvSize + (value.length - p.nodeAt (x + nVal))
  kvData : ∃ ext, p'.kvData = p.kvData ++ ext
  length : p'.nodeData.length = p.nodeData.length
  frame : ∀ j, j ≠ x → j ≠ x + nVal → p'.nodeAt j = p.nodeAt j
  valLen : p'.nodeAt (x + nVal) = value.length
  keyOf : p'.keyOf x = p.keyOf x
  valOf : p'.valOf x = value
  data : p'.nodeAt x + p'.nodeAt (x + nKey) + p'.nodeAt (x + nVal) ≤ p'.kvData.length

theorem nKey_ne (x : ℕ) : x + nKey ≠ x ∧ x + nKey ≠ x + nVal := by simp [nKey, nVal]

theorem nVal_ne (x : ℕ) : x + nVal ≠ x := by simp [nVal]

theorem overwritten_nil (h : Represents p L) {x : ℕ} (hx : x ∈ L) (key : Bytes) :
    Overwritten p (p.overwrite x key []) x [] := by
  have hcell := (add_lt_recordEnd p x (by simp [nVal, nNext] : nVal < nNext)).trans_le
    (h.in_bounds x (List.mem_cons_of_mem 0 hx))
  have hdata := h.data x hx
  have hp' : p.overwrite x key [] = { p with
      nodeData := p.nodeData.set (x + nVal) 0
      kvSize := p.kvSize + (0 - p.nodeAt (x + nVal)) } := by
    simp [overwrite]
  have hframe : ∀ j, j ≠ x + nVal → (p.overwrite x key []).nodeAt j = p.nodeAt j := by
    intro j hj
    rw [hp', nodeAt, getD_set_ne hj]
    rfl
  have hval : (p.overwrite x key []).nodeAt (x + nVal) = 0 := by
    rw [hp', nodeAt, getD_set_self hcell]
  have hkv : (p.overwrite x key []).kvData = p.kvData := by rw [hp']
  have hoff := hframe x (nVal_ne x).symm
  have hkl := hframe (x + nKey) (nKey_ne x).2
  refine ⟨by rw [hp'], by rw [hp'], by rw [hp'], by rw [hp']; simp, ⟨[], by simp [hkv]⟩,
    by rw [hp']; simp, fun j _ hj => hframe j hj, by simpa using hval, ?_, ?_, ?_⟩
  · rw [keyOf, keyOf, hkv, hoff, hkl]
  · rw [valOf, hval, List.take_zero]
  · rw [hkv, hval, hoff, hkl]
    omega

theorem overwritten_cons (h : Represents p L) {x : ℕ} (hx : x ∈ L) (hkey : p.keyOf x = key)
    (hv : value.length ≠ 0) : Overwritten p (p.overwrite x key value) x value := by
  have hcell0 := h.lt_length (List.mem_cons_of_mem 0 hx)
  have hcell2 := (add_lt_recordEnd p x (by simp [nVal, nNext] : nVal < nNext)).trans_le
    (h.in_bounds x (List.mem_cons_of_mem 0 hx))
  have hp' : p.overwrite x key value = { p with
      kvData := p.kvData ++ key ++ value
      nodeData := (p.nodeData.set x p.kvData.length).set (x + nVal) value.length
      kvSize := p.kvSize + (value.length - p.nodeAt (x + nVal)) } := by
    simp only [overwrite, ne_eq, hv, not_false_eq_true, if_true, nodeAt, getD_set_ne (nVal_ne x)]
  have hframe : ∀ j, j ≠ x → j ≠ x + nVal → (p.overwrite x key value).nodeAt j = p.nodeAt j := by
    intro j hj hj'
    rw [hp', nodeAt, getD_set_ne hj', getD_set_ne hj]
    rfl
  have hoff : (p.overwrite x key value).nodeAt x = p.kvData.length := by
    rw [hp', nodeAt, getD_set_ne (nVal_ne x).symm, getD_set_self hcell0]
  have hval : (p.overwrite x key value).nodeAt (x + nVal) = value.length := by
    rw [hp', nodeAt, getD_set_self (by rw [List.length_set]; exact hcell2)]
  have hkv : (p.overwrite x key value).kvData = p.kvData ++ (key ++ value) := by
    rw [hp', List.append_assoc]
  have hkl : (p.overwrite x key value).nodeAt (x + nKey) = key.length := by
    rw [hframe _ (nKey_ne x).1 (nKey_ne x).2, ← length_keyOf h hx, hkey]
  refine ⟨by rw [hp'], by rw [hp'], by rw [hp'], by rw [hp'], ⟨_, hkv⟩, by rw [hp']; simp,
    hframe, hval, ?_, ?_, ?_⟩
  · rw [keyOf, hkv, hoff, hkl, List.drop_left, List.take_left, hkey]
  · rw [valOf, hkv, hoff, hkl, hval, ← List.append_assoc, ← List.length_append, List.drop_left, List.take_length]
  · rw [hkv, hoff, hkl, hval, List.length_append, List.length_append]
    omega

theorem overwritten (h : Represents p L) {x : ℕ} (hx : x ∈ L) (hkey : p.keyOf x = key) (value : Bytes) :
    Overwritten p (p.overwrite x key value) x value := by
  by_cases hv : value.length = 0
  · rw [List.length_eq_zero_iff.mp hv]
    exact overwritten_nil h hx key
  · exact overwritten_cons h hx hkey hv

namespace Overwritten
variable {p' : MemDB} {x y : ℕ}

variable (ho : Overwritten p p' x value) (h : Represents p L)
include ho h

section
variable (hx : x ∈ 0 :: L)
include hx

section
variable (hy : y ∈ 0 :: L)
include hy

theorem frame_record (hc : y + c < p.recordEnd y) (hne : y = x → c ≠ 0 ∧ c ≠ nVal) :
    p'.nodeAt (y + c) = p.nodeAt (y + c) := by
  by_cases hyx : y = x
  · obtain ⟨h0, h2⟩ := hne hyx
    exact ho.frame _ (by omega) (by omega)
  · have happ := h.apart x hx y hy (Ne.symm hyx)
    have hxe := add_lt_recordEnd p x (by simp [nVal, nNext] : nVal < nNext)
    exact ho.frame _ (by unfold nVal at *; omega) (by unfold nVal at *; omega)

theorem heightOf_eq : p'.heightOf y = p.heightOf y :=
  ho.frame_record h hx hy (add_lt_recordEnd p y (by simp [nHeight, nNext]))
    fun _ => by simp [nHeight, nVal]

theorem recordEnd_eq : p'.recordEnd y = p.recordEnd y := by
  rw [recordEnd, recordEnd, ho.heightOf_eq h hx hy]

theorem next_eq {l : ℕ} (hl : l < p.heightOf y) : p'.next l y = p.next l y := by
  rw [next, next, Nat.add_assoc]
  exact ho.frame_record h hx hy (by unfold recordEnd; omega) fun _ => by simp [nNext, nVal]; omega

theorem keyLen_eq : p'.nodeAt (y + nKey) = p.nodeAt (y + nKey) :=
  ho.frame_record h hx hy (add_lt_recordEnd p y (by simp [nKey, nNext])) fun _ => by simp [nKey, nVal]

end

theorem cell_eq (hy : y ∈ L) (hne : y ≠ x) (hc : c < nNext) : p'.nodeAt (y + c) = p.nodeAt (y + c) :=
  ho.frame_record h hx (List.mem_cons_of_mem 0 hy) (add_lt_recordEnd p y hc) fun he => absurd he hne

end

variable (hL : L = A ++ x :: B)
include hL

theorem keeps : KeepsEntries p p' (A ++ B) := by
  have hnodup := (List.nodup_cons.mp h.nodup).2
  rw [hL, List.nodup_middle, List.nodup_cons] at hnodup
  have hsub : A ++ B ⊆ L := by
    rw [hL]
    exact List.append_subset.mpr ⟨List.subset_append_left .., fun y hy =>
      List.mem_append_right _ (List.mem_cons_of_mem x hy)⟩
  refine keepsEntries h hsub ho.kvData fun y hy c hc => ?_
  refine ho.cell_eq h (by simp [hL]) (hsub hy) ?_ (hc.trans (by simp [nHeight, nNext]))
  rintro rfl
  exact hnodup.1 hy

theorem keyOf_eq (hy : y ∈ L) : p'.keyOf y = p.keyOf y := by
  rw [hL, List.mem_append, List.mem_cons] at hy
  rcases hy with hy | rfl | hy
  · exact (ho.keeps h hL).keyOf y (List.mem_append_left B hy)
  · exact ho.keyOf
  · exact (ho.keeps h hL).keyOf y (List.mem_append_right A hy)

theorem size : p'.kvSize = (L.map fun y => (p'.nodeAt (y + nKey) + p'.nodeAt (y + nVal) : ℤ)).sum := by
  have hkeeps := ho.keeps h hL
  have hsizeA := (hkeeps.subset (List.subset_append_left A B)).sizes
  have hsizeB := (hkeeps.subset (List.subset_append_right A B)).sizes
  have hkeyLen := ho.keyLen_eq h (by simp [hL]) (by simp [hL] : x ∈ 0 :: L)
  have hsize := h.size
  rw [hL] at hsize ⊢
  simp only [List.map_append, List.map_cons, List.sum_append, List.sum_cons, hsizeA, hsizeB, hkeyLen,
    ho.valLen, ho.kvSize] at hsize ⊢
  omega

theorem represents : Represents p' L := by
  have hx : x ∈ 0 :: L := by simp [hL]
  refine
    { maxHeight_pos := ho.maxHeight ▸ h.maxHeight_pos
      maxHeight_le := ho.maxHeight ▸ h.maxHeight_le
      prevNode_length := ho.prevNode ▸ h.prevNode_length
      head_height := (ho.heightOf_eq h hx (List.mem_cons_self ..)).trans h.head_height
      heights := ?_
      in_bounds := ?_
      nodup := h.nodup
      apart := ?_
      linked := fun l hl => linked_congr h hl (fun y hy => ho.heightOf_eq h hx hy)
        fun y hy => ho.next_eq h hx hy
      sorted := ?_
      data := ?_
      count := ho.n.trans h.count
      size := ho.size h hL }
  · intro y hy
    rw [ho.heightOf_eq h hx (List.mem_cons_of_mem 0 hy), ho.maxHeight]
    exact h.heights y hy
  · intro y hy
    rw [ho.recordEnd_eq h hx hy, ho.length]
    exact h.in_bounds y hy
  · intro y hy z hz hne
    rw [ho.recordEnd_eq h hx hy, ho.recordEnd_eq h hx hz]
    exact h.apart y hy z hz hne
  · refine h.sorted.imp_of_mem fun hy hz hlt => ?_
    rw [ho.keyOf_eq h hL hy, ho.keyOf_eq h hL hz, hlt]
  · intro y hy
    by_cases hne : y = x
    · rw [hne]
      exact ho.data
    · obtain ⟨ext, hext⟩ := ho.kvData
      have hoff := ho.cell_eq h hx hy hne (by simp [nNext] : 0 < nNext)
      have hval := ho.cell_eq h hx hy hne (by simp [nVal, nNext] : nVal < nNext)
      rw [Nat.add_zero] at hoff
      rw [hoff, ho.keyLen_eq h hx (List.mem_cons_of_mem 0 hy), hval, hext, List.length_append]
      exact (h.data y hy).trans (Nat.le_add_right _ _)

theorem entries_eq : p'.entries L = p.entries A ++ (p.keyOf x, value) :: p.entries B := by
  have hkeeps := ho.keeps h hL
  rw [hL, entries_append, entries_cons, (hkeeps.subset (List.subset_append_left A B)).entries,
    (hkeeps.subset (List.subset_append_right A B)).entries, ho.keyOf, ho.valOf]

end Overwritten

/-! ## Linking a new record in -/

/-- The old links are appended to the array, and each is replaced by a link to the new node. -/
theorem spliceLoop_eq (node : ℕ) : ∀ (ms nd tail : List ℕ), ms.Nodup → (∀ m ∈ ms, m < nd.length) →
    spliceLoop node ms (nd ++ tail) = ms.foldl (fun b m => b.set m node) nd ++ (tail ++ ms.map fun m => nd.getD m 0)
  | [], nd, tail, _, _ => by simp [spliceLoop]
  | m :: ms, nd, tail, hnodup, hlt => by
    obtain ⟨hm, hms⟩ := List.nodup_cons.mp hnodup
    have hmlt := hlt m (List.mem_cons_self ..)
    have hstep : (nd ++ tail ++ [(nd ++ tail).getD m 0]).set m node = nd.set m node ++ (tail ++ [nd.getD m 0]) := by
      rw [List.append_assoc, List.set_append_left _ _ hmlt]
      congr 3
      simp [List.getD_eq_getElem?_getD, List.getElem?_append_left hmlt]
    have hmap : ms.map (fun m' => (nd.set m node).getD m' 0) = ms.map fun m' => nd.getD m' 0 :=
      List.map_congr_left fun m' hm' => getD_set_ne fun he => hm (he ▸ hm')
    rw [spliceLoop, hstep, spliceLoop_eq node ms _ _ hms
      (fun m' hm' => by rw [List.length_set]; exact hlt m' (List.mem_cons_of_mem m hm')), hmap,
      List.foldl_cons]
    simp

theorem randHeightFrom_bounds (rnd : Rand) : ∀ k h : ℕ, h ≤ randHeightFrom rnd k h ∧ randHeightFrom rnd k h ≤ h + k
  | 0, h => by simp [randHeightFrom]
  | k + 1, h => by
    rw [randHeightFrom]
    split
    · have := randHeightFrom_bounds rnd k (h + 1)
      omega
    · omega

theorem randHeight_bounds (rnd : Rand) : 1 ≤ randHeight rnd ∧ randHeight rnd ≤ tMaxHeight := by
  have := randHeightFrom_bounds rnd (tMaxHeight - 1) 1
  unfold randHeight
  unfold tMaxHeight at *
  omega

/-- The table has room for a node of height `l` behind the nodes `A`: it knows the last of them on
every level below `l`. -/
structure Ready (p : MemDB) (L A : List ℕ) (l : ℕ) : Prop where
  represents : Represents p L
  height_pos : 1 ≤ l
  height_le : l ≤ p.maxHeight
  last : ∀ i < l, p.LastOn A i (p.prevNode.getD i 0)

theorem lastOn_new_level (h : Represents p L) (hA : A ⊆ L) (hi : p.maxHeight ≤ i)
    (hi' : i < tMaxHeight) : p.LastOn A i 0 := by
  have hnone : A.filter (p.onLevel i) = [] := by
    rw [List.filter_eq_nil_iff]
    intro x hx hlev
    have := (h.heights x (hA hx)).2
    have := onLevel_eq_true.mp hlev
    omega
  refine ⟨[], ?_⟩
  rw [List.filter_cons_of_pos (onLevel_eq_true.mpr (by rw [h.head_height]; exact hi')), hnone]
  rfl

theorem ready_raise (h : Represents p L) (hA : A ⊆ L)
    (hlast : ∀ i < p.maxHeight, p.LastOn A i (p.prevNode.getD i 0)) {l : ℕ} (hl : 1 ≤ l)
    (hl' : l ≤ tMaxHeight) : Ready (p.raise l) L A l := by
  rw [raise]
  split
  · next hgt =>
    have hlen : ((List.range' p.maxHeight (l - p.maxHeight)).foldl (fun pn i => pn.set i 0)
        p.prevNode).length = tMaxHeight := by
      rw [length_foldl_set, h.prevNode_length]
    refine ⟨?_, hl, le_rfl, ?_⟩
    · exact
        { h with
          maxHeight_pos := hl
          maxHeight_le := hl'
          prevNode_length := hlen
          heights := fun x hx => ⟨(h.heights x hx).1, le_trans (h.heights x hx).2 (le_of_lt hgt)⟩ }
    · intro i hi
      show p.LastOn A i _
      rw [getD_foldl_set]
      split
      · next hmem =>
        have := List.mem_range'_1.mp hmem.1
        exact lastOn_new_level h hA (by omega) (by omega)
      · next hmem =>
        have hplen := h.prevNode_length
        have hi' : i < p.maxHeight := by
          by_contra hge
          exact hmem ⟨List.mem_range'_1.mpr ⟨by omega, by omega⟩, by omega⟩
        exact hlast i hi'
  · next hle => exact ⟨h, hl, by omega, fun i hi => hlast i (by omega)⟩

namespace Ready
variable {l : ℕ} (hr : Ready p L A l)
include hr

theorem mem_prev (hi : i < l) : p.prevNode.getD i 0 ∈ 0 :: A ∧ i < p.heightOf (p.prevNode.getD i 0) := by
  obtain ⟨C, hC⟩ := hr.last i hi
  have hmem : p.prevNode.getD i 0 ∈ (0 :: A).filter (p.onLevel i) := by
    rw [hC]
    simp
  obtain ⟨hmem, hlev⟩ := List.mem_filter.mp hmem
  exact ⟨hmem, onLevel_eq_true.mp hlev⟩

variable (hA : A ⊆ L)
include hA

/-- A link to the new node is the link of its level, in the record of the last node before it. -/
theorem link_eq {x : ℕ} (hi : i < l) (hx : x ∈ 0 :: L)
    (hc : x + c < p.recordEnd x) (heq : x + c = p.prevNode.getD i 0 + nNext + i) :
    x = p.prevNode.getD i 0 ∧ c = nNext + i := by
  obtain ⟨hmem, hlev⟩ := hr.mem_prev hi
  have hmem' : p.prevNode.getD i 0 ∈ 0 :: L := List.cons_subset_cons 0 hA hmem
  by_cases hne : x = p.prevNode.getD i 0
  · exact ⟨hne, by omega⟩
  · exfalso
    have happ := hr.represents.apart x hx _ hmem' hne
    unfold recordEnd at *
    omega

theorem link_lt {m : ℕ} (hm : m ∈ linkPositions p.prevNode l) : m < p.nodeData.length := by
  obtain ⟨i, hi, rfl⟩ := List.mem_map.mp hm
  obtain ⟨hmem, hlev⟩ := hr.mem_prev (List.mem_range.mp hi)
  have := hr.represents.in_bounds _ (List.cons_subset_cons 0 hA hmem)
  unfold recordEnd at this
  omega

theorem links_nodup : (linkPositions p.prevNode l).Nodup := by
  refine List.Nodup.map_on ?_ List.nodup_range
  intro i hi j hj heq
  have hi := List.mem_range.mp hi
  have hj := List.mem_range.mp hj
  obtain ⟨hmem, hlev⟩ := hr.mem_prev hi
  have := hr.link_eq hA hj (List.cons_subset_cons 0 hA hmem) (c := nNext + i)
    (by unfold recordEnd; omega) (by omega)
  omega

end Ready

/-- What linking in the record of a new node does to the table. -/
structure Inserted (p p' : MemDB) (A : List ℕ) (l : ℕ) (key value : Bytes) : Prop where
  prevNode : p'.prevNode = p.prevNode
  maxHeight : p'.maxHeight = p.maxHeight
  n : p'.n = p.n + 1
  kvSize : p'.kvSize = p.kvSize + (key.length + value.length)
  kvData : p'.kvData = p.kvData ++ (key ++ value)
  length : p'.nodeData.length = p.nodeData.length + nNext + l
  old : ∀ j < p.nodeData.length, j ∉ linkPositions p.prevNode l → p'.nodeAt j = p.nodeAt j
  relinked : ∀ i < l, p'.next i (p.prevNode.getD i 0) = p.nodeData.length
  offset : p'.nodeAt p.nodeData.length = p.kvData.length
  keyLen : p'.nodeAt (p.nodeData.length + nKey) = key.length
  valLen : p'.nodeAt (p.nodeData.length + nVal) = value.length
  height : p'.heightOf p.nodeData.length = l
  links : ∀ i < l, p'.next i p.nodeData.length = p.next i (p.prevNode.getD i 0)

theorem inserted {l : ℕ} (hr : Ready p L A l) (hA : A ⊆ L) (key value : Bytes) : Inserted p { p with
      kvData := p.kvData ++ key ++ value
      nodeData := spliceLoop p.nodeData.length (linkPositions p.prevNode l)
        (p.nodeData ++ [p.kvData.length, key.length, value.length, l])
      kvSize := p.kvSize + (key.length + value.length)
      n := p.n + 1 } A l key value := by
  have hnd := spliceLoop_eq p.nodeData.length (linkPositions p.prevNode l) p.nodeData
    [p.kvData.length, key.length, value.length, l] (hr.links_nodup hA) fun m => hr.link_lt hA
  have hlen := length_foldl_set p.nodeData.length (linkPositions p.prevNode l) p.nodeData
  have hleft : ∀ j < p.nodeData.length, (spliceLoop p.nodeData.length (linkPositions p.prevNode l)
        (p.nodeData ++ [p.kvData.length, key.length, value.length, l])).getD j 0 =
      if j ∈ linkPositions p.prevNode l then p.nodeData.length else p.nodeAt j := by
    intro j hj
    rw [hnd, getD_append_left (by omega), getD_foldl_set]
    simp [hj, nodeAt]
  have hright : ∀ j, (spliceLoop p.nodeData.length (linkPositions p.prevNode l)
        (p.nodeData ++ [p.kvData.length, key.length, value.length, l])).getD (p.nodeData.length + j) 0 =
      ([p.kvData.length, key.length, value.length, l] ++
        (linkPositions p.prevNode l).map fun m => p.nodeData.getD m 0).getD j 0 := by
    intro j
    have h := getD_append_right (d := 0)
      ((linkPositions p.prevNode l).foldl (fun b m => b.set m p.nodeData.length) p.nodeData)
      ([p.kvData.length, key.length, value.length, l] ++
        (linkPositions p.prevNode l).map fun m => p.nodeData.getD m 0) j
    rw [hlen] at h
    rw [hnd, h]
  refine
    { prevNode := rfl
      maxHeight := rfl
      n := rfl
      kvSize := rfl
      kvData := List.append_assoc ..
      length := ?_
      old := ?_
      relinked := ?_
      offset := hright 0
      keyLen := hright 1
      valLen := hright 2
      height := hright 3
      links := ?_ }
  · show (spliceLoop _ _ _).length = _
    rw [hnd, List.length_append, hlen]
    simp [linkPositions, nNext]
    omega
  · intro j hj hnot
    exact (hleft j hj).trans (if_neg hnot)
  · intro i hi
    have hm : p.prevNode.getD i 0 + nNext + i ∈ linkPositions p.prevNode l :=
      List.mem_map.mpr ⟨i, List.mem_range.mpr hi, rfl⟩
    exact (hleft _ (hr.link_lt hA hm)).trans (if_pos hm)
  · intro i hi
    show (spliceLoop _ _ _).getD _ 0 = _
    rw [Nat.add_assoc, hright]
    refine (getD_append_right [p.kvData.length, key.length, value.length, l] _ i).trans ?_
    simp [linkPositions, List.getD_eq_getElem?_getD, hi, next, nodeAt]

theorem SplitAt.key_gt (hs : SplitAt p L key A B) (h : Represents p L) (hnew : p.headIs key B = false)
    {y : ℕ} (hy : y ∈ B) : compare (p.keyOf y) key = .gt := by
  cases hc : compare (p.keyOf y) key with
  | lt => exact absurd hc (hs.behind y hy)
  | eq =>
    rw [(hs.head_eq h hy hc).2] at hnew
    exact absurd hnew (by simp)
  | gt => rfl

namespace Inserted
variable {p' : MemDB} {l y : ℕ}

theorem nodup (hr : Ready p L A l) (hs : SplitAt p L key A B) : (0 :: (A ++ p.nodeData.length :: B)).Nodup := by
  have hperm : (0 :: (A ++ p.nodeData.length :: B)).Perm (p.nodeData.length :: 0 :: L) := by
    rw [hs.eq]
    exact (List.perm_middle.cons 0).trans (List.Perm.swap ..)
  rw [hperm.nodup_iff, List.nodup_cons]
  exact ⟨fun hmem => (hr.represents.lt_length hmem).ne rfl, hr.represents.nodup⟩

variable (hi : Inserted p p' A l key value)
include hi

theorem keyOf_new : p'.keyOf p.nodeData.length = key := by
  rw [keyOf, hi.kvData, hi.offset, hi.keyLen, List.drop_left, List.take_left]

theorem valOf_new : p'.valOf p.nodeData.length = value := by
  rw [valOf, hi.kvData, hi.offset, hi.keyLen, hi.valLen, ← List.append_assoc, ← List.length_append,
    List.drop_left, List.take_length]

theorem recordEnd_new : p'.recordEnd p.nodeData.length = p'.nodeData.length := by
  rw [recordEnd, hi.height, hi.length]

variable (hr : Ready p L A l)
include hr

section
variable (hA : A ⊆ L)
include hA

section
variable (hy : y ∈ 0 :: L)
include hy

theorem frame
    (hc : y + c < p.recordEnd y) (hlink : ∀ i < l, y = p.prevNode.getD i 0 → c ≠ nNext + i) :
    p'.nodeAt (y + c) = p.nodeAt (y + c) := by
  refine hi.old _ (lt_of_lt_of_le hc (hr.represents.in_bounds y hy)) ?_
  intro hm
  obtain ⟨i, hil, heq⟩ := List.mem_map.mp hm
  have hil := List.mem_range.mp hil
  obtain ⟨hyi, hci⟩ := hr.link_eq hA hil hy hc heq.symm
  exact hlink i hil hyi hci

theorem cell_eq (hc : c < nNext) : p'.nodeAt (y + c) = p.nodeAt (y + c) :=
  hi.frame hr hA hy (add_lt_recordEnd p y hc) fun i _ _ => by omega

theorem heightOf_eq : p'.heightOf y = p.heightOf y :=
  hi.cell_eq hr hA hy (by simp [nHeight, nNext])

theorem recordEnd_eq : p'.recordEnd y = p.recordEnd y := by
  rw [recordEnd, recordEnd, hi.heightOf_eq hr hA hy]

theorem next_eq (hiy : i < p.heightOf y) (hne : i < l → y ≠ p.prevNode.getD i 0) : p'.next i y = p.next i y := by
  rw [next, next, Nat.add_assoc]
  refine hi.frame hr hA hy (by unfold recordEnd; omega) ?_
  intro j hj hyj hcj
  obtain rfl : i = j := by omega
  exact hne hj hyj

end

theorem keeps : KeepsEntries p p' L :=
  keepsEntries hr.represents (List.Subset.refl L) ⟨_, hi.kvData⟩ fun _ hy _ hc =>
    hi.cell_eq hr hA (List.mem_cons_of_mem 0 hy) (hc.trans (by simp [nHeight, nNext]))

theorem apart {z : ℕ}
    (hy : y = p.nodeData.length ∨ y ∈ 0 :: L) (hz : z = p.nodeData.length ∨ z ∈ 0 :: L) (hne : y ≠ z) :
    p'.recordEnd y ≤ z ∨ p'.recordEnd z ≤ y := by
  rcases hy with rfl | hy
  · rcases hz with rfl | hz
    · exact absurd rfl hne
    · rw [hi.recordEnd_eq hr hA hz]
      exact Or.inr (hr.represents.in_bounds z hz)
  · rw [hi.recordEnd_eq hr hA hy]
    rcases hz with rfl | hz
    · exact Or.inl (hr.represents.in_bounds y hy)
    · rw [hi.recordEnd_eq hr hA hz]
      exact hr.represents.apart y hy z hz hne

theorem data (hy : y = p.nodeData.length ∨ y ∈ L) :
    p'.nodeAt y + p'.nodeAt (y + nKey) + p'.nodeAt (y + nVal) ≤ p'.kvData.length := by
  rw [hi.kvData, List.length_append, List.length_append]
  rcases hy with rfl | hy
  · rw [hi.offset, hi.keyLen, hi.valLen]
    omega
  · have hkeeps := hi.keeps hr hA
    have hoff := hi.cell_eq hr hA (List.mem_cons_of_mem 0 hy) (by simp [nNext] : 0 < nNext)
    rw [Nat.add_zero] at hoff
    rw [hoff, hkeeps.keyLen y hy, hkeeps.valLen y hy]
    exact (hr.represents.data y hy).trans (Nat.le_add_right _ _)

end

variable (hs : SplitAt p L key A B)
include hs

theorem linked (hil : i < tMaxHeight) : Linked (p'.next i) 0 ((0 :: (A ++ p.nodeData.length :: B)).filter (p'.onLevel i)) := by
  have hA := hs.subset_left
  have hL : 0 :: L = (0 :: A) ++ B := by rw [hs.eq, List.cons_append]
  have hcongr : ∀ xs ⊆ 0 :: L, xs.filter (p'.onLevel i) = xs.filter (p.onLevel i) := fun xs hxs =>
    List.filter_congr fun y hy => by rw [onLevel, onLevel, hi.heightOf_eq hr hA (hxs hy)]
  have hsubA : 0 :: A ⊆ 0 :: L := hL ▸ List.subset_append_left (0 :: A) B
  have hsubB : B ⊆ 0 :: L := hL ▸ List.subset_append_right (0 :: A) B
  have hsplit : (0 :: (A ++ p.nodeData.length :: B)).filter (p'.onLevel i) =
      (0 :: A).filter (p.onLevel i) ++ (p.nodeData.length :: B).filter (p'.onLevel i) := by
    rw [← List.cons_append, List.filter_append, hcongr _ hsubA]
  have hold := hr.represents.linked i hil
  rw [hL, List.filter_append] at hold
  have hnodup := hr.represents.nodup.filter (p.onLevel i)
  rw [hL, List.filter_append] at hnodup
  rw [hsplit]
  by_cases hlt : i < l
  · -- the new node is on this level: it comes behind the last smaller key
    obtain ⟨C, hC⟩ := hr.last i hlt
    have hon : p'.onLevel i p.nodeData.length = true := by rwa [onLevel_eq_true, hi.height]
    rw [List.filter_cons_of_pos hon, hcongr B hsubB, hC, List.append_assoc, List.singleton_append]
    rw [hC, List.append_assoc, List.singleton_append] at hold hnodup
    refine hold.splice hnodup (hi.relinked i hlt) (hi.links i hlt) ?_
    intro y hy hne
    have hy' : y ∈ (0 :: L).filter (p.onLevel i) := by
      rw [hL, List.filter_append, hC, List.append_assoc, List.singleton_append]
      exact hy
    obtain ⟨hyL, hlev⟩ := List.mem_filter.mp hy'
    exact hi.next_eq hr hA hyL (onLevel_eq_true.mp hlev) fun _ => hne
  · have hoff : ¬ p'.onLevel i p.nodeData.length = true := by rwa [onLevel_eq_true, hi.height]
    rw [List.filter_cons_of_neg hoff, hcongr B hsubB]
    refine hold.congr fun y hy => ?_
    rw [← List.filter_append, ← hL] at hy
    obtain ⟨hyL, hlev⟩ := List.mem_filter.mp hy
    exact hi.next_eq hr hA hyL (onLevel_eq_true.mp hlev) fun h => absurd h hlt

theorem sorted (hnew : p.headIs key B = false) :
    (A ++ p.nodeData.length :: B).Pairwise fun x y => compare (p'.keyOf x) (p'.keyOf y) = .lt := by
  have hA := hs.subset_left
  have hB := hs.subset_right
  have hkeeps := hi.keeps hr hA
  have hsort := hkeeps.sorted hr.represents.sorted
  rw [hs.eq, List.pairwise_append] at hsort
  obtain ⟨hsA, hsB, hAB⟩ := hsort
  refine List.pairwise_append.mpr ⟨hsA, List.pairwise_cons.mpr ⟨?_, hsB⟩, ?_⟩
  · intro y hy
    rw [hi.keyOf_new, hkeeps.keyOf y (hB hy)]
    exact Std.OrientedCmp.lt_of_gt (hs.key_gt hr.represents hnew hy)
  · intro y hy z hz
    rcases List.mem_cons.mp hz with rfl | hz
    · rw [hi.keyOf_new, hkeeps.keyOf y (hA hy)]
      exact hs.before y hy
    · exact hAB y hy z hz

theorem size :
    p'.kvSize = ((A ++ p.nodeData.length :: B).map fun y =>
      (p'.nodeAt (y + nKey) + p'.nodeAt (y + nVal) : ℤ)).sum := by
  have hA := hs.subset_left
  have hkeeps := hi.keeps hr hA
  have hsizeA := (hkeeps.subset hA).sizes
  have hsizeB := (hkeeps.subset hs.subset_right).sizes
  have hsize := hr.represents.size
  rw [hs.eq] at hsize
  simp only [List.map_append, List.map_cons, List.sum_append, List.sum_cons, hsizeA, hsizeB, hi.keyLen,
    hi.valLen, hi.kvSize] at hsize ⊢
  omega

theorem represents (hnew : p.headIs key B = false) : Represents p' (A ++ p.nodeData.length :: B) := by
  have h := hr.represents
  have hA := hs.subset_left
  have hnode : ∀ y ∈ A ++ p.nodeData.length :: B, y = p.nodeData.length ∨ y ∈ L := by
    intro y hy
    rw [hs.eq]
    simp only [List.mem_cons, List.mem_append] at hy ⊢
    tauto
  have hmem : ∀ y ∈ 0 :: (A ++ p.nodeData.length :: B), y = p.nodeData.length ∨ y ∈ 0 :: L := by
    intro y hy
    rcases List.mem_cons.mp hy with rfl | hy
    · exact Or.inr (List.mem_cons_self ..)
    · exact (hnode y hy).imp_right (List.mem_cons_of_mem 0)
  refine
    { maxHeight_pos := hi.maxHeight ▸ h.maxHeight_pos
      maxHeight_le := hi.maxHeight ▸ h.maxHeight_le
      prevNode_length := hi.prevNode ▸ h.prevNode_length
      head_height := (hi.heightOf_eq hr hA (List.mem_cons_self ..)).trans h.head_height
      heights := ?_
      in_bounds := ?_
      nodup := nodup hr hs
      apart := fun y hy z hz => hi.apart hr hA (hmem y hy) (hmem z hz)
      linked := fun i hil => hi.linked hr hs hil
      sorted := hi.sorted hr hs hnew
      data := fun y hy => hi.data hr hA (hnode y hy)
      count := ?_
      size := hi.size hr hs }
  · intro y hy
    rw [hi.maxHeight]
    rcases hnode y hy with rfl | hyL
    · rw [hi.height]
      exact ⟨hr.height_pos, hr.height_le⟩
    · rw [hi.heightOf_eq hr hA (List.mem_cons_of_mem 0 hyL)]
      exact h.heights y hyL
  · intro y hy
    rcases hmem y hy with rfl | hyL
    · exact hi.recordEnd_new.le
    · rw [hi.recordEnd_eq hr hA hyL, hi.length]
      have := h.in_bounds y hyL
      omega
  · rw [hi.n, h.count, hs.eq]
    simp
    omega

theorem entries_eq : p'.entries (A ++ p.nodeData.length :: B) = p.entries A ++ (key, value) :: p.entries B := by
  have hA := hs.subset_left
  have hkeeps := hi.keeps hr hA
  rw [entries_append, entries_cons, (hkeeps.subset hA).entries,
    (hkeeps.subset hs.subset_right).entries, hi.keyOf_new, hi.valOf_new]

end Inserted

end
end Web3.Storage.MemDB
