import Web3.Storage.SkipListPut

/-! # The table as a sorted map

What a `MemDB` stands for is the list of pairs `ForEach` visits: strictly increasing keys, each with
its last written value, the empty value for a deleted key. `Valid` is kept by every operation, and
each operation is one on sorted association lists. -/

namespace Web3.Storage.MemDB

def Valid (p : MemDB) : Prop := ∃ L, Represents p L

section
variable {p : MemDB} {L A B : List ℕ} {key value : Bytes}

/-! ## ForEach -/

theorem forEachLoop_eq (h : Represents p L) : ∀ (fuel : ℕ) (pre rest : List ℕ),
    L = pre ++ rest → rest.length < fuel → p.forEachLoop fuel (rest.headD 0) = p.entries rest
  | 0, _, _, _, hfuel => by omega
  | fuel + 1, pre, [], hL, hfuel => by simp [forEachLoop, entries]
  | fuel + 1, pre, x :: rest, hL, hfuel => by
    have hx : x ≠ 0 := h.ne_zero (by simp [hL])
    have hpos := (h.heights x (by simp [hL])).1
    have hnext := h.next_eq (0 :: pre) rest x (by rw [hL, List.cons_append])
      (l := 0) (by simp [tMaxHeight]) (by omega)
    rw [h.filter_onLevel_zero (fun y hy => by simp [hL, hy])] at hnext
    rw [List.headD_cons, forEachLoop, if_neg hx, hnext,
      forEachLoop_eq h fuel (pre ++ [x]) rest (by simp [hL]) (by simp at hfuel; omega)]
    rfl

theorem forEach_eq (h : Represents p L) : p.forEach = p.entries L := by
  have hhead := h.head_height
  have hnext := h.next_eq [] L 0 rfl (l := 0) (by simp [tMaxHeight])
    (by rw [hhead]; simp [tMaxHeight])
  rw [h.filter_onLevel_zero (fun y hy => hy)] at hnext
  rw [forEach, hnext]
  exact forEachLoop_eq h _ [] L rfl h.length_lt

theorem Valid.sorted (hv : p.Valid) : KeysSorted p.forEach := by
  obtain ⟨L, h⟩ := hv
  rw [forEach_eq h]
  exact entries_sorted h

theorem Valid.nodup_keys (hv : p.Valid) : (p.forEach.map Prod.fst).Nodup := hv.sorted.nodup_keys

/-! ## Reading -/

theorem lookup_before (hs : SplitAt p L key A B) (kvs : List (Bytes × Bytes)) :
    (p.entries A ++ kvs).lookup key = kvs.lookup key := by
  have hA := hs.before
  clear hs
  induction A with
  | nil => rfl
  | cons x A ih =>
    have hx := hA x (List.mem_cons_self ..)
    have hne : key ≠ p.keyOf x := by
      rintro rfl
      simp at hx
    rw [entries_cons, List.cons_append, List.lookup_cons, beq_false_of_ne hne]
    exact ih fun y hy => hA y (List.mem_cons_of_mem x hy)

theorem lookup_behind (h : Represents p L) (hs : SplitAt p L key A B) :
    (p.entries B).lookup key = if p.headIs key B then some (p.valOf (B.headD 0)) else none := by
  cases hB : p.headIs key B with
  | true =>
    cases B with
    | nil => simp [headIs] at hB
    | cons x B =>
      have heq : p.keyOf x = key := by simpa [headIs] using hB
      rw [entries_cons, heq]
      simp
  | false =>
    rw [if_neg (by simp), lookup_eq_none_iff_not_mem]
    intro hmem
    obtain ⟨kv, hkv, heq⟩ := List.mem_map.mp hmem
    obtain ⟨x, hx, rfl⟩ := List.mem_map.mp hkv
    have heq' : compare (p.keyOf x) key = .eq := Std.LawfulEqCmp.compare_eq_iff_eq.mpr heq
    rw [(hs.head_eq h hx heq').2] at hB
    exact absurd hB (by simp)

/-- The answer of `Get` for what is stored under a key. -/
def answer : Option Bytes → Bytes × Bool
  | some v => (v, false)
  | none => ([], true)

theorem ite_valOf (p : MemDB) (x : ℕ) : (if p.nodeAt (x + nVal) ≠ 0 then p.valOf x else []) = p.valOf x := by
  split
  · rfl
  · next hlen => rw [valOf, not_not.mp hlen, List.take_zero]

theorem Valid.get_eq (hv : p.Valid) (key : Bytes) : p.get key = answer (p.forEach.lookup key) := by
  obtain ⟨L, h⟩ := hv
  obtain ⟨A, B, hs⟩ := exists_splitAt h key
  obtain ⟨pn, hfind, -, -⟩ := findGE_eq h hs false
  rw [forEach_eq h, hs.eq, entries_append, lookup_before hs, lookup_behind h hs, get, hfind]
  cases hB : p.headIs key B with
  | false => rfl
  | true =>
    show (if p.nodeAt (B.headD 0 + nVal) ≠ 0 then (p.valOf (B.headD 0), false) else ([], false)) =
      (p.valOf (B.headD 0), false)
    rw [← ite_valOf p (B.headD 0)]
    split <;> rfl

/-! ## Writing -/

theorem upsert_behind (h : Represents p L) (hs : SplitAt p L key A B) (hnew : p.headIs key B = false) :
    upsert key value (p.entries B) = (key, value) :: p.entries B := by
  cases B with
  | nil => rfl
  | cons x B =>
    rw [entries_cons, upsert, hs.key_gt h hnew (List.mem_cons_self ..)]

variable {x : ℕ}

theorem upsert_head (heq : p.keyOf x = key) :
    upsert key value (p.entries (x :: B)) = (key, value) :: p.entries B := by
  have hself : compare key key = .eq := Std.LawfulEqCmp.compare_eq_iff_eq.mpr rfl
  rw [entries_cons, heq, upsert, hself]

theorem upsert_entries (hs : SplitAt p L key A B) :
    upsert key value (p.entries L) = p.entries A ++ upsert key value (p.entries B) := by
  rw [hs.eq, entries_append]
  refine upsert_append ?_ _
  intro kv hkv
  obtain ⟨x, hx, rfl⟩ := List.mem_map.mp hkv
  exact hs.before x hx

/-- `p'` is `p` after a write: its nodes are those of `p`, with their keys, and at most one more. -/
structure Updated (p p' : MemDB) (L : List ℕ) (key value : Bytes) (L' : List ℕ) : Prop where
  represents : Represents p' L'
  nodes : L ⊆ L'
  keyOf : ∀ x ∈ L, p'.keyOf x = p.keyOf x
  entries : p'.entries L' = upsert key value (p.entries L)

theorem updated_overwrite (h : Represents p L) (hs : SplitAt p L key A (x :: B))
    (heq : p.keyOf x = key) : Updated p (p.overwrite x key value) L key value L := by
  have hx : x ∈ L := by simp [hs.eq]
  have ho := overwritten h hx heq value
  refine ⟨ho.represents h hs.eq, List.Subset.refl L, fun y hy => ho.keyOf_eq h hs.eq hy, ?_⟩
  rw [ho.entries_eq h hs.eq, upsert_entries hs, upsert_head heq, heq]

theorem raise_data (p : MemDB) (l : ℕ) : (p.raise l).kvData = p.kvData ∧ (p.raise l).nodeData = p.nodeData := by
  rw [raise]
  split <;> exact ⟨rfl, rfl⟩

theorem keyOf_raise (p : MemDB) (l x : ℕ) : (p.raise l).keyOf x = p.keyOf x := by
  simp only [keyOf, nodeAt, (raise_data p l).1, (raise_data p l).2]

theorem entries_raise (p : MemDB) (l : ℕ) (L : List ℕ) : (p.raise l).entries L = p.entries L := by
  simp only [entries, keyOf, valOf, nodeAt, (raise_data p l).1, (raise_data p l).2]

theorem updated_insert (h : Represents p L) (hs : SplitAt p L key A B)
    (hlast : ∀ i < p.maxHeight, p.LastOn A i (p.prevNode.getD i 0)) (hnew : p.headIs key B = false)
    {l : ℕ} (hl : 1 ≤ l) (hl' : l ≤ tMaxHeight) :
    Updated p (p.insert l key value) L key value (A ++ (p.raise l).nodeData.length :: B) := by
  have hA := hs.subset_left
  have hr := ready_raise h hA hlast hl hl'
  have hs' : SplitAt (p.raise l) L key A B := by
    refine ⟨hs.eq, fun x hx => ?_, fun x hx => ?_⟩
    · rw [keyOf_raise]
      exact hs.before x hx
    · rw [keyOf_raise]
      exact hs.behind x hx
  have hnew' : (p.raise l).headIs key B = false := by
    simpa only [headIs, keyOf_raise] using hnew
  have hi := inserted hr hA key value
  refine ⟨hi.represents hr hs' hnew', ?_, fun x hx => ?_, ?_⟩
  · intro x hx
    rw [hs.eq] at hx
    simp only [List.mem_append, List.mem_cons] at hx ⊢
    tauto
  · exact ((hi.keeps hr hA).keyOf x hx).trans (keyOf_raise p l x)
  · rw [upsert_entries hs, upsert_behind h hs hnew, ← entries_raise p l A, ← entries_raise p l B]
    exact hi.entries_eq hr hs'

/-- **`Put` is a write to the sorted map**, whatever height the generator yields. -/
theorem exists_updated (h : Represents p L) (rnd : Rand) (key value : Bytes) :
    ∃ L', Updated p (p.put rnd key value) L key value L' := by
  obtain ⟨A, B, hs⟩ := exists_splitAt h key
  obtain ⟨pn, hfind, hpn, hlast⟩ := findGE_eq h hs true
  have hq : Represents { p with prevNode := pn } L := { h with prevNode_length := hpn }
  have hsq : SplitAt { p with prevNode := pn } L key A B := ⟨hs.eq, hs.before, hs.behind⟩
  rw [put, hfind]
  cases hB : p.headIs key B with
  | true =>
    cases B with
    | nil => simp [headIs] at hB
    | cons x B =>
      have heq : p.keyOf x = key := by simpa [headIs] using hB
      have hu : Updated _ (MemDB.overwrite _ x key value) _ key value _ := updated_overwrite hq hsq heq
      exact ⟨L, hu.represents, hu.nodes, hu.keyOf, hu.entries⟩
  | false =>
    obtain ⟨hpos, hle⟩ := randHeight_bounds rnd
    have hu : Updated _ (MemDB.insert _ _ key value) _ key value _ :=
      updated_insert hq hsq (hlast rfl) hB hpos hle
    exact ⟨_, hu.represents, hu.nodes, hu.keyOf, hu.entries⟩

theorem Valid.put (hv : p.Valid) (rnd : Rand) (key value : Bytes) :
    (p.put rnd key value).Valid ∧ (p.put rnd key value).forEach = upsert key value p.forEach := by
  obtain ⟨L, h⟩ := hv
  obtain ⟨L', hu⟩ := exists_updated h rnd key value
  refine ⟨⟨L', hu.represents⟩, ?_⟩
  rw [forEach_eq hu.represents, forEach_eq h, hu.entries]

/-! ## Empty tables -/

theorem represents_new : Represents newMemDB [] := by
  refine
    { maxHeight_pos := by decide
      maxHeight_le := by decide
      prevNode_length := by decide
      head_height := by decide
      heights := by simp
      in_bounds := by decide
      nodup := by simp
      apart := by simp
      linked := ?_
      sorted := List.Pairwise.nil
      data := by simp
      count := rfl
      size := rfl }
  intro h hh
  have hon : newMemDB.onLevel h 0 = true := onLevel_eq_true.mpr hh
  rw [List.filter_cons_of_pos hon]
  unfold tMaxHeight at hh
  show newMemDB.next h 0 = 0
  interval_cases h <;> rfl

theorem valid_new : newMemDB.Valid ∧ newMemDB.forEach = [] :=
  ⟨⟨[], represents_new⟩, forEach_eq represents_new⟩

theorem getD_replicate_zero (n j : ℕ) : (List.replicate n 0).getD j 0 = 0 := by
  rw [List.getD_eq_getElem?_getD, List.getElem?_replicate]
  split <;> rfl

theorem reset_nodeData {nd : List ℕ} (hlen : nd.length = nNext + tMaxHeight) :
    (List.range tMaxHeight).foldl (fun nd i => nd.set (nNext + i) 0)
        ((((nd.set nKV 0).set nKey 0).set nVal 0).set nHeight tMaxHeight) =
      (List.replicate (4 + tMaxHeight) 0).set nHeight tMaxHeight := by
  have hcells : ∀ nd : List ℕ, (List.range tMaxHeight).foldl (fun b i => b.set (nNext + i) 0) nd =
      ((List.range tMaxHeight).map (nNext + ·)).foldl (fun b m => b.set m 0) nd := by
    intro nd
    rw [List.foldl_map]
  rw [hcells]
  refine ext_getD 0 ?_ fun j hj => ?_
  · rw [length_foldl_set]
    simp only [List.length_set, hlen, List.length_replicate]
    rfl
  · rw [length_foldl_set] at hj
    simp only [List.length_set, hlen] at hj
    rw [getD_foldl_set]
    split
    · next hmem =>
      obtain ⟨i, -, rfl⟩ := List.mem_map.mp hmem.1
      rw [getD_set_ne (by unfold nNext nHeight; omega), getD_replicate_zero]
    · next hmem =>
      have hj4 : j < nNext := by
        by_contra hge
        exact hmem ⟨List.mem_map.mpr ⟨j - nNext, List.mem_range.mpr (by omega), by omega⟩,
          by simp only [List.length_set, hlen]; exact hj⟩
      simp only [nKV, nKey, nVal, nHeight, nNext] at hj4 hlen ⊢
      interval_cases j
      · rw [getD_set_ne (by omega), getD_set_ne (by omega), getD_set_ne (by omega),
          getD_set_self (by omega), getD_set_ne (by omega), getD_replicate_zero]
      · rw [getD_set_ne (by omega), getD_set_ne (by omega), getD_set_self (by simp; omega),
          getD_set_ne (by omega), getD_replicate_zero]
      · rw [getD_set_ne (by omega), getD_set_self (by simp; omega), getD_set_ne (by omega),
          getD_replicate_zero]
      · rw [getD_set_self (by simp; omega), getD_set_self (by simp; omega)]

theorem reset_prevNode {pn : List ℕ} (hlen : pn.length = tMaxHeight) :
    (List.range tMaxHeight).foldl (fun pn i => pn.set i 0) pn = List.replicate tMaxHeight 0 := by
  refine ext_getD 0 (by simp [length_foldl_set, hlen]) fun j hj => ?_
  rw [length_foldl_set, hlen] at hj
  rw [getD_foldl_set, if_pos ⟨List.mem_range.mpr hj, by rw [hlen]; exact hj⟩, getD_replicate_zero]

theorem Valid.reset_eq (hv : p.Valid) : p.reset = newMemDB := by
  obtain ⟨L, h⟩ := hv
  have hnode : (p.nodeData.take (nNext + tMaxHeight)).length = nNext + tMaxHeight := by
    have := h.in_bounds 0 (List.mem_cons_self ..)
    rw [recordEnd, h.head_height] at this
    rw [List.length_take]
    omega
  rw [reset, newMemDB, reset_nodeData hnode, reset_prevNode h.prevNode_length, List.take_zero]

end
end Web3.Storage.MemDB

namespace Web3.Storage

def Table : Type := { p : MemDB // p.Valid }

namespace Table

def new : Table := ⟨newMemDB, MemDB.valid_new.1⟩

def put (t : Table) (rnd : Rand) (key value : Bytes) : Table :=
  ⟨t.1.put rnd key value, (t.2.put rnd key value).1⟩

def delete (t : Table) (rnd : Rand) (key : Bytes) : Table :=
  ⟨t.1.delete rnd key, (t.2.put rnd key []).1⟩

def get (t : Table) (key : Bytes) : Bytes × Bool := t.1.get key

def forEach (t : Table) : List (Bytes × Bytes) := t.1.forEach

def reset (t : Table) : Table := ⟨t.1.reset, t.2.reset_eq ▸ MemDB.valid_new.1⟩

def deepClone (t : Table) : Table := ⟨t.1.deepClone, t.2⟩

def at? (t : Table) (key : Bytes) : Option Bytes := t.forEach.lookup key

theorem get_eq (t : Table) (key : Bytes) : t.get key = MemDB.answer (t.at? key) := t.2.get_eq key

@[simp] theorem reset_eq (t : Table) : t.reset = new := Subtype.ext t.2.reset_eq

@[simp] theorem at?_new (key : Bytes) : new.at? key = none := by
  rw [at?, forEach, new, MemDB.valid_new.2, List.lookup_nil]

theorem at?_put (t : Table) (rnd : Rand) (key value key' : Bytes) :
    (t.put rnd key value).at? key' = if key = key' then some value else t.at? key' := by
  rw [at?, forEach, put, (t.2.put rnd key value).2]
  split
  · next h => rw [h, lookup_upsert_self]
  · next h => rw [lookup_upsert_ne _ _ (Ne.symm h), at?, forEach]

theorem at?_delete (t : Table) (rnd : Rand) (key key' : Bytes) :
    (t.delete rnd key).at? key' = if key = key' then some [] else t.at? key' :=
  at?_put t rnd key [] key'

end Table
end Web3.Storage
