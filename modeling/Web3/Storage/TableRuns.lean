import Web3.Storage.MemIter

/-! # Runs of writes

Any sequence of `Put` and `Delete` on an empty table, with any heights of the inserted nodes, leaves a
sorted map of the last written values. -/

namespace Web3.Storage

inductive WriteOp where
  | put (rnd : Rand) (key value : Bytes)
  | delete (rnd : Rand) (key : Bytes)

namespace WriteOp

def key : WriteOp → Bytes
  | put _ key _ => key
  | delete _ key => key

def value : WriteOp → Bytes
  | put _ _ value => value
  | delete _ _ => []

end WriteOp

/-- The value that the last call on a key wrote, `none` if there was no such call. -/
def lastWritten (ws : List WriteOp) (key : Bytes) : Option Bytes :=
  (ws.reverse.find? fun w => w.key == key).map WriteOp.value

def writtenKeys (ws : List WriteOp) : Finset Bytes := (ws.map WriteOp.key).toFinset

namespace MemDB

def exec (p : MemDB) : WriteOp → MemDB
  | .put rnd key value => p.put rnd key value
  | .delete rnd key => p.delete rnd key

def runWrites (p : MemDB) (ws : List WriteOp) : MemDB := ws.foldl exec p

/-- A table without entries: a new one, or one that was reset after any run. -/
inductive Fresh : MemDB → Prop
  | new : Fresh newMemDB
  | reset {p : MemDB} (h : Fresh p) (ws : List WriteOp) : Fresh (p.runWrites ws).reset

/-! ## One write -/

theorem exec_eq (p : MemDB) (w : WriteOp) : ∃ rnd, p.exec w = p.put rnd w.key w.value := by
  cases w with
  | put rnd key value | delete rnd key => exact ⟨rnd, rfl⟩

theorem Valid.exec {p : MemDB} (hv : p.Valid) (w : WriteOp) :
    (p.exec w).Valid ∧ (p.exec w).forEach = upsert w.key w.value p.forEach := by
  obtain ⟨rnd, h⟩ := exec_eq p w
  rw [h]
  exact hv.put rnd w.key w.value

theorem lastWritten_concat (ws : List WriteOp) (w : WriteOp) (key : Bytes) :
    lastWritten (ws ++ [w]) key = if w.key = key then some w.value else lastWritten ws key := by
  simp only [lastWritten, List.reverse_append, List.reverse_singleton, List.singleton_append, List.find?_cons]
  by_cases h : w.key = key
  · simp [h]
  · simp [h, beq_false_of_ne h]

theorem lastWritten_isSome (ws : List WriteOp) (key : Bytes) : (lastWritten ws key).isSome ↔ key ∈ writtenKeys ws := by
  simp [lastWritten, writtenKeys]

/-! ## The run -/

theorem Valid.run {p : MemDB} (hv : p.Valid) (hempty : p.forEach = []) (ws : List WriteOp) :
    (p.runWrites ws).Valid ∧ ∀ key, (p.runWrites ws).forEach.lookup key = lastWritten ws key := by
  induction ws using List.reverseRecOn with
  | nil => exact ⟨hv, fun key => by rw [runWrites, List.foldl_nil, hempty]; rfl⟩
  | append_singleton ws w ih =>
    obtain ⟨hv', hlookup⟩ := ih
    obtain ⟨hvalid, hforEach⟩ := hv'.exec w
    have hrun : p.runWrites (ws ++ [w]) = (p.runWrites ws).exec w := by simp [runWrites]
    rw [hrun]
    refine ⟨hvalid, fun key => ?_⟩
    rw [hforEach, lastWritten_concat]
    split
    · next h => rw [h, lookup_upsert_self]
    · next h => rw [lookup_upsert_ne _ _ (Ne.symm h), hlookup]

theorem Fresh.eq_new {p : MemDB} (h : Fresh p) : p = newMemDB := by
  induction h with
  | new => rfl
  | reset h ws ih =>
    subst ih
    exact (valid_new.1.run valid_new.2 ws).1.reset_eq

/-! ## Counts -/

theorem length_valOf {p : MemDB} {L : List ℕ} (h : Represents p L) {x : ℕ} (hx : x ∈ L) :
    (p.valOf x).length = p.nodeAt (x + nVal) := by
  have := h.data x hx
  rw [valOf, List.length_take, List.length_drop]
  omega

theorem Valid.len_eq {p : MemDB} (hv : p.Valid) : p.len = p.forEach.length := by
  obtain ⟨L, h⟩ := hv
  rw [forEach_eq h, entries, List.length_map, len, h.count]

theorem Valid.size_eq {p : MemDB} (hv : p.Valid) :
    p.size = (p.forEach.map fun kv => (kv.1.length + kv.2.length : ℤ)).sum := by
  obtain ⟨L, h⟩ := hv
  rw [forEach_eq h, entries, List.map_map, size, h.size]
  refine congrArg List.sum (List.map_congr_left fun x hx => ?_)
  rw [Function.comp_apply, length_keyOf h hx, length_valOf h hx]

variable {fuel : ℕ}

theorem toFinset_keys {p : MemDB} {ws : List WriteOp} (hlookup : ∀ key, p.forEach.lookup key = lastWritten ws key) :
    (p.forEach.map Prod.fst).toFinset = writtenKeys ws := by
  ext key
  rw [← lastWritten_isSome, ← hlookup, Option.isSome_iff_ne_none, ne_eq,
    lookup_eq_none_iff_not_mem, not_not, List.mem_toFinset]

/-! ## The table is a sorted map -/

/-- `node` is the node of the least written key at or above `key`, and `exact` says whether that is
`key` itself; without such a key `node` is `0`. -/
def LeastFrom (p : MemDB) (ws : List WriteOp) (key : Bytes) (node : ℕ) (exact : Bool) : Prop :=
  (node = 0 ∧ exact = false ∧ ∀ k ∈ writtenKeys ws, compare k key = .lt) ∨
    ∃ k ∈ writtenKeys ws, p.HasNode node k ∧ exact = (k == key) ∧ compare k key ≠ .lt ∧
      ∀ k' ∈ writtenKeys ws, compare k' key ≠ .lt → compare k k' ≠ .gt

section
variable {p : MemDB} {ws : List WriteOp} (hv : p.Valid)
  (hlookup : ∀ key, p.forEach.lookup key = lastWritten ws key)
include hv hlookup

theorem findGELoop_least (key : Bytes) (prev : Bool)
    (hfuel : p.nodeData.length + p.maxHeight ≤ fuel) : ∃ node exact prevNode,
      p.findGELoop key prev fuel 0 (p.maxHeight - 1) p.prevNode = some (node, exact, prevNode) ∧
        p.LeastFrom ws key node exact := by
  obtain ⟨L, h⟩ := hv
  obtain ⟨A, B, hs⟩ := exists_splitAt h key
  have hkeys : ∀ k, k ∈ writtenKeys ws ↔ ∃ x ∈ L, p.keyOf x = k := by
    intro k
    rw [← toFinset_keys hlookup, forEach_eq h, entries, List.mem_toFinset, List.map_map]
    simp
  have hpos := h.maxHeight_pos
  have hle := h.maxHeight_le
  have hlt := h.length_lt
  have hlen : L.length = A.length + B.length := by rw [hs.eq, List.length_append]
  obtain ⟨prevNode, heq, -⟩ := findGELoop_eq h hs prev fuel 0 (p.maxHeight - 1) p.prevNode [] A rfl
    (by omega) (by rw [h.head_height]; omega) (by omega) h.prevNode_length
  refine ⟨_, _, prevNode, heq, ?_⟩
  cases B with
  | nil =>
    refine Or.inl ⟨rfl, rfl, fun k hk => ?_⟩
    obtain ⟨x, hx, rfl⟩ := (hkeys k).mp hk
    rw [hs.eq, List.append_nil] at hx
    exact hs.before x hx
  | cons x B =>
    have hx : x ∈ L := by simp [hs.eq]
    refine Or.inr ⟨p.keyOf x, (hkeys _).mpr ⟨x, hx, rfl⟩, ⟨L, h, hx, rfl⟩, ?_, hs.behind x (List.mem_cons_self ..), ?_⟩
    · rw [Bool.eq_iff_iff]
      simp [headIs]
    · intro k' hk' hge
      obtain ⟨y, hy, rfl⟩ := (hkeys k').mp hk'
      rw [hs.eq] at hy
      rcases List.mem_append.mp hy with hy | hy
      · exact absurd (hs.before y hy) hge
      · have hsorted := h.sorted
        rw [hs.eq, List.pairwise_append, List.pairwise_cons] at hsorted
        rcases List.mem_cons.mp hy with rfl | hy
        · simp
        · simp [hsorted.2.1.1 y hy]

theorem sum_sizes : p.size = ∑ k ∈ writtenKeys ws, (k.length + ((lastWritten ws k).getD []).length : ℤ) := by
  rw [hv.size_eq, ← toFinset_keys hlookup, List.sum_toFinset _ hv.nodup_keys, List.map_map]
  refine congrArg List.sum (List.map_congr_left fun kv hkv => ?_)
  rw [Function.comp_apply, ← hlookup, hv.sorted.mem_iff.mp hkv, Option.getD_some]

end

theorem Valid.forEachLoop_eq {p : MemDB} (hv : p.Valid) (hfuel : p.nodeData.length ≤ fuel) :
    p.forEachLoop fuel (p.next 0 0) = p.forEach := by
  obtain ⟨L, h⟩ := hv
  have hnext := h.next_eq [] L 0 rfl (l := 0) (by simp [tMaxHeight])
    (by rw [h.head_height]; simp [tMaxHeight])
  rw [h.filter_onLevel_zero (fun y hy => hy)] at hnext
  have hlt := h.length_lt
  rw [forEach_eq h, hnext, MemDB.forEachLoop_eq h _ [] L rfl (by omega)]

/-- **A table is the sorted map of the last written values**, after any run on an empty table. -/
theorem runWrites_sorted_map {p : MemDB} (hp : Fresh p) (ws : List WriteOp) :
    let q := p.runWrites ws
    (∀ key, q.get key = answer (lastWritten ws key) ∧ ((q.get key).2 = true ↔ key ∉ writtenKeys ws)) ∧
    (∀ key prev fuel, q.nodeData.length + q.maxHeight ≤ fuel → ∃ node exact prevNode,
      q.findGELoop key prev fuel 0 (q.maxHeight - 1) q.prevNode = some (node, exact, prevNode) ∧
        q.LeastFrom ws key node exact) ∧
    (KeysSorted q.forEach ∧ (∀ k v, (k, v) ∈ q.forEach ↔ lastWritten ws k = some v) ∧
      ∀ fuel, q.nodeData.length ≤ fuel → q.forEachLoop fuel (q.next 0 0) = q.forEach) ∧
    (∀ slice steps, q.len ≤ steps → DbIter.cursor.walk q steps ((newIterator slice).first q) =
        some (q.forEach.filter fun kv => (newIterator slice).inRange kv.1)) ∧
    q.len = (writtenKeys ws).card ∧
    q.size = ∑ k ∈ writtenKeys ws, (k.length + ((lastWritten ws k).getD []).length : ℤ) := by
  obtain rfl := hp.eq_new
  obtain ⟨hv, hlookup⟩ := valid_new.1.run valid_new.2 ws
  refine ⟨fun key => ?_, fun key prev fuel hfuel => findGELoop_least hv hlookup key prev hfuel,
    ⟨hv.sorted, fun k v => ?_, fun fuel => hv.forEachLoop_eq⟩, fun slice steps hsteps => ?_, ?_,
    sum_sizes hv hlookup⟩
  · rw [hv.get_eq, hlookup, ← lastWritten_isSome]
    cases lastWritten ws key <;> simp [answer]
  · rw [hv.sorted.mem_iff, hlookup]
  · refine DbIter.cursor_lawful.walk_eq (DbIter.first_found hv rfl rfl) ?_
    exact (List.length_filter_le _ _).trans (hv.len_eq ▸ hsteps)
  · rw [← toFinset_keys hlookup, List.toFinset_card_of_nodup hv.nodup_keys, List.length_map, hv.len_eq]

/-- Two writes of one key and one of another, on a table that was used before. -/
theorem runWrites_sorted_map_after_reset :
    let p := (newMemDB.runWrites [.put (fun _ => 0) [7] [1]]).reset
    let q := p.runWrites [.put (fun _ => 0) [2] [5], .put (fun _ => 1) [1] [6, 6], .delete (fun _ => 1) [2]]
    Fresh p ∧ KeysSorted q.forEach ∧ q.len = 2 ∧ q.size = 4 ∧ q.forEach = [([1], [6, 6]), ([2], [])] := by
  intro p q
  have hp : Fresh p := Fresh.new.reset _
  have h := runWrites_sorted_map hp
    [.put (fun _ => 0) [2] [5], .put (fun _ => 1) [1] [6, 6], .delete (fun _ => 1) [2]]
  exact ⟨hp, h.2.2.1.1, h.2.2.2.2.1, h.2.2.2.2.2, by decide⟩

end MemDB
end Web3.Storage
