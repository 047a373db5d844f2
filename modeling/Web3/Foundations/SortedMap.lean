import Web3.Foundations.Lists

/-! # Sorted association lists

Maps as association lists with strictly increasing keys, over any key type with a lawful comparison.
`upsert` writes one key: it replaces the entry of the key or inserts one at its place. -/

namespace Web3

variable {K V : Type} [Ord K]

def KeysSorted (kvs : List (K × V)) : Prop := kvs.Pairwise fun a b => compare a.1 b.1 = .lt

def upsert (k : K) (v : V) : List (K × V) → List (K × V)
  | [] => [(k, v)]
  | (k', v') :: kvs =>
    match compare k' k with
    | .lt => (k', v') :: upsert k v kvs
    | .eq => (k, v) :: kvs
    | .gt => (k, v) :: (k', v') :: kvs

variable {k : K} {v : V} {as kvs bs : List (K × V)} {kv : K × V}

theorem upsert_append (h : ∀ a ∈ as, compare a.1 k = .lt) (bs : List (K × V)) :
    upsert k v (as ++ bs) = as ++ upsert k v bs := by
  induction as with
  | nil => rfl
  | cons a as ih =>
    obtain ⟨k', v'⟩ := a
    have hk : compare k' k = .lt := h (k', v') (List.mem_cons_self ..)
    rw [List.cons_append, upsert, hk]
    simp [ih fun b hb => h b (List.mem_cons_of_mem _ hb)]

theorem lookup_upsert_ne [Std.LawfulEqOrd K] [BEq K] [LawfulBEq K] (kvs : List (K × V)) {k₀ : K}
    (v : V) (hne : k₀ ≠ k) : (upsert k v kvs).lookup k₀ = kvs.lookup k₀ := by
  induction kvs with
  | nil => rw [upsert, List.lookup_cons, beq_false_of_ne hne]
  | cons a kvs ih =>
    obtain ⟨k', v'⟩ := a
    rw [upsert]
    split
    · rw [List.lookup_cons, List.lookup_cons, ih]
    · next heq =>
      obtain rfl := Std.LawfulEqCmp.compare_eq_iff_eq.mp heq
      rw [List.lookup_cons, List.lookup_cons, beq_false_of_ne hne]
    · rw [List.lookup_cons, beq_false_of_ne hne]

theorem mem_upsert (h : kv ∈ upsert k v kvs) : kv = (k, v) ∨ kv ∈ kvs := by
  induction kvs with
  | nil => exact .inl (List.mem_singleton.mp h)
  | cons a kvs ih =>
    obtain ⟨k', v'⟩ := a
    rw [upsert] at h
    split at h
    · rcases List.mem_cons.mp h with rfl | h
      · exact .inr (List.mem_cons_self ..)
      · exact (ih h).imp_right (List.mem_cons_of_mem _)
    · rcases List.mem_cons.mp h with rfl | h
      · exact .inl rfl
      · exact .inr (List.mem_cons_of_mem _ h)
    · exact (List.mem_cons.mp h).imp_right id

/-! ## Parts of a sorted list -/

def above (k : K) (kvs : List (K × V)) : List (K × V) := kvs.filter fun kv => compare k kv.1 == .lt

def atOrAbove (k : K) (kvs : List (K × V)) : List (K × V) :=
  kvs.filter fun kv => compare kv.1 k != .lt

def lower (k : K) (kvs : List (K × V)) : List (K × V) := kvs.filter fun kv => compare kv.1 k == .lt

theorem above_append (has : ∀ a ∈ as, compare k a.1 ≠ .lt) (hbs : ∀ b ∈ bs, compare k b.1 = .lt) :
    above k (as ++ bs) = bs := by
  rw [above, List.filter_append, List.filter_eq_nil_iff.mpr (by simpa using has),
    List.filter_eq_self.mpr (by simpa using hbs), List.nil_append]

theorem atOrAbove_append (has : ∀ a ∈ as, compare a.1 k = .lt) (hbs : ∀ b ∈ bs, compare b.1 k ≠ .lt) :
    atOrAbove k (as ++ bs) = bs := by
  rw [atOrAbove, List.filter_append, List.filter_eq_nil_iff.mpr (by simpa using has),
    List.filter_eq_self.mpr (by simpa using hbs), List.nil_append]

theorem above_upsert [Std.LawfulEqOrd K] {k' : K} (v : V) (hle : compare k k' ≠ .lt)
    (kvs : List (K × V)) : above k (upsert k' v kvs) = above k kvs := by
  induction kvs with
  | nil => simp [upsert, above, hle]
  | cons kv kvs ih =>
    obtain ⟨k'', v''⟩ := kv
    rw [upsert]
    split
    · simp only [above, List.filter_cons] at ih ⊢
      rw [ih]
    · next heq =>
      obtain rfl := Std.LawfulEqCmp.compare_eq_iff_eq.mp heq
      simp [above, hle]
    · simp [above, List.filter_cons, hle]

variable [Std.TransOrd K]

theorem KeysSorted.nodup_keys (h : KeysSorted kvs) : (kvs.map Prod.fst).Nodup := by
  refine List.pairwise_map.mpr (h.imp fun hlt he => ?_)
  rw [he] at hlt
  simp at hlt

theorem KeysSorted.mem_iff [BEq K] [LawfulBEq K] (h : KeysSorted kvs) :
    (k, v) ∈ kvs ↔ kvs.lookup k = some v := (lookup_eq_some_iff_mem h.nodup_keys).symm

theorem KeysSorted.above_eq (h : KeysSorted (as ++ (k, v) :: bs)) : above k (as ++ (k, v) :: bs) = bs := by
  obtain ⟨-, hbs, has⟩ := List.pairwise_append.mp h
  rw [List.append_cons]
  refine above_append ?_ (List.pairwise_cons.mp hbs).1
  intro a ha hlt
  rcases List.mem_append.mp ha with ha | ha
  · have hgt := has a ha (k, v) (List.mem_cons_self ..)
    rw [Std.OrientedCmp.gt_of_lt hgt] at hlt
    exact absurd hlt (by simp)
  · obtain rfl := List.mem_singleton.mp ha
    simp at hlt

theorem KeysSorted.above_cons (h : KeysSorted (kv :: kvs)) : above kv.1 (kv :: kvs) = kvs := by
  have happend : KeysSorted ([] ++ (kv.1, kv.2) :: kvs) := h
  exact happend.above_eq

theorem KeysSorted.above_of_head (h : KeysSorted kvs)
    (hhead : ∀ kv ∈ kvs.head?, compare k kv.1 = .lt) : above k kvs = kvs := by
  cases kvs with
  | nil => rfl
  | cons kv kvs =>
    refine List.filter_eq_self.mpr fun kv' hkv' => ?_
    rw [beq_iff_eq]
    rcases List.mem_cons.mp hkv' with rfl | hkv'
    · exact hhead _ rfl
    · exact Std.TransCmp.lt_trans (hhead kv rfl) ((List.pairwise_cons.mp h).1 kv' hkv')

theorem KeysSorted.lower_eq_nil (h : KeysSorted (kv :: kvs)) (hge : compare kv.1 k ≠ .lt) :
    lower k (kv :: kvs) = [] := by
  rw [lower, List.filter_eq_nil_iff]
  intro kv' hmem hlt
  rw [beq_iff_eq] at hlt
  rcases List.mem_cons.mp hmem with rfl | hmem
  · exact hge hlt
  · exact hge (Std.TransCmp.lt_trans ((List.pairwise_cons.mp h).1 kv' hmem) hlt)

variable [Std.LawfulEqOrd K]

theorem lookup_upsert_self [BEq K] [LawfulBEq K] (kvs : List (K × V)) (k : K) (v : V) :
    (upsert k v kvs).lookup k = some v := by
  induction kvs with
  | nil => simp [upsert]
  | cons a kvs ih =>
    obtain ⟨k', v'⟩ := a
    rw [upsert]
    split
    · next hlt =>
      have hne : k ≠ k' := by
        rintro rfl
        simp at hlt
      rw [List.lookup_cons, beq_false_of_ne hne, ih]
    · simp
    · simp

theorem KeysSorted.upsert (h : KeysSorted kvs) (k : K) (v : V) : KeysSorted (Web3.upsert k v kvs) := by
  induction kvs with
  | nil => exact List.pairwise_singleton _ _
  | cons a kvs ih =>
    obtain ⟨k', v'⟩ := a
    obtain ⟨hhead, htail⟩ := List.pairwise_cons.mp h
    rw [Web3.upsert]
    split
    next hlt =>
      refine List.pairwise_cons.mpr ⟨fun kv hkv => ?_, ih htail⟩
      rcases mem_upsert hkv with rfl | hkv
      · exact hlt
      · exact hhead kv hkv
    next heq =>
      obtain rfl := Std.LawfulEqCmp.compare_eq_iff_eq.mp heq
      exact List.pairwise_cons.mpr ⟨hhead, htail⟩
    next hgt =>
      have hlt : compare k k' = .lt := Std.OrientedCmp.lt_of_gt hgt
      refine List.pairwise_cons.mpr ⟨fun kv hkv => ?_, h⟩
      rcases List.mem_cons.mp hkv with rfl | hkv
      · exact hlt
      · exact Std.TransCmp.lt_trans hlt (hhead kv hkv)

end Web3
