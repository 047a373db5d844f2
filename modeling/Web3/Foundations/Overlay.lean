import Web3.Foundations.SortedMap

/-! # One sorted list over another

Two sorted association lists read as one map, the first one over the second. `overlay` is their merge in
key order. -/

namespace Web3

variable {K V : Type} [Ord K]

/-- The entries of both lists in key order; where both have a key, the entry of the first one. -/
def overlay : List (K × V) → List (K × V) → List (K × V)
  | [], bs => bs
  | as, [] => as
  | a :: as, b :: bs =>
    match compare a.1 b.1 with
    | .lt => a :: overlay as (b :: bs)
    | .eq => a :: overlay as bs
    | .gt => b :: overlay (a :: as) bs
termination_by as bs => as.length + bs.length

variable {a b kv : K × V} {as bs : List (K × V)}

@[simp] theorem overlay_nil_left (bs : List (K × V)) : overlay [] bs = bs := by rw [overlay]

@[simp] theorem overlay_nil_right (as : List (K × V)) : overlay as [] = as := by
  cases as with
  | nil => rw [overlay]
  | cons a as => rw [overlay]; simp

theorem overlay_cons_left (as bs : List (K × V)) (h : ∀ b ∈ bs.head?, compare a.1 b.1 = .lt) :
    overlay (a :: as) bs = a :: overlay as bs := by
  cases bs with
  | nil => simp
  | cons b bs => rw [overlay, h b rfl]

theorem overlay_cons_right (as bs : List (K × V)) (h : ∀ a ∈ as.head?, compare a.1 b.1 = .gt) :
    overlay as (b :: bs) = b :: overlay as bs := by
  cases as with
  | nil => simp
  | cons a as => rw [overlay, h a rfl]

theorem overlay_cons_both (as bs : List (K × V)) (h : compare a.1 b.1 = .eq) :
    overlay (a :: as) (b :: bs) = a :: overlay as bs := by
  rw [overlay, h]

theorem mem_overlay (h : kv ∈ overlay as bs) : kv ∈ as ∨ kv ∈ bs := by
  induction as, bs using overlay.induct with
  | case1 bs => simpa using h
  | case2 as hne => exact Or.inl (by simpa using h)
  | case3 a as b bs hcmp ih =>
    rw [overlay, hcmp, List.mem_cons] at h
    rcases h with rfl | h
    · simp
    · exact (ih h).imp_left (List.mem_cons_of_mem a)
  | case4 a as b bs hcmp ih =>
    rw [overlay, hcmp, List.mem_cons] at h
    rcases h with rfl | h
    · simp
    · exact (ih h).imp (List.mem_cons_of_mem a) (List.mem_cons_of_mem b)
  | case5 a as b bs hcmp ih =>
    rw [overlay, hcmp, List.mem_cons] at h
    rcases h with rfl | h
    · simp
    · exact (ih h).imp_right (List.mem_cons_of_mem b)

theorem length_overlay_le (as bs : List (K × V)) : (overlay as bs).length ≤ as.length + bs.length := by
  induction as, bs using overlay.induct with
  | case1 | case2 => simp
  | case3 a as b bs hcmp ih =>
    rw [overlay, hcmp]
    simp only [List.length_cons] at ih ⊢
    omega
  | case4 a as b bs hcmp ih =>
    rw [overlay, hcmp]
    simp only [List.length_cons]
    omega
  | case5 a as b bs hcmp ih =>
    rw [overlay, hcmp]
    simp only [List.length_cons] at ih ⊢
    omega

variable [Std.TransOrd K] [Std.LawfulEqOrd K]

theorem KeysSorted.lookup_below [BEq K] [LawfulBEq K] {k : K} {kvs : List (K × V)} (h : KeysSorted kvs)
    (hk : ∀ kv ∈ kvs.head?, compare k kv.1 = .lt) : kvs.lookup k = none := by
  rw [List.lookup_eq_none_iff]
  intro kv hkv
  have hlt : compare k kv.1 = .lt := by
    cases kvs with
    | nil => simp at hkv
    | cons kv' kvs =>
      rcases List.mem_cons.mp hkv with rfl | hkv
      · exact hk kv rfl
      · exact Std.TransCmp.lt_trans (hk kv' rfl) ((List.pairwise_cons.mp h).1 kv hkv)
  have hne : k ≠ kv.1 := by
    rintro rfl
    simp at hlt
  simpa using hne

variable (ha : KeysSorted as) (hb : KeysSorted bs)
include ha hb

theorem KeysSorted.overlay : KeysSorted (Web3.overlay as bs) := by
  induction as, bs using Web3.overlay.induct with
  | case1 bs => simpa using hb
  | case2 as hne => simpa using ha
  | case3 a as b bs hcmp ih =>
    obtain ⟨ha', has⟩ := List.pairwise_cons.mp ha
    rw [Web3.overlay, hcmp]
    refine List.pairwise_cons.mpr ⟨fun kv hkv => ?_, ih has hb⟩
    rcases mem_overlay hkv with h | h
    · exact ha' kv h
    · rcases List.mem_cons.mp h with rfl | h
      · exact hcmp
      · exact Std.TransCmp.lt_trans hcmp ((List.pairwise_cons.mp hb).1 kv h)
  | case4 a as b bs hcmp ih =>
    obtain ⟨ha', has⟩ := List.pairwise_cons.mp ha
    obtain ⟨hb', hbs⟩ := List.pairwise_cons.mp hb
    rw [Web3.overlay, hcmp]
    refine List.pairwise_cons.mpr ⟨fun kv hkv => ?_, ih has hbs⟩
    rcases mem_overlay hkv with h | h
    · exact ha' kv h
    · rw [Std.LawfulEqCmp.compare_eq_iff_eq.mp hcmp]
      exact hb' kv h
  | case5 a as b bs hcmp ih =>
    obtain ⟨hb', hbs⟩ := List.pairwise_cons.mp hb
    have hlt := Std.OrientedCmp.lt_of_gt hcmp
    rw [Web3.overlay, hcmp]
    refine List.pairwise_cons.mpr ⟨fun kv hkv => ?_, ih ha hbs⟩
    rcases mem_overlay hkv with h | h
    · rcases List.mem_cons.mp h with rfl | h
      · exact hlt
      · exact Std.TransCmp.lt_trans hlt ((List.pairwise_cons.mp ha).1 kv h)
    · exact hb' kv h

theorem overlay_behind {rest : List (K × V)}
    (h : overlay as bs = kv :: rest) : overlay (above kv.1 as) (above kv.1 bs) = rest := by
  cases as with
  | nil =>
    rw [overlay_nil_left] at h
    subst h
    rw [hb.above_cons]
    exact overlay_nil_left rest
  | cons a as =>
    cases bs with
    | nil =>
      rw [overlay_nil_right] at h
      cases h
      rw [ha.above_cons]
      exact overlay_nil_right rest
    | cons b bs =>
      rw [overlay] at h
      cases hcmp : compare a.1 b.1 with
      | lt =>
        rw [hcmp] at h
        cases h
        rw [ha.above_cons, hb.above_of_head]
        rintro _ ⟨⟩
        exact hcmp
      | eq =>
        rw [hcmp] at h
        cases h
        rw [ha.above_cons, Std.LawfulEqCmp.compare_eq_iff_eq.mp hcmp, hb.above_cons]
      | gt =>
        rw [hcmp] at h
        cases h
        rw [hb.above_cons, ha.above_of_head]
        rintro _ ⟨⟩
        exact Std.OrientedCmp.lt_of_gt hcmp

/-- **The overlay looks up the first list, then the second.** -/
theorem lookup_overlay [BEq K] [LawfulBEq K] (k : K) :
    (overlay as bs).lookup k = (as.lookup k).or (bs.lookup k) := by
  induction as, bs using overlay.induct with
  | case1 | case2 => simp
  | case3 a as b bs hcmp ih =>
    rw [overlay, hcmp, List.lookup_cons, List.lookup_cons]
    cases k == a.1 with
    | true => simp
    | false => exact ih (List.pairwise_cons.mp ha).2 hb
  | case4 a as b bs hcmp ih =>
    rw [overlay, hcmp, List.lookup_cons, List.lookup_cons, List.lookup_cons,
      ← Std.LawfulEqCmp.compare_eq_iff_eq.mp hcmp]
    cases k == a.1 with
    | true => simp
    | false => exact ih (List.pairwise_cons.mp ha).2 (List.pairwise_cons.mp hb).2
  | case5 a as b bs hcmp ih =>
    rw [overlay, hcmp, List.lookup_cons, @List.lookup_cons _ _ _ bs]
    by_cases hk : k = b.1
    · subst hk
      have hnone : (a :: as).lookup b.1 = none := by
        refine ha.lookup_below ?_
        rintro _ ⟨⟩
        exact Std.OrientedCmp.lt_of_gt hcmp
      simp [hnone]
    · simp only [beq_false_of_ne hk]
      exact ih ha (List.pairwise_cons.mp hb).2

end Web3
