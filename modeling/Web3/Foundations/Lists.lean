import Mathlib.Tactic
import Web3.Foundations.Outcome

/-! # List facts used across the development -/

namespace Web3

variable {β : Type} {ys : List β}

theorem mapM_eq_some_iff {α : Type} {f : α → Option β} {xs : List α} :
    xs.mapM f = some ys ↔ List.Forall₂ (fun x y => f x = some y) xs ys := by
  induction xs generalizing ys with
  | nil =>
    rw [List.mapM_nil, List.forall₂_nil_left_iff]
    exact ⟨fun h => (Option.some.inj h).symm, fun h => by rw [h]; rfl⟩
  | cons x xs ih =>
    rw [List.mapM_cons, List.forall₂_cons_left_iff]
    simp only [Option.bind_eq_bind, Option.bind_eq_some_iff, Option.pure_def, Option.some.injEq]
    constructor
    · rintro ⟨y, hy, zs, hzs, rfl⟩
      exact ⟨y, zs, hy, ih.mp hzs, rfl⟩
    · rintro ⟨y, zs, hy, hzs, rfl⟩
      exact ⟨y, hy, zs, ih.mpr hzs, rfl⟩

theorem Outcome.exists_mapM_iff {α γ : Type} {f : β → Outcome γ} {g : α → β} {R : α → γ → Prop} (xs : List α) :
    (∃ ys, (xs.map g).mapM f = .ok ys ∧ List.Forall₂ R xs ys) ↔ ∀ x ∈ xs, ∃ y, f (g x) = .ok y ∧ R x y := by
  induction xs with
  | nil => simp
  | cons x xs ih =>
    rw [List.forall_mem_cons, ← ih, List.map_cons, List.mapM_cons]
    constructor
    · rintro ⟨ys, hys, hR⟩
      obtain ⟨y, hy, hys⟩ := Outcome.bind_eq_ok.mp hys
      obtain ⟨ys', hys', hcons⟩ := Outcome.bind_eq_ok.mp hys
      cases hcons
      cases hR with
      | cons hxy hR => exact ⟨⟨y, hy, hxy⟩, ys', hys', hR⟩
    · rintro ⟨⟨y, hy, hxy⟩, ys, hys, hR⟩
      refine ⟨y :: ys, ?_, .cons hxy hR⟩
      rw [hy, Outcome.ok_bind, hys]
      rfl

theorem forall₂_right {α : Type} {R : α → β → Prop} {P : β → Prop} {xs : List α}
    (h : List.Forall₂ R xs ys) (hP : ∀ x y, R x y → P y) : ∀ y ∈ ys, P y := by
  induction h with
  | nil => simp
  | cons hxy _ ih =>
    intro y hy
    rcases List.mem_cons.mp hy with rfl | hy
    · exact hP _ _ hxy
    · exact ih y hy

theorem lookup_eq_none_iff_not_mem {α : Type} [BEq α] [LawfulBEq α] {kvs : List (α × β)} {key : α} :
    kvs.lookup key = none ↔ key ∉ kvs.map Prod.fst := by
  rw [List.lookup_eq_none_iff]
  constructor
  · intro h hmem
    obtain ⟨kv, hkv, rfl⟩ := List.mem_map.mp hmem
    have := h kv hkv
    simp at this
  · intro h kv hkv
    have hne : kv.1 ≠ key := fun he => h (he ▸ List.mem_map_of_mem hkv)
    simpa using hne.symm

theorem lookup_eq_some_iff_mem {α : Type} [BEq α] [LawfulBEq α] {kvs : List (α × β)} {k : α} {v : β}
    (hnodup : (kvs.map Prod.fst).Nodup) : kvs.lookup k = some v ↔ (k, v) ∈ kvs := by
  rw [List.lookup_eq_some_iff, List.mem_iff_append]
  constructor
  · rintro ⟨as, bs, heq, -⟩
    exact ⟨as, bs, heq⟩
  · rintro ⟨as, bs, rfl⟩
    refine ⟨as, bs, rfl, fun a ha => ?_⟩
    rw [List.map_append, List.nodup_append] at hnodup
    have hne := hnodup.2.2 a.1 (List.mem_map_of_mem ha) k (by simp)
    simpa using hne.symm

theorem lookup_filter_key {α : Type} [BEq α] [LawfulBEq α] (P : α → Bool) (kvs : List (α × β))
    (k : α) : (kvs.filter fun kv => P kv.1).lookup k = if P k then kvs.lookup k else none := by
  induction kvs with
  | nil => simp
  | cons kv kvs ih =>
    rw [List.filter_cons]
    by_cases hk : k = kv.1
    · subst hk
      cases hP : P kv.1 with
      | true => rw [if_pos rfl, if_pos rfl, List.lookup_cons, List.lookup_cons, beq_self_eq_true]
      | false => simp [ih, hP]
    · split
      · rw [List.lookup_cons, beq_false_of_ne hk, ih, List.lookup_cons, beq_false_of_ne hk]
      · rw [ih, List.lookup_cons, beq_false_of_ne hk]

/-! ## Cells of a list -/

section Cells
variable {α : Type} {d v : α} {l r : List α} {i j : ℕ}

theorem getD_set_self (h : i < l.length) : (l.set i v).getD i d = v := by
  rw [List.getD_eq_getElem?_getD, List.getElem?_set_self h]
  rfl

theorem getD_set_ne (h : j ≠ i) : (l.set i v).getD j d = l.getD j d := by
  rw [List.getD_eq_getElem?_getD, List.getElem?_set_ne h.symm, List.getD_eq_getElem?_getD]

theorem getD_append_left (h : j < l.length) : (l ++ r).getD j d = l.getD j d := by
  rw [List.getD_eq_getElem?_getD, List.getElem?_append_left h, List.getD_eq_getElem?_getD]

theorem getD_append_right (l r : List α) (j : ℕ) : (l ++ r).getD (l.length + j) d = r.getD j d := by
  rw [List.getD_eq_getElem?_getD, List.getElem?_append_right (Nat.le_add_right _ _),
    Nat.add_sub_cancel_left, List.getD_eq_getElem?_getD]

theorem ext_getD (d : α) (hlen : l.length = r.length) (h : ∀ j < l.length, l.getD j d = r.getD j d) : l = r := by
  refine List.ext_getElem hlen fun j hl hr => ?_
  have := h j hl
  simpa [List.getD_eq_getElem?_getD, hl, hr] using this

theorem getD_foldl_set (v : α) (ms : List ℕ) (l : List α) (j : ℕ) :
    (ms.foldl (fun b m => b.set m v) l).getD j d = if j ∈ ms ∧ j < l.length then v else l.getD j d := by
  induction ms generalizing l with
  | nil => simp
  | cons m ms ih =>
    rw [List.foldl_cons, ih (l.set m v), List.length_set]
    by_cases hj : j = m
    · subst hj
      by_cases hlen : j < l.length
      · rw [getD_set_self hlen]
        simp [hlen]
      · have hset : l.set j v = l := List.set_eq_of_length_le (by omega)
        simp [hlen, hset]
    · rw [getD_set_ne hj]
      simp [hj]

theorem length_foldl_set (v : α) (ms : List ℕ) (l : List α) :
    (ms.foldl (fun b m => b.set m v) l).length = l.length := by
  induction ms generalizing l with
  | nil => rfl
  | cons m ms ih => rw [List.foldl_cons, ih, List.length_set]

end Cells

/-- If of two words in front of messages the first symbols can be told, then so can the messages. -/
theorem flatMap_injective {α : Type} {word : α → List β} (hne : ∀ a, word a ≠ [])
    (hfirst : ∀ a b (as bs : List α), word a ++ as.flatMap word = word b ++ bs.flatMap word → a = b) :
    Function.Injective fun as : List α => as.flatMap word := by
  intro as
  induction as with
  | nil =>
    intro bs h
    cases bs with
    | nil => rfl
    | cons b bs =>
      have hnil : [] = word b ++ bs.flatMap word := h
      exact absurd (List.append_eq_nil_iff.mp hnil.symm).1 (hne b)
  | cons a as ih =>
    intro bs h
    cases bs with
    | nil =>
      have hnil : word a ++ as.flatMap word = [] := h
      exact absurd (List.append_eq_nil_iff.mp hnil).1 (hne a)
    | cons b bs =>
      have h : word a ++ as.flatMap word = word b ++ bs.flatMap word := h
      obtain rfl := hfirst a b as bs h
      rw [ih (List.append_cancel_left h)]

end Web3
