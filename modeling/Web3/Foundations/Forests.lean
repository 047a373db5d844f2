import Mathlib.Logic.Relation
import Mathlib.Tactic

/-! # Forests with ranks

Every node has at most one parent, and its rank is one more than the rank of its parent. Two nodes of one
rank have the same common ancestors as their parents, unless they are the same node. -/

namespace Web3

variable {α : Type}

structure Forest (parent : α → α → Prop) (rank : α → ℕ) : Prop where
  unique : ∀ {p q c}, parent p c → parent q c → p = q
  rank : ∀ {p c}, parent p c → rank c = rank p + 1

/-- A common ancestor than which no other is higher. A node is an ancestor of itself. -/
structure HighestCommon (parent : α → α → Prop) (rank : α → ℕ) (a b c : α) : Prop where
  left : Relation.ReflTransGen parent c a
  right : Relation.ReflTransGen parent c b
  highest : ∀ d, Relation.ReflTransGen parent d a → Relation.ReflTransGen parent d b → rank d ≤ rank c

namespace Forest
variable {parent : α → α → Prop} {rank : α → ℕ} {a b c p q : α}

section
variable (h : Forest parent rank)
include h

theorem rank_le (hab : Relation.ReflTransGen parent a b) : rank a ≤ rank b := by
  induction hab with
  | refl => exact le_rfl
  | tail _ hpc ih => exact ih.trans (by rw [h.rank hpc]; exact Nat.le_succ _)

theorem ancestor_parent (hp : parent p a) (hca : Relation.ReflTransGen parent c a)
    (hne : c ≠ a) : Relation.ReflTransGen parent c p := by
  rcases Relation.ReflTransGen.cases_tail hca with heq | ⟨q, hcq, hq⟩
  · exact absurd heq.symm hne
  · rwa [h.unique hp hq]

theorem common_ne (hrank : rank a = rank b) (hab : a ≠ b)
    (hca : Relation.ReflTransGen parent c a) (hcb : Relation.ReflTransGen parent c b) : c ≠ a ∧ c ≠ b := by
  -- an ancestor of the same rank is the node itself
  have hself : ∀ {x y : α}, Relation.ReflTransGen parent x y → rank x = rank y → x = y := by
    intro x y hxy heq
    rcases Relation.ReflTransGen.cases_tail hxy with hsame | ⟨z, hxz, hz⟩
    · exact hsame.symm
    · have hle := h.rank_le hxz
      have hsucc := h.rank hz
      omega
  constructor
  · rintro rfl
    exact hab (hself hcb hrank)
  · rintro rfl
    exact hab (hself hca hrank.symm).symm

theorem common_iff_parents (hrank : rank a = rank b) (hab : a ≠ b) (hp : parent p a) (hq : parent q b) :
    Relation.ReflTransGen parent c a ∧ Relation.ReflTransGen parent c b ↔
      Relation.ReflTransGen parent c p ∧ Relation.ReflTransGen parent c q := by
  constructor
  · rintro ⟨hca, hcb⟩
    obtain ⟨hne, hne'⟩ := h.common_ne hrank hab hca hcb
    exact ⟨h.ancestor_parent hp hca hne, h.ancestor_parent hq hcb hne'⟩
  · rintro ⟨hcp, hcq⟩
    exact ⟨hcp.tail hp, hcq.tail hq⟩

theorem highestCommon_self : HighestCommon parent rank a a a :=
  ⟨.refl, .refl, fun _ hd _ => h.rank_le hd⟩

theorem highestCommon_self_rank (hc : HighestCommon parent rank a a c) : rank c = rank a :=
  (h.rank_le hc.left).antisymm (hc.highest a .refl .refl)

theorem highestCommon_iff_parents (hrank : rank a = rank b) (hab : a ≠ b) (hp : parent p a)
    (hq : parent q b) : HighestCommon parent rank a b c ↔ HighestCommon parent rank p q c := by
  constructor
  · rintro ⟨hleft, hright, hhigh⟩
    obtain ⟨hleft', hright'⟩ := (h.common_iff_parents hrank hab hp hq).mp ⟨hleft, hright⟩
    exact ⟨hleft', hright', fun d hdp hdq => hhigh d (hdp.tail hp) (hdq.tail hq)⟩
  · rintro ⟨hleft, hright, hhigh⟩
    refine ⟨hleft.tail hp, hright.tail hq, fun d hda hdb => ?_⟩
    obtain ⟨hdp, hdq⟩ := (h.common_iff_parents hrank hab hp hq).mp ⟨hda, hdb⟩
    exact hhigh d hdp hdq

theorem exists_parents (hrank : rank a = rank b) (hab : a ≠ b)
    (hca : Relation.ReflTransGen parent c a) (hcb : Relation.ReflTransGen parent c b) :
    (∃ p, parent p a) ∧ ∃ q, parent q b := by
  obtain ⟨hne, hne'⟩ := h.common_ne hrank hab hca hcb
  rcases Relation.ReflTransGen.cases_tail hca with heq | ⟨p, -, hp⟩
  · exact absurd heq.symm hne
  rcases Relation.ReflTransGen.cases_tail hcb with heq | ⟨q, -, hq⟩
  · exact absurd heq.symm hne'
  exact ⟨⟨p, hp⟩, q, hq⟩

end

end Forest

end Web3
