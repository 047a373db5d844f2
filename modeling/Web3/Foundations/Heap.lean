import Mathlib.Tactic

/-! # Cells behind pointers

A heap of mutable cells, and the situation of an object that works on one cell and keeps pointers to
saved ones: `Separate` says that these pointers are allocated and all different, so that writing the
live cell leaves the saved ones alone. -/

namespace Web3

/-- Cells by address; the addresses from `next` on are free. -/
structure Heap (α : Type) where
  next : ℕ
  get : ℕ → α

namespace Heap
variable {α : Type}

def write (h : Heap α) (p : ℕ) (a : α) : Heap α :=
  { h with get := fun q => if q = p then a else h.get q }

def alloc (h : Heap α) (a : α) : Heap α :=
  { next := h.next + 1, get := fun q => if q = h.next then a else h.get q }

variable {p q : ℕ}

@[simp] theorem get_write_self (h : Heap α) (p : ℕ) (a : α) : (h.write p a).get p = a := if_pos rfl

theorem get_write_ne (h : Heap α) (a : α) (hne : q ≠ p) : (h.write p a).get q = h.get q :=
  if_neg hne

@[simp] theorem get_alloc_self (h : Heap α) (a : α) : (h.alloc a).get h.next = a := if_pos rfl

theorem get_alloc_lt (h : Heap α) (a : α) (hlt : q < h.next) : (h.alloc a).get q = h.get q :=
  if_neg (by omega)

/-- The live pointer and the saved pointers are allocated and all different. -/
structure Separate (h : Heap α) (live : ℕ) (saved : List ℕ) : Prop where
  allocated : ∀ p ∈ live :: saved, p < h.next
  nodup : (live :: saved).Nodup

namespace Separate
variable {h : Heap α} {live : ℕ} {saved : List ℕ}

section
variable (hs : Separate h live saved)
include hs

theorem write (a : α) : Separate (h.write live a) live saved :=
  ⟨hs.allocated, hs.nodup⟩

theorem get_write (a : α) (hp : p ∈ saved) : (h.write live a).get p = h.get p :=
  h.get_write_ne a fun he => (List.nodup_cons.mp hs.nodup).1 (he ▸ hp)

theorem alloc (a : α) : Separate (h.alloc a) live (saved ++ [h.next]) := by
  constructor
  · intro p hp
    rw [← List.cons_append, List.mem_append, List.mem_singleton] at hp
    show p < h.next + 1
    rcases hp with hp | rfl
    · exact Nat.lt_succ_of_lt (hs.allocated p hp)
    · omega
  · rw [← List.cons_append, List.nodup_append]
    refine ⟨hs.nodup, List.nodup_singleton _, ?_⟩
    intro p hp q hq he
    have := hs.allocated p hp
    rw [List.mem_singleton] at hq
    omega

theorem get_alloc (a : α) (hp : p ∈ live :: saved) : (h.alloc a).get p = h.get p :=
  h.get_alloc_lt a (hs.allocated p hp)

theorem alone : Separate h live [] :=
  ⟨fun p hp => hs.allocated p (by simpa using Or.inl (List.mem_singleton.mp hp)), List.nodup_singleton _⟩

end

theorem alone_alloc (h : Heap α) (a : α) : Separate (h.alloc a) h.next [] :=
  ⟨fun p hp => by rw [List.mem_singleton.mp hp]; exact Nat.lt_succ_self _, List.nodup_singleton _⟩

theorem restore (hs : Separate h live saved) {i : ℕ} (hi : saved[i]? = some p) : Separate h p (saved.take i) := by
  obtain ⟨hlt, rfl⟩ := List.getElem?_eq_some_iff.mp hi
  have hsub : (saved[i] :: saved.take i).Perm (saved.take (i + 1)) := by
    rw [List.take_succ_eq_append_getElem hlt]
    exact (List.perm_append_singleton _ _).symm
  have hnodup := (List.nodup_cons.mp hs.nodup).2
  constructor
  · intro q hq
    exact hs.allocated q (List.mem_cons_of_mem live (List.mem_of_mem_take (hsub.mem_iff.mp hq)))
  · exact hsub.nodup_iff.mpr (hnodup.sublist (List.take_sublist _ _))

end Separate
end Heap
end Web3
