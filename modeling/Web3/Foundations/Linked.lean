import Mathlib.Tactic

/-! # Linked lists through a successor function

`Linked next nil xs`: the nodes `xs` are chained by `next`, and the last one points to `nil`. The
successor function is arbitrary, so the same facts serve every level of a multi-level list. -/

namespace Web3

variable {α : Type}

/-- The nodes are chained in this order, and the last one points to `nil`. -/
def Linked (next : α → α) (nil : α) : List α → Prop
  | [] => True
  | [x] => next x = nil
  | x :: y :: ys => next x = y ∧ Linked next nil (y :: ys)

namespace Linked

variable {next next' : α → α} {nil x : α} {xs pre rest : List α}

theorem tail (h : Linked next nil (x :: xs)) : Linked next nil xs := by
  cases xs with
  | nil => trivial
  | cons y ys => exact h.2

theorem next_head (h : Linked next nil (x :: xs)) : next x = xs.headD nil := by
  cases xs with
  | nil => exact h
  | cons y ys => exact h.1

theorem cons {next : α → α} {nil x : α} {xs : List α} (hx : next x = xs.headD nil)
    (h : Linked next nil xs) : Linked next nil (x :: xs) := by
  cases xs with
  | nil => exact hx
  | cons y ys => exact ⟨hx, h⟩

theorem drop_left (pre : List α) (h : Linked next nil (pre ++ xs)) : Linked next nil xs := by
  induction pre with
  | nil => exact h
  | cons x pre ih => exact ih h.tail

theorem next_eq (h : Linked next nil (pre ++ x :: rest)) : next x = rest.headD nil :=
  (h.drop_left pre).next_head

theorem congr (h : Linked next nil xs) (heq : ∀ x ∈ xs, next' x = next x) : Linked next' nil xs := by
  induction xs with
  | nil => trivial
  | cons x xs ih =>
    refine cons ?_ (ih h.tail fun y hy => heq y (List.mem_cons_of_mem x hy))
    rw [heq x (List.mem_cons_self ..), h.next_head]

theorem splice {p : α} (h : Linked next nil (pre ++ p :: rest)) (hnodup : (pre ++ p :: rest).Nodup)
    (hp : next' p = x) (hx : next' x = next p) (heq : ∀ y ∈ pre ++ p :: rest, y ≠ p → next' y = next y) :
    Linked next' nil (pre ++ p :: x :: rest) := by
  induction pre with
  | nil =>
    have hp' : p ∉ rest := (List.nodup_cons.mp hnodup).1
    refine cons hp (cons (hx.trans h.next_head) (h.tail.congr ?_))
    intro y hy
    exact heq y (List.mem_cons_of_mem p hy) fun he => hp' (he ▸ hy)
  | cons y pre ih =>
    have hne : y ≠ p := by
      rintro rfl
      exact (List.nodup_cons.mp hnodup).1 (by simp)
    refine cons ?_ (ih h.tail (List.nodup_cons.mp hnodup).2 ?_)
    · rw [heq y (by simp) hne, h.next_head]
      cases pre <;> rfl
    · exact fun z hz => heq z (List.mem_cons_of_mem y hz)

end Linked
end Web3
