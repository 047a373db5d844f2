import Mathlib.Data.List.Forall2

/-! # Runs of a system

A system that takes a step for each action, if it can. `Meets` says that every step of a run is taken in
a state as in a condition; what such steps keep holds after the run (`invariant`). -/

namespace Web3.Transitions

variable {S A : Type} (step : S → A → Option S)

def run (s : S) : List A → Option S
  | [] => some s
  | a :: as => (step s a).bind fun s' => run s' as

/-- Every action of the sequence is taken in a state as in `C`. -/
def Meets (C : S → A → Prop) (s : S) : List A → Prop
  | [] => True
  | a :: as => C s a ∧ ∀ s' ∈ step s a, Meets C s' as

instance decidableMeets (C : S → A → Prop) [∀ s a, Decidable (C s a)] :
    (s : S) → (as : List A) → Decidable (Meets step C s as)
  | _, [] => inferInstanceAs (Decidable True)
  | s, a :: as =>
    haveI : DecidablePred fun s' => Meets step C s' as := fun s' => decidableMeets C s' as
    inferInstanceAs (Decidable (C s a ∧ ∀ s' ∈ step s a, Meets step C s' as))

variable {step} {C : S → A → Prop} {I : S → Prop} {s : S} {as : List A}

/-- **The invariant rule.** -/
theorem invariant (hstep : ∀ s a s', I s → C s a → step s a = some s' → I s') {s' : S} (hs : I s)
    (hmeets : Meets step C s as) (hrun : run step s as = some s') : I s' := by
  induction as generalizing s with
  | nil =>
    cases hrun
    exact hs
  | cons a as ih =>
    obtain ⟨t, ht, hrun⟩ := Option.bind_eq_some_iff.mp hrun
    exact ih (hstep s a t hs hmeets.1 ht) (hmeets.2 t ht) hrun

/-! ## Answers

A system that answers every request. Two systems that stay related under the requests that are `Valid` give
related answers exactly if every request is made in a state as in `C`. -/

section Answers
variable {T R Q : Type} {next : S → A → R × S} {next' : T → A → Q × T}

def answers (next : S → A → R × S) (s : S) : List A → List R
  | [] => []
  | a :: as => (next s a).1 :: answers next (next s a).2 as

/-- Every request of the sequence is made in a state as in `C`. -/
def Allows (next : S → A → R × S) (C : S → A → Prop) (s : S) (as : List A) : Prop :=
  Meets (fun s a => some (next s a).2) C s as

instance (C : S → A → Prop) [∀ s a, Decidable (C s a)] (s : S) (as : List A) : Decidable (Allows next C s as) :=
  decidableMeets _ C s as

theorem allows_cons {a : A} : Allows next C s (a :: as) ↔ C s a ∧ Allows next C (next s a).2 as := by
  simp [Allows, Meets]

theorem allows_of_forall (h : ∀ s a, C s a) (s : S) (as : List A) : Allows next C s as := by
  induction as generalizing s with
  | nil => trivial
  | cons a as ih => exact allows_cons.mpr ⟨h s a, ih _⟩

theorem answers_related_iff {sim : S → T → Prop} {eqv : R → Q → Prop} {Valid C : T → A → Prop}
    (hstep : ∀ s t a, sim s t → Valid t a → sim (next s a).2 (next' t a).2 ∧ (eqv (next s a).1 (next' t a).1 ↔ C t a))
    {t : T} (hs : sim s t) (hvalid : Allows next' Valid t as) :
    List.Forall₂ eqv (answers next s as) (answers next' t as) ↔ Allows next' C t as := by
  induction as generalizing s t with
  | nil => simp [answers, Allows, Meets]
  | cons a as ih =>
    obtain ⟨ha, has⟩ := allows_cons.mp hvalid
    obtain ⟨hsim, hanswer⟩ := hstep s t a hs ha
    rw [answers, answers, List.forall₂_cons, hanswer, ih hsim has, allows_cons]

end Answers

end Web3.Transitions
