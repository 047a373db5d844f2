import Mathlib.Order.RelClasses

/-! # Programs on a state

A program takes a state and ends with a value or with an error, both with the state as it then is, or
it stops, and no state is left. `wp` says what must hold before for the given conditions to hold
afterwards. `Keeps R` says that every state a program ends in is in relation `R` to the one it
started in, `Below X` that one program does what another one does unless it gives up first, and
`Twin Q R` relates the ends of two runs. -/

namespace Web3

/-- How a program on `S` ends. -/
inductive Ending (S E F α : Type) where
  | ok (a : α) (s : S)
  | error (e : E) (s : S)
  | stop (f : F)

def Ending.result {S E F α : Type} : Ending S E F α → Option (α × S)
  | ok a s => some (a, s)
  | _ => none

theorem Ending.eq_ok_of_result {S E F α : Type} {e : Ending S E F α} {a : α} {s : S}
    (h : e.result = some (a, s)) : e = .ok a s := by
  cases e <;> cases h
  rfl

def Prog (S E F α : Type) : Type := S → Ending S E F α

namespace Prog
variable {S T E E' F F' α β : Type}

instance : Monad (Prog S E F) where
  pure a := fun s => .ok a s
  bind m k := fun s =>
    match m s with
    | .ok a s => k a s
    | .error e s => .error e s
    | .stop f => .stop f

theorem bind_apply (m : Prog S E F α) (k : α → Prog S E F β) (s : S) : (m >>= k) s = match m s with
      | .ok a s => k a s
      | .error e s => .error e s
      | .stop f => .stop f := rfl

def read (r : S → α) : Prog S E F α := fun s => .ok (r s) s

def modify (u : S → S) : Prog S E F Unit := fun s => .ok () (u s)

def throw (e : E) : Prog S E F α := fun s => .error e s

def halt (f : F) : Prog S E F α := fun _ => .stop f

def when (c : Prop) [Decidable c] (m : Prog S E F Unit) : Prog S E F Unit := if c then m else pure ()

def attempt (m : Prog S E F α) : Prog S E' F (Except E α) := fun s =>
  match m s with
  | .ok a s => .ok (.ok a) s
  | .error e s => .ok (.error e) s
  | .stop f => .stop f

/-- A program on a part `T` of the state, with its errors and stops among the larger ones. -/
def zoom (part : S → T) (put : T → S → S) (err : E → E') (stop : F → F') (m : Prog T E F α) : Prog S E' F' α := fun s =>
  match m (part s) with
  | .ok a t => .ok a (put t s)
  | .error e t => .error (err e) (put t s)
  | .stop f => .stop (stop f)

def ofExcept (r : Except F α) : Prog S E F α := fun s =>
  match r with
  | .ok a => .ok a s
  | .error f => .stop f

/-! ## Weakest preconditions -/

/-- `m` from `s` ends with a value and a state as in `Q`, with an error and a state as in `R`, or stops
as in `X`. -/
def wp (m : Prog S E F α) (Q : α → S → Prop) (R : E → S → Prop) (X : F → Prop) (s : S) : Prop :=
  match m s with
  | .ok a s => Q a s
  | .error e s => R e s
  | .stop f => X f

variable {m : Prog S E F α} {Q Q' : α → S → Prop} {R R' : E → S → Prop} {X X' : F → Prop} {s s' : S}
  {part : S → T} {err : E → E'} {stop : F → F'} {c : Prop} {a : α} {e : E} {f : F}
  {k k' : α → Prog S E F β} {P : α → Prop}

@[simp] theorem wp_pure (a : α) : wp (pure a : Prog S E F α) Q R X s ↔ Q a s := Iff.rfl

@[simp] theorem wp_bind (k : α → Prog S E F β) {Q : β → S → Prop} :
    wp (m >>= k) Q R X s ↔ wp m (fun a => wp (k a) Q R X) R X s := by
  rw [wp, bind_apply, wp]
  cases m s <;> rfl

@[simp] theorem wp_read (r : S → α) : wp (read r : Prog S E F α) Q R X s ↔ Q (r s) s := Iff.rfl

@[simp] theorem wp_modify (u : S → S) {Q : Unit → S → Prop} :
    wp (modify u : Prog S E F Unit) Q R X s ↔ Q () (u s) := Iff.rfl

@[simp] theorem wp_throw (e : E) : wp (throw e : Prog S E F α) Q R X s ↔ R e s := Iff.rfl

@[simp] theorem wp_halt (f : F) : wp (halt f : Prog S E F α) Q R X s ↔ X f := Iff.rfl

@[simp] theorem wp_attempt {R : E' → S → Prop} {Q : Except E α → S → Prop} :
    wp (attempt m : Prog S E' F (Except E α)) Q R X s ↔ wp m (fun a => Q (.ok a)) (fun e => Q (.error e)) X s := by
  simp only [wp, attempt]
  cases m s <;> rfl

@[simp] theorem wp_zoom {put : T → S → S} {m : Prog T E F α} {R : E' → S → Prop} {X : F' → Prop} :
    wp (zoom part put err stop m) Q R X s ↔
      wp m (fun a t => Q a (put t s)) (fun e t => R (err e) (put t s)) (fun f => X (stop f)) (part s) := by
  simp only [wp, zoom]
  cases m (part s) <;> rfl

@[simp] theorem wp_ofExcept (r : Except F α) :
    wp (ofExcept r : Prog S E F α) Q R X s ↔ (∀ a, r = .ok a → Q a s) ∧ ∀ f, r = .error f → X f := by
  cases r <;> simp [wp, ofExcept]

theorem wp_ite [Decidable c] {n : Prog S E F α} :
    wp (if c then m else n) Q R X s ↔ (c → wp m Q R X s) ∧ (¬c → wp n Q R X s) := by
  split
  next h => simp [h]
  next h => simp [h]

@[simp] theorem wp_when [Decidable c] {m : Prog S E F Unit} {Q : Unit → S → Prop} :
    wp (when c m) Q R X s ↔ (c → wp m Q R X s) ∧ (¬c → Q () s) := wp_ite

theorem wp_of_forall (hQ : ∀ a s, Q a s) (hR : ∀ e s, R e s) (hX : ∀ f, X f) : wp m Q R X s := by
  rw [wp]
  cases m s with
  | ok a s => exact hQ a s
  | error e s => exact hR e s
  | stop f => exact hX f

section
variable (h : wp m Q R X s)
include h

theorem wp_mono (hQ : ∀ a s, Q a s → Q' a s) (hR : ∀ e s, R e s → R' e s)
    (hX : ∀ f, X f → X' f) : wp m Q' R' X' s := by
  revert h
  simp only [wp]
  cases m s with
  | ok a s => exact hQ a s
  | error e s => exact hR e s
  | stop f => exact hX f

theorem wp_and (h' : wp m Q' R' X' s) :
    wp m (fun a s => Q a s ∧ Q' a s) (fun e s => R e s ∧ R' e s) (fun f => X f ∧ X' f) s := by
  revert h h'
  simp only [wp]
  cases m s <;> exact And.intro

theorem wp_ok (hm : m s = .ok a s') : Q a s' := by
  rwa [wp, hm] at h

theorem wp_error (hm : m s = .error e s') : R e s' := by
  rwa [wp, hm] at h

theorem wp_stop (hm : m s = .stop f) : X f := by
  rwa [wp, hm] at h

end

/-! ## Programs that end with a value -/

theorem exists_ok_of_wp (h : wp m Q (fun _ _ => False) (fun _ => False) s) : ∃ a t, m s = .ok a t ∧ Q a t := by
  rw [wp] at h
  cases hm : m s with
  | ok a t =>
    rw [hm] at h
    exact ⟨a, t, rfl, h⟩
  | error e t | stop f =>
    rw [hm] at h
    exact h.elim

theorem bind_eq_ok {b : β} : (m >>= k) s = .ok b s' ↔ ∃ a t, m s = .ok a t ∧ k a t = .ok b s' := by
  rw [bind_apply]
  cases m s <;> simp [and_assoc]

theorem bind_of_ok (h : m s = .ok a s') (k : α → Prog S E F β) : (m >>= k) s = k a s' := by
  rw [bind_apply, h]

theorem bind_of_error (h : m s = .error e s') (k : α → Prog S E F β) : (m >>= k) s = .error e s' := by
  rw [bind_apply, h]

theorem bind_of_stop (h : m s = .stop f) (k : α → Prog S E F β) : (m >>= k) s = .stop f := by
  rw [bind_apply, h]

theorem zoom_eq_ok {put : T → S → S} {m : Prog T E F α} :
    zoom part put err stop m s = .ok a s' ↔ ∃ t, m (part s) = .ok a t ∧ put t s = s' := by
  rw [zoom]
  cases m (part s) <;> simp [and_assoc]

/-! ## Values -/

def Yields (P : α → Prop) (m : Prog S E F α) : Prop :=
  ∀ s, wp m (fun a _ => P a) (fun _ _ => True) (fun _ => True) s

theorem Yields.pure (h : P a) : Yields P (pure a : Prog S E F α) := fun _ => h

theorem Yields.throw (e : E) : Yields P (throw e : Prog S E F α) := fun _ => trivial

theorem Yields.true (m : Prog S E F α) : Yields (fun _ => True) m :=
  fun _ => wp_of_forall (fun _ _ => trivial) (fun _ _ => trivial) fun _ => trivial

theorem Yields.bind {P' : β → Prop} (hm : Yields P m) (hk : ∀ a, P a → Yields P' (k a)) : Yields P' (m >>= k) := by
  intro s
  rw [wp_bind]
  exact wp_mono (hm s) (fun a t ha => hk a ha t) (fun _ _ h => h) (fun _ h => h)

theorem Yields.ite [Decidable c] {n : Prog S E F α} (hm : c → Yields P m) (hn : ¬c → Yields P n) :
    Yields P (if c then m else n) := by
  split
  next h => exact hm h
  next h => exact hn h

/-! ## Relations that a program keeps -/

/-- Every state that `m` ends in is related to the one before; it stops only as in `X`. -/
def Keeps (Rel : S → S → Prop) (X : F → Prop) (m : Prog S E F α) : Prop :=
  ∀ s, wp m (fun _ t => Rel s t) (fun _ t => Rel s t) X s

variable {Rel : S → S → Prop}

theorem Keeps.halt (h : X f) : Keeps Rel X (halt f : Prog S E F α) := fun _ => h

theorem Keeps.ite [Decidable c] {n : Prog S E F α} (hm : c → Keeps Rel X m)
    (hn : ¬c → Keeps Rel X n) : Keeps Rel X (if c then m else n) := by
  split
  next h => exact hm h
  next h => exact hn h

section Preorder
variable [IsPreorder S Rel]

theorem Keeps.pure (a : α) : Keeps Rel X (pure a : Prog S E F α) := fun s => refl_of Rel s

theorem Keeps.read (r : S → α) : Keeps Rel X (read r : Prog S E F α) := fun s => refl_of Rel s

theorem Keeps.throw (e : E) : Keeps Rel X (throw e : Prog S E F α) := fun s => refl_of Rel s

theorem Keeps.when [Decidable c] {m : Prog S E F Unit} (hm : c → Keeps Rel X m) : Keeps Rel X (when c m) :=
  Keeps.ite hm fun _ => Keeps.pure ()

theorem Keeps.bind (hm : Keeps Rel X m) (hk : ∀ a, Keeps Rel X (k a)) : Keeps Rel X (m >>= k) := by
  intro s
  rw [wp_bind]
  refine wp_mono (hm s) (fun a t hst => ?_) (fun _ _ h => h) (fun _ h => h)
  exact wp_mono (hk a t) (fun _ u htu => trans_of Rel hst htu) (fun _ u htu => trans_of Rel hst htu)
    (fun _ h => h)

end Preorder

theorem Keeps.wp_bind {Q : β → S → Prop} (hm : Keeps Rel X m) (hP : Yields P m)
    (hk : ∀ a t, Rel s t → P a → wp (k a) Q R X t) (hR : ∀ e t, Rel s t → R e t) : wp (m >>= k) Q R X s := by
  rw [Prog.wp_bind]
  exact wp_mono (wp_and (hm s) (hP s)) (fun a t h => hk a t h.1 h.2) (fun e t h => hR e t h.1)
    (fun _ h => h.1)

/-! ## Programs that give up early -/

def Below (X : F → Prop) (m m' : Prog S E F α) : Prop := ∀ s, m' s = m s ∨ ∃ f, X f ∧ m s = .stop f

namespace Below
variable {m' n n' : Prog S E F α}

theorem refl (m : Prog S E F α) : Below X m m := fun _ => .inl rfl

theorem halt {f : F} (h : X f) : Below X (halt f) m' := fun _ => .inr ⟨f, h, rfl⟩

theorem bind (hm : Below X m m') (hk : ∀ a, Below X (k a) (k' a)) : Below X (m >>= k) (m' >>= k') := by
  intro s
  rw [bind_apply, bind_apply]
  rcases hm s with heq | ⟨f, hf, hstop⟩
  · rw [heq]
    cases m s with
    | ok a t => exact hk a t
    | error | stop => exact .inl rfl
  · rw [hstop]
    exact .inr ⟨f, hf, rfl⟩

theorem after (hk : ∀ a, Below X (k a) (k' a)) : Below X (m >>= k) (m >>= k') := bind (refl m) hk

theorem before (hm : Below X m m') : Below X (m >>= k) (m' >>= k) := bind hm fun _ => refl _

theorem attempt (hm : Below X m m') : Below X (attempt m : Prog S E' F (Except E α)) (Prog.attempt m') := by
  intro s
  rw [Prog.attempt, Prog.attempt]
  rcases hm s with heq | ⟨f, hf, hstop⟩
  · exact .inl (by rw [heq])
  · exact .inr ⟨f, hf, by rw [hstop]⟩

theorem zoom {part : S → T} {put : T → S → S} {err : E → E'} {stop : F → F'} {X : F' → Prop}
    {m m' : Prog T E F α} (hm : Below (fun f => X (stop f)) m m') :
    Below X (zoom part put err stop m) (Prog.zoom part put err stop m') := by
  intro s
  rw [Prog.zoom, Prog.zoom]
  rcases hm (part s) with heq | ⟨f, hf, hstop⟩
  · exact .inl (by rw [heq])
  · exact .inr ⟨stop f, hf, by rw [hstop]⟩

theorem ite [Decidable c] (hm : Below X m m') (hn : Below X n n') :
    Below X (if c then m else n) (if c then m' else n') := by
  split
  · exact hm
  · exact hn

theorem eq_of_wp (hm : Below X m m') (h : wp m Q R (fun f => ¬X f) s) : m' s = m s := by
  rcases hm s with heq | ⟨f, hf, hstop⟩
  · exact heq
  · rw [wp, hstop] at h
    exact absurd hf h

end Below

/-! ## Two runs -/

/-- Two ends of the same kind, with related values or errors, and states. -/
inductive Twin (Q : α → α → S → S → Prop) (R : E → E → S → S → Prop) : Ending S E F α → Ending S E F α → Prop
  | ok {a a' : α} {s s' : S} : Q a a' s s' → Twin Q R (.ok a s) (.ok a' s')
  | error {e e' : E} {s s' : S} : R e e' s s' → Twin Q R (.error e s) (.error e' s')
  | stop (f : F) : Twin Q R (.stop f) (.stop f)

namespace Twin
variable {Q : α → α → S → S → Prop} {R : E → E → S → S → Prop} {m m' : Prog S E F α}

theorem bind {Q' : β → β → S → S → Prop} (hm : Twin Q R (m s) (m' s'))
    (hk : ∀ a a' t t', Q a a' t t' → Twin Q' R (k a t) (k' a' t')) : Twin Q' R ((m >>= k) s) ((m' >>= k') s') := by
  rw [bind_apply, bind_apply]
  generalize m s = x, m' s' = x' at hm ⊢
  cases hm with
  | ok h => exact hk _ _ _ _ h
  | error h => exact .error h
  | stop f => exact .stop f

theorem attempt_bind {Q' : β → β → S → S → Prop} {R' : E' → E' → S → S → Prop} {k k' : Except E α → Prog S E' F β}
    (hm : Twin Q R (m s) (m' s')) (hok : ∀ a a' t t', Q a a' t t' → Twin Q' R' (k (.ok a) t) (k' (.ok a') t'))
    (herror : ∀ e e' t t', R e e' t t' → Twin Q' R' (k (.error e) t) (k' (.error e') t')) :
    Twin Q' R' ((attempt m >>= k) s) ((attempt m' >>= k') s') := by
  rw [bind_apply, bind_apply, attempt, attempt]
  generalize m s = x, m' s' = x' at hm ⊢
  cases hm with
  | ok h => exact hok _ _ _ _ h
  | error h => exact herror _ _ _ _ h
  | stop f => exact .stop f

end Twin

end Prog

end Web3
