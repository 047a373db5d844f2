import Mathlib.Order.Basic

/-! # Outcomes of a Go call

A Go function that returns `(T, error)` ends in one of three ways: it returns a value with a nil
error, it returns a non-nil error, or it panics. `Outcome` keeps the three apart, so that "returns
an error" and "crashes" are different statements. Errors and panics carry their message. -/

namespace Web3

/-- The result of a Go call with result type `α`. -/
inductive Outcome (α : Type) where
  | ok (a : α)
  | err (msg : String)
  | panic (msg : String)
  deriving DecidableEq, Repr

namespace Outcome
variable {α β γ : Type}

/-- Sequencing: an error is returned to the caller at once, a panic unwinds. -/
def bind (x : Outcome α) (f : α → Outcome β) : Outcome β :=
  match x with
  | ok a => f a
  | err e => err e
  | panic p => panic p

instance : Monad Outcome where
  pure := ok
  bind := bind

@[simp] theorem pure_eq (a : α) : (pure a : Outcome α) = ok a := rfl
@[simp] theorem ok_bind (a : α) (f : α → Outcome β) : (ok a >>= f) = f a := rfl
@[simp] theorem err_bind (e : String) (f : α → Outcome β) : (err e >>= f) = err e := rfl
@[simp] theorem panic_bind (p : String) (f : α → Outcome β) : (panic p >>= f) = panic p := rfl

instance : LawfulMonad Outcome :=
  LawfulMonad.mk' Outcome (fun x => by cases x <;> rfl) (fun _ _ => rfl)
    (fun x _ _ => by cases x <;> rfl)

@[simp] theorem map_ok (f : α → β) (a : α) : f <$> (ok a : Outcome α) = ok (f a) := rfl

/-- The call returned: with a value or with an error, but without a panic. -/
def Returns : Outcome α → Prop
  | panic _ => False
  | _ => True

instance (x : Outcome α) : Decidable x.Returns := by
  cases x <;> simp only [Returns] <;> infer_instance

variable {x : Outcome α} {f : α → Outcome β} {a : α} {P : α → Prop} {R : α → β → Prop}
  {y : Outcome β} {g : β → γ}

@[simp] theorem returns_ok (a : α) : (ok a).Returns := trivial
@[simp] theorem returns_err (e : String) : (err e : Outcome α).Returns := trivial
@[simp] theorem not_returns_panic (p : String) : ¬ (panic p : Outcome α).Returns := id

theorem bind_eq_ok {b : β} : (x >>= f) = ok b ↔ ∃ a, x = ok a ∧ f a = ok b := by
  cases x with
  | ok | err | panic => simp

theorem checked_eq_ok {c : Prop} [Decidable c] {e : String} : (if c then err e else x) = ok a ↔ ¬c ∧ x = ok a := by
  split
  next h => simp [h]
  next h => simp [h]

/-- A sequence returns when its first part does, and its second part does on every value the
first one yields. -/
theorem returns_bind : (x >>= f).Returns ↔ x.Returns ∧ ∀ a, x = ok a → (f a).Returns := by
  cases x with
  | ok | err | panic => simp

/-! ## Successful results -/

def toOption : Outcome α → Option α
  | ok a => some a
  | _ => none

@[simp] theorem toOption_ok (a : α) : (ok a).toOption = some a := rfl
@[simp] theorem toOption_err (e : String) : (err e : Outcome α).toOption = none := rfl
@[simp] theorem toOption_panic (p : String) : (panic p : Outcome α).toOption = none := rfl

theorem toOption_eq_some : x.toOption = some a ↔ x = ok a := by
  cases x with
  | ok | err | panic => simp

theorem toOption_bind (x : Outcome α) (f : α → Outcome β) :
    (x >>= f).toOption = x.toOption.bind fun a => (f a).toOption := by
  cases x with
  | ok | err | panic => rfl

/-! ## Fatal errors -/

/-- `utils.Ensure`: an error becomes a panic. -/
def ensure : Outcome α → Outcome α
  | ok a => ok a
  | err e => panic e
  | panic p => panic p

@[simp] theorem ensure_ok (a : α) : (ok a).ensure = ok a := rfl
@[simp] theorem ensure_err (e : String) : (err e : Outcome α).ensure = panic e := rfl
@[simp] theorem ensure_panic (p : String) : (panic p : Outcome α).ensure = panic p := rfl

theorem returns_ensure : x.ensure.Returns ↔ ∃ a, x = ok a := by
  cases x with
  | ok | err | panic => simp

/-! ## Postconditions -/

def Ensures (P : α → Prop) (x : Outcome α) : Prop := ∀ a, x = ok a → P a

theorem ensures_ok (h : P a) : (ok a).Ensures P := by
  rintro b ⟨⟩
  exact h

theorem ensures_panic (P : α → Prop) (p : String) : (panic p : Outcome α).Ensures P := nofun

theorem Ensures.bind {Q : β → Prop} (hx : x.Ensures P) (hf : ∀ a, P a → (f a).Ensures Q) : (x >>= f).Ensures Q := by
  intro b hb
  obtain ⟨a, ha, hb⟩ := bind_eq_ok.mp hb
  exact hf a (hx a ha) b hb

/-! ## Calls whose ending is known -/

/-- The call succeeds exactly when `p`, and returns exactly when `q`. -/
structure Decided (x : Outcome α) (p q : Prop) : Prop where
  ok : (∃ a, x = Outcome.ok a) ↔ p
  returns : x.Returns ↔ q

namespace Decided
variable {p q r s : Prop}

theorem of_ok (a : α) : (Outcome.ok a).Decided True True := ⟨iff_of_true ⟨a, rfl⟩ trivial, Iff.rfl⟩

theorem of_err (e : String) : (err e : Outcome α).Decided False True := ⟨by simp, Iff.rfl⟩

theorem congr (h : x.Decided p q) (hp : p ↔ r) (hq : q ↔ s) : x.Decided r s := ⟨h.ok.trans hp, h.returns.trans hq⟩

theorem bind (hx : x.Decided p q) (hf : ∀ a, x = Outcome.ok a → (f a).Decided r s) :
    (x >>= f).Decided (p ∧ r) (q ∧ (p → s)) := by
  rw [← hx.ok, ← hx.returns]
  cases x with
  | ok a => simpa using hf a rfl
  | err e => exact (of_err e).congr (by simp) (by simp)
  | panic e => exact ⟨by simp, by simp⟩

/-- A check before the call. -/
theorem checked {c : Prop} [Decidable c] {e : String} (hp : p → ¬c) (hq : c → q) (h : ¬c → x.Decided p q) :
    (if c then err e else x).Decided p q := by
  split
  next hc => exact (of_err e).congr (iff_of_false id fun h => hp h hc) (iff_of_true trivial (hq hc))
  next hc => exact h hc

end Decided

/-! ## Two calls with related results -/

/-- Both calls return related values, or both end with the same error or panic. -/
inductive LiftRel (R : α → β → Prop) : Outcome α → Outcome β → Prop
  | ok {a : α} {b : β} (h : R a b) : LiftRel R (ok a) (ok b)
  | err (e : String) : LiftRel R (err e) (err e)
  | panic (p : String) : LiftRel R (panic p) (panic p)

theorem LiftRel.refl {R : α → α → Prop} (hR : ∀ a, R a a) (x : Outcome α) : LiftRel R x x := by
  cases x with
  | ok a => exact .ok (hR a)
  | err e => exact .err e
  | panic p => exact .panic p

theorem LiftRel.bind {α' β' : Type} {S : α' → β' → Prop} {f : α → Outcome α'} {g : β → Outcome β'}
    (hxy : LiftRel R x y) (hfg : ∀ a b, R a b → LiftRel S (f a) (g b)) : LiftRel S (x >>= f) (y >>= g) := by
  cases hxy with
  | ok h => exact hfg _ _ h
  | err e => exact .err e
  | panic p => exact .panic p

theorem LiftRel.map_eq {f : α → γ} (h : LiftRel R x y) (hR : ∀ a b, R a b → f a = g b) : f <$> x = g <$> y := by
  cases h with
  | ok hab => rw [map_ok, map_ok, hR _ _ hab]
  | err | panic => rfl

theorem LiftRel.toOption_map_eq {f : α → γ} (h : LiftRel R x y) (hR : ∀ a b, R a b → f a = g b) :
    x.toOption.map f = y.toOption.map g := by
  cases h with
  | ok hab => exact congrArg some (hR _ _ hab)
  | err | panic => rfl

end Outcome
end Web3
