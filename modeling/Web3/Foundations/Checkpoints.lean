import Mathlib.Tactic

/-! # A state with a stack of checkpoints

A machine whose state can be saved on a stack and restored from it by index, which also drops the
checkpoint and everything above it. The calls that change the state are a parameter. A run that never
restores one of the first checkpoints keeps them (`run_keeps`), so that restoring the one taken at its
start undoes the run (`restore_run`). -/

namespace Web3

/-- The current state, and the saved ones, oldest first. -/
structure Checkpointed (α : Type) where
  current : α
  saved : List α

namespace Checkpointed
variable {α ι : Type}

inductive Cmd (ι : Type) where
  | call (i : ι)
  | save
  | restore (id : ℤ)

def save (c : Checkpointed α) : Checkpointed α := { c with saved := c.saved ++ [c.current] }

/-- Go back to a checkpoint, and drop it with all later ones. -/
def restore (c : Checkpointed α) (id : ℤ) : Option (Checkpointed α) :=
  if id < 0 then none
  else
    c.saved[id.toNat]?.map fun a => { current := a, saved := c.saved.take id.toNat }

def exec (step : ι → α → Option α) (c : Checkpointed α) : Cmd ι → Option (Checkpointed α)
  | .call i => (step i c.current).map fun a => { c with current := a }
  | .save => some c.save
  | .restore id => c.restore id

def run (step : ι → α → Option α) (c : Checkpointed α) : List (Cmd ι) → Option (Checkpointed α)
  | [] => some c
  | cmd :: cmds => (exec step c cmd).bind fun c => run step c cmds

theorem restore_of_prefix {c d : Checkpointed α} (h : c.save.saved <+: d.saved) :
    d.restore c.saved.length = some c := by
  obtain ⟨rest, hd⟩ := h
  have hd : d.saved = c.saved ++ c.current :: rest := by
    rw [← hd, save, List.append_assoc, List.singleton_append]
  rw [restore, if_neg (by omega), Int.toNat_natCast, hd, List.getElem?_append_right le_rfl,
    Nat.sub_self, List.take_left]
  rfl

variable {id : ℤ} {step : ι → α → Option α} {cmds : List (Cmd ι)} {β : Type}

theorem restore_eq_some {c d : Checkpointed α} (h : c.restore id = some d) :
    0 ≤ id ∧ d.saved = c.saved.take id.toNat := by
  rw [restore] at h
  split at h
  · cases h
  next hneg =>
    obtain ⟨a, -, rfl⟩ := Option.map_eq_some_iff.mp h
    exact ⟨by omega, rfl⟩

theorem exec_keeps {base : List α} {c d : Checkpointed α} {cmd : Cmd ι} (hbase : base <+: c.saved)
    (hcmd : ∀ id, cmd = .restore id → base.length ≤ id) (h : exec step c cmd = some d) : base <+: d.saved := by
  cases cmd with
  | call i =>
    obtain ⟨a, -, rfl⟩ := Option.map_eq_some_iff.mp h
    exact hbase
  | save =>
    cases h
    exact hbase.trans (List.prefix_append _ _)
  | restore id =>
    obtain ⟨hid, hd⟩ := restore_eq_some h
    have hlow := hcmd id rfl
    rw [hd]
    exact List.prefix_take_iff.mpr ⟨hbase, by omega⟩

theorem run_keeps {base : List α} {c d : Checkpointed α} (hbase : base <+: c.saved)
    (hcmds : ∀ id : ℤ, .restore id ∈ cmds → base.length ≤ id) (h : run step c cmds = some d) :
    base <+: d.saved := by
  induction cmds generalizing c with
  | nil =>
    cases h
    exact hbase
  | cons cmd cmds ih =>
    obtain ⟨c', hc, hd⟩ := Option.bind_eq_some_iff.mp h
    have hhead : ∀ id, cmd = .restore id → base.length ≤ id :=
      fun id he => hcmds id (he ▸ List.mem_cons_self ..)
    exact ih (exec_keeps hbase hhead hc) (fun id hid => hcmds id (List.mem_cons_of_mem _ hid)) hd

theorem restore_run {c d : Checkpointed α}
    (hcmds : ∀ id : ℤ, .restore id ∈ cmds → c.saved.length < id) (h : run step c.save cmds = some d) :
    d.restore c.saved.length = some c := by
  refine restore_of_prefix (run_keeps (List.prefix_refl _) ?_ h)
  intro id hid
  have := hcmds id hid
  rw [save, List.length_append, List.length_singleton]
  omega

/-! ## What is seen of the states -/

def map {β : Type} (f : α → β) (c : Checkpointed α) : Checkpointed β :=
  { current := f c.current, saved := c.saved.map f }

theorem map_save (f : α → β) (c : Checkpointed α) : (c.map f).save = c.save.map f := by
  simp [map, save]

theorem map_restore (f : α → β) (c : Checkpointed α) (id : ℤ) :
    (c.map f).restore id = (c.restore id).map (map f) := by
  unfold restore
  split
  · rfl
  · simp [map, List.map_take, Function.comp_def]

/-! ## Invariants -/

/-- The current state is as in `P`, and so are the checkpoints from number `base` on. -/
def Holds (base : ℕ) (P : α → Prop) (c : Checkpointed α) : Prop :=
  P c.current ∧ ∀ i a, base ≤ i → c.saved[i]? = some a → P a

namespace Holds
variable {base : ℕ} {P P' : α → Prop} {c d : Checkpointed α}

theorem mono (h : c.Holds base P) (hP : ∀ a, P a → P' a) : c.Holds base P' :=
  ⟨hP _ h.1, fun i a hi ha => hP a (h.2 i a hi ha)⟩

theorem save (h : c.Holds base P) : c.save.Holds base P := by
  refine ⟨h.1, fun i a hi ha => ?_⟩
  rw [Checkpointed.save, List.getElem?_append] at ha
  split at ha
  · exact h.2 i a hi ha
  · obtain rfl : c.current = a := by
      rw [List.getElem?_singleton] at ha
      split at ha
      · exact Option.some.inj ha
      · cases ha
    exact h.1

end Holds

theorem holds_restore {base : ℕ} {P : α → Prop} {c d : Checkpointed α}
    (h : ∀ i a, base ≤ i → c.saved[i]? = some a → P a) (hid : (base : ℤ) ≤ id)
    (hd : c.restore id = some d) : d.Holds base P := by
  rw [Checkpointed.restore] at hd
  split at hd
  · cases hd
  · obtain ⟨a, ha, rfl⟩ := Option.map_eq_some_iff.mp hd
    refine ⟨h id.toNat a (by omega) ha, fun i b hi hb => ?_⟩
    rw [List.getElem?_take] at hb
    split at hb
    · exact h i b hi hb
    · cases hb

end Checkpointed
end Web3
