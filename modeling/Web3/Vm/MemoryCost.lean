import Web3.Vm.GasTable

/-! # What memory costs

Before an instruction the interpreter rounds the size that it needs up to words, charges for it and lets the memory grow.
The memory keeps the price of its size, and an expansion is charged the difference, so that all the fees of a frame add
up to the price of the memory it has. -/

namespace Web3.Vm
open Prog

theorem Memory.len_resize (m : Memory) (size : UInt64) : (m.resize size).len = max m.len size.toNat := by
  rw [Memory.resize]
  split
  next h =>
    simp only [Memory.len, List.length_append, List.length_replicate] at h ⊢
    omega
  next h => omega

theorem Memory.lastGasCost_resize (m : Memory) (size : UInt64) : (m.resize size).lastGasCost = m.lastGasCost := by
  rw [Memory.resize]
  split <;> rfl

theorem toNat_toWordSize (size : UInt64) (h : size.toNat ≤ 2 ^ 64 - 32) :
    (size + 31).toNat = size.toNat + 31 ∧ (toWordSize size).toNat = (size.toNat + 31) / 32 := by
  have hadd : (size + 31).toNat = size.toNat + 31 := by
    rw [UInt64.toNat_add, show (31 : UInt64).toNat = 31 from rfl, Nat.mod_eq_of_lt (by omega)]
  have hmax : ((0xffffffffffffffff : UInt64) - 31).toNat = 2 ^ 64 - 32 := by decide
  refine ⟨hadd, ?_⟩
  rw [toWordSize, if_neg (by rw [gt_iff_lt, UInt64.lt_iff_toNat_lt]; omega), UInt64.toNat_div, hadd]
  rfl

theorem le_of_safeMul_toWordSize {size : UInt64} (h : (safeMul (toWordSize size) 32).2 = false) :
    size.toNat ≤ 2 ^ 64 - 32 := by
  by_contra! hlt
  have hmax : ((0xffffffffffffffff : UInt64) - 31).toNat = 2 ^ 64 - 32 := by decide
  rw [toWordSize, if_pos (by rw [gt_iff_lt, UInt64.lt_iff_toNat_lt, hmax]; exact hlt)] at h
  cases h

/-- The price of a memory. -/
def memoryCost (words : ℕ) : ℕ := 3 * words + words * words / 512

theorem memoryCost_mono : Monotone memoryCost := fun _ _ h =>
  Nat.add_le_add (Nat.mul_le_mul_left 3 h) (Nat.div_le_div_right (Nat.mul_le_mul h h))

/-- What is done about the memory for an instruction that needs `memSize` bytes of it. -/
def expandMemory (memSize : UInt64) : MachineM UInt64 := do
  let memorySize ← noOverflow (safeMul (toWordSize memSize) 32)
  let fee ← memoryGasCost memorySize
  .when (memorySize > 0) (.modify fun m => { m with memory := m.memory.resize memorySize })
  return fee

/-- A memory of whole words whose price is recorded. -/
structure Memory.Priced (mem : Memory) : Prop where
  words : 32 ∣ mem.len
  bound : mem.len ≤ 0x1FFFFFFFE0
  cost : mem.lastGasCost.toNat = memoryCost (mem.len / 32)

/-- The operations of `memoryGasCost` are those on natural numbers. -/
structure ExactCost (mem : Memory) (size : UInt64) : Prop where
  round : (size + 31).toNat = size.toNat + 31
  newMemSize : (toWordSize size * 32).toNat = (toWordSize size).toNat * 32
  square : (toWordSize size * toWordSize size).toNat = (toWordSize size).toNat * (toWordSize size).toNat
  linCoef : (toWordSize size * memoryGas).toNat = (toWordSize size).toNat * 3
  newTotalFee : (toWordSize size * memoryGas + toWordSize size * toWordSize size / quadCoeffDiv).toNat =
    memoryCost (toWordSize size).toNat
  fee : mem.len < (toWordSize size * 32).toNat → mem.lastGasCost.toNat ≤ memoryCost (toWordSize size).toNat

variable {mem : Memory} {size : UInt64} {m : Machine}

theorem exactCost (hmem : mem.Priced) (hsize : size.toNat ≤ 0x1FFFFFFFE0) : ExactCost mem size := by
  obtain ⟨hround, hwords⟩ := toNat_toWordSize size (by omega)
  -- the bound on the size is what keeps the square below `2 ^ 64`
  have hle : (toWordSize size).toNat ≤ 0xFFFFFFFF := by omega
  have hsquare : (toWordSize size).toNat * (toWordSize size).toNat ≤ 0xFFFFFFFF * 0xFFFFFFFF := Nat.mul_le_mul hle hle
  have hnew : (toWordSize size * 32).toNat = (toWordSize size).toNat * 32 :=
    (UInt64.toNat_mul ..).trans (Nat.mod_eq_of_lt (show (toWordSize size).toNat * 32 < _ by omega))
  have hlin : (toWordSize size * memoryGas).toNat = (toWordSize size).toNat * 3 :=
    (UInt64.toNat_mul ..).trans (Nat.mod_eq_of_lt (show (toWordSize size).toNat * 3 < _ by omega))
  have hsq : (toWordSize size * toWordSize size).toNat = (toWordSize size).toNat * (toWordSize size).toNat :=
    (UInt64.toNat_mul ..).trans (Nat.mod_eq_of_lt (by omega))
  refine ⟨hround, hnew, hsq, hlin, ?_, fun hlt => ?_⟩
  · rw [UInt64.toNat_add, hlin, UInt64.toNat_div, hsq, show quadCoeffDiv.toNat = 512 from rfl, memoryCost]
    omega
  · rw [hmem.cost]
    exact memoryCost_mono (by omega)

theorem memoryGasCost_spec (hmem : m.memory.Priced) : wp (memoryGasCost size) (fun fee m' =>
    size.toNat ≤ 0x1FFFFFFFE0 ∧ m'.memory.store = m.memory.store ∧
      m'.memory.lastGasCost.toNat = memoryCost (max (m.memory.len / 32) (toWordSize size).toNat) ∧
      fee.toNat + m.memory.lastGasCost.toNat = m'.memory.lastGasCost.toNat) (fun _ _ => True) (fun _ => True) m := by
  rw [memoryGasCost, wp_ite, wp_ite]
  constructor
  · rintro rfl
    refine ⟨by decide, rfl, ?_, Nat.zero_add _⟩
    rw [show (toWordSize 0).toNat = 0 from rfl, Nat.max_zero]
    exact hmem.cost
  · refine fun _ => ⟨fun _ => trivial, fun hle => ?_⟩
    have hsize : size.toNat ≤ 0x1FFFFFFFE0 := not_lt.mp fun hlt => hle (UInt64.lt_iff_toNat_lt.mpr hlt)
    have hexact := exactCost hmem hsize
    have hnew := hexact.newMemSize
    rw [wp_bind, wp_read]
    dsimp only
    rw [wp_ite]
    constructor
    · intro hgrows
      have hfee : m.memory.lastGasCost.toNat ≤ _ := hexact.newTotalFee ▸ hexact.fee hgrows
      refine ⟨hsize, rfl, ?_, ?_⟩
      · rw [max_eq_right (by omega)]
        exact hexact.newTotalFee
      · dsimp only
        rw [UInt64.toNat_sub_of_le _ _ (UInt64.le_iff_toNat_le.mpr hfee)]
        exact Nat.sub_add_cancel hfee
    · intro hstays
      refine ⟨hsize, rfl, ?_, Nat.zero_add _⟩
      rw [max_eq_left (by omega)]
      exact hmem.cost

/-- No operation of an expansion wraps around. -/
structure ExactExpansion (mem : Memory) (memSize : UInt64) : Prop where
  round : (memSize + 31).toNat = memSize.toNat + 31
  memorySize : (toWordSize memSize * 32).toNat = (toWordSize memSize).toNat * 32
  gas : ExactCost mem (toWordSize memSize * 32)

/-- **One expansion**: no operation wraps around, and the fee is the difference of the prices. -/
theorem expandMemory_spec (hmem : m.memory.Priced) (memSize : UInt64) : wp (expandMemory memSize) (fun fee m' =>
    m'.memory.Priced ∧ fee.toNat + memoryCost (m.memory.len / 32) = memoryCost (m'.memory.len / 32) ∧
      ExactExpansion m.memory memSize) (fun _ _ => True) (fun _ => True) m := by
  rw [expandMemory, noOverflow, wp_bind, wp_ite]
  refine ⟨fun _ => trivial, fun hover => ?_⟩
  have hover := Bool.eq_false_iff.mpr hover
  have hbytes : (toWordSize memSize * 32).toNat = (toWordSize memSize).toNat * 32 := toNat_safeMul hover
  obtain ⟨hround, -⟩ := toNat_toWordSize memSize (le_of_safeMul_toWordSize hover)
  rw [wp_pure, wp_bind]
  refine wp_mono (memoryGasCost_spec hmem) ?_ (fun _ _ _ => trivial) fun _ _ => trivial
  rintro fee m₁ ⟨hsize, hstore, hcost, hfee⟩
  have hsize : (toWordSize memSize * 32).toNat ≤ 0x1FFFFFFFE0 := hsize
  obtain ⟨-, hwords⟩ := toNat_toWordSize (toWordSize memSize * 32) (by omega)
  have hlen : m₁.memory.len = m.memory.len := congrArg List.length hstore
  -- the memory is resized to the words that were paid for
  have hgrown (m' : Machine) (hlen' : m'.memory.len = max m.memory.len (toWordSize memSize * 32).toNat)
      (hlast : m'.memory.lastGasCost = m₁.memory.lastGasCost) : m'.memory.Priced ∧
        fee.toNat + memoryCost (m.memory.len / 32) = memoryCost (m'.memory.len / 32) ∧ ExactExpansion m.memory memSize := by
    have hdvd := hmem.words
    have hbound := hmem.bound
    have hlast' : m'.memory.lastGasCost.toNat = memoryCost (m'.memory.len / 32) := by
      rw [hlast, hcost]
      congr 1
      have hwords' : (toWordSize (safeMul (toWordSize memSize) 32).1).toNat = _ := hwords
      omega
    refine ⟨⟨by omega, by omega, hlast'⟩, ?_, hround, hbytes, exactCost hmem hsize⟩
    rw [← hlast', hlast, ← hfee, hmem.cost]
  rw [wp_bind, wp_when]
  refine ⟨fun _ => ?_, fun hzero => ?_⟩
  · refine hgrown _ ?_ (Memory.lastGasCost_resize _ _)
    rw [Memory.len_resize, hlen]
    rfl
  · have hzero : (toWordSize memSize * 32).toNat = 0 := by
      by_contra hne
      exact hzero (UInt64.lt_iff_toNat_lt.mpr (Nat.pos_of_ne_zero hne))
    exact hgrown _ (by rw [hlen, hzero, Nat.max_zero]) rfl

/-- A machine of a frame and the fees for its memory: between two expansions the size of the memory and its recorded
price stay as they are. -/
inductive Expanded : List UInt64 → Machine → Prop
  | init : Expanded [] .init
  | expand {fees : List UInt64} {m m' : Machine} {fee : UInt64} (memSize : UInt64) :
    Expanded fees m → expandMemory memSize m = .ok fee m' → Expanded (fees ++ [fee]) m'
  | other {fees : List UInt64} {m m' : Machine} :
    Expanded fees m → m'.memory.len = m.memory.len → m'.memory.lastGasCost = m.memory.lastGasCost → Expanded fees m'

theorem Expanded.priced {fees : List UInt64} (h : Expanded fees m) :
    m.memory.Priced ∧ (fees.map UInt64.toNat).sum = memoryCost (m.memory.len / 32) := by
  induction h with
  | init => exact ⟨⟨⟨0, rfl⟩, by decide, rfl⟩, rfl⟩
  | expand _ _ hstep ih =>
    obtain ⟨hpriced, hfee, -⟩ := wp_ok (expandMemory_spec ih.1 _) hstep
    refine ⟨hpriced, ?_⟩
    rw [List.map_append, List.sum_append, ih.2, ← hfee]
    simp [Nat.add_comm]
  | other _ hlen hcost ih =>
    obtain ⟨⟨hwords, hbound, hprice⟩, hsum⟩ := ih
    rw [← hlen] at hwords hbound hprice hsum
    exact ⟨⟨hwords, hbound, by rw [hcost, hprice]⟩, hsum⟩

/-- **The cost of memory telescopes.** The fees of a frame add up to the price of its memory, however it came to its
size, and no operation of an expansion wraps around. -/
theorem memory_cost_telescopes {fees : List UInt64} (h : Expanded fees m) :
    32 ∣ m.memory.len ∧ m.memory.lastGasCost.toNat = memoryCost (m.memory.len / 32) ∧
      (fees.map UInt64.toNat).sum = memoryCost (m.memory.len / 32) ∧
      ∀ memSize fee m', expandMemory memSize m = .ok fee m' → ExactExpansion m.memory memSize := by
  obtain ⟨hpriced, hsum⟩ := h.priced
  refine ⟨hpriced.words, hpriced.cost, hsum, fun memSize fee m' hstep => ?_⟩
  exact (wp_ok (expandMemory_spec hpriced memSize) hstep).2.2

/-- Expansions to 40 bytes and then to 100. -/
theorem memory_cost_telescopes_twice : ∃ m fees, Expanded fees m ∧ m.memory.len = 128 ∧
    (fees.map UInt64.toNat).sum = memoryCost 4 := by
  have hfirst : Expanded [6] _ := .expand 40 .init rfl
  have hsecond : Expanded [6, 6] _ := .expand 100 hfirst rfl
  exact ⟨_, _, hsecond, rfl, (memory_cost_telescopes hsecond).2.2.1⟩

end Web3.Vm
