import Web3.Vm.ReturnData

/-! # Jump destinations

A jump may go to a `JUMPDEST` that is an instruction: one that is reached by decoding the code from its
first byte on. `codeBitmap` marks the bytes in between, which are the data of `PUSH` instructions, eight
bits at a time where it can; a contract keeps the marks and shares them with other contracts of the same
code. -/

namespace Web3.Vm
open Storage (U256)
open Prog ExecM

/-! ## Bits -/

namespace Bitvec
variable {bits bits' : Bitvec}

def isData (bits : Bitvec) (pos : ℕ) : Bool := bits[pos / 8]?.any fun b => b &&& (0x80 >>> UInt8.ofNat (pos % 8)) != 0

theorem bit_of_set : ∀ i j : Fin 8,
    ((0x80 >>> UInt8.ofNat i) &&& (0x80 >>> UInt8.ofNat j) != (0 : UInt8)) = decide (j = i) := by decide

theorem bit_of_first : ∀ i j : Fin 8,
    ((0xff >>> UInt8.ofNat i) &&& (0x80 >>> UInt8.ofNat j) != (0 : UInt8)) = decide (i ≤ j) := by decide

theorem bit_of_second : ∀ i j : Fin 8,
    (~~~(0xff >>> UInt8.ofNat i) &&& (0x80 >>> UInt8.ofNat j) != (0 : UInt8)) = decide (j < i) := by decide

theorem or_and_ne_zero (b mask x : UInt8) : ((b ||| mask) &&& x != 0) = ((b &&& x != 0) || (mask &&& x != 0)) := by
  have hdistrib : (b ||| mask) &&& x = (b &&& x) ||| (mask &&& x) :=
    UInt8.toBitVec_inj.mp BitVec.and_or_distrib_right
  rw [Bool.eq_iff_iff, Bool.or_eq_true, bne_iff_ne, bne_iff_ne, bne_iff_ne, hdistrib, ne_eq, UInt8.or_eq_zero_iff,
    not_and_or]

theorem orAt_eq {i : ℕ} (hi : i < bits.length) (mask : UInt8) :
    ∃ bits', orAt bits i mask = .ok bits' ∧ bits'.length = bits.length ∧ ∀ pos, bits'.isData pos =
      (bits.isData pos || (decide (pos / 8 = i) && (mask &&& (0x80 >>> UInt8.ofNat (pos % 8)) != 0))) := by
  refine ⟨List.set bits i (bits[i] ||| mask), by rw [orAt, List.getElem?_eq_getElem hi], List.length_set,
    fun pos => ?_⟩
  rw [isData, isData]
  by_cases h : pos / 8 = i
  · rw [h, List.getElem?_set_self hi, List.getElem?_eq_getElem hi, decide_eq_true rfl, Bool.true_and, Option.any_some,
      Option.any_some, or_and_ne_zero]
  · rw [List.getElem?_set_ne (Ne.symm h), decide_eq_false h, Bool.false_and, Bool.or_false]

/-- The positions from `a` up to `b` are set, beside those of `bits`. -/
structure Marks (bits : Bitvec) (a b : ℕ) (bits' : Bitvec) : Prop where
  length : bits'.length = bits.length
  isData : ∀ pos, bits'.isData pos = true ↔ bits.isData pos = true ∨ a ≤ pos ∧ pos < b

theorem Marks.refl (bits : Bitvec) (a : ℕ) : Marks bits a a bits := 
  ⟨rfl, fun _ => ⟨.inl, fun h => h.elim id fun h => absurd h.2 (Nat.not_lt.mpr h.1)⟩⟩

theorem Marks.trans {bits'' : Bitvec} {a b c : ℕ} (hab : a ≤ b) (hbc : b ≤ c) (h : Marks bits a b bits')
    (h' : Marks bits' b c bits'') : Marks bits a c bits'' where
  length := h'.length.trans h.length
  isData pos := by
    rw [h'.isData, h.isData, or_assoc]
    exact or_congr_right (by omega)

variable {pos : ℕ}

theorem set_marks (h : pos / 8 < bits.length) :
    ∃ bits', set bits pos = .ok bits' ∧ Marks bits pos (pos + 1) bits' := by
  obtain ⟨bits', hor, hlength, hdata⟩ := orAt_eq h (0x80 >>> UInt8.ofNat (pos % 8))
  refine ⟨bits', hor, hlength, fun q => ?_⟩
  have hmask := bit_of_set ⟨pos % 8, Nat.mod_lt _ (by omega)⟩ ⟨q % 8, Nat.mod_lt _ (by omega)⟩
  rw [hdata, hmask]
  simp only [Fin.mk.injEq, Bool.or_eq_true, Bool.and_eq_true, decide_eq_true_eq]
  exact or_congr_right (by omega)

theorem set8_marks (h : pos / 8 + 1 < bits.length) :
    ∃ bits', set8 bits pos = .ok bits' ∧ Marks bits pos (pos + 8) bits' := by
  obtain ⟨bits₁, hor₁, hlength₁, hdata₁⟩ := orAt_eq (Nat.lt_of_succ_lt h) (0xff >>> UInt8.ofNat (pos % 8))
  obtain ⟨bits₂, hor₂, hlength₂, hdata₂⟩ := orAt_eq (hlength₁ ▸ h) (~~~(0xff >>> UInt8.ofNat (pos % 8)))
  refine ⟨bits₂, by rw [set8, hor₁]; exact hor₂, hlength₂.trans hlength₁, fun q => ?_⟩
  have hfirst := bit_of_first ⟨pos % 8, Nat.mod_lt _ (by omega)⟩ ⟨q % 8, Nat.mod_lt _ (by omega)⟩
  have hsecond := bit_of_second ⟨pos % 8, Nat.mod_lt _ (by omega)⟩ ⟨q % 8, Nat.mod_lt _ (by omega)⟩
  rw [hdata₂, hdata₁, hfirst, hsecond]
  simp only [Fin.mk_le_mk, Fin.mk_lt_mk, Bool.or_eq_true, Bool.and_eq_true, decide_eq_true_eq, or_assoc]
  exact or_congr_right (by omega)

theorem foldlM_marks (mark : Bitvec → ℕ → Except String Bitvec) (pc width : ℕ) {size : ℕ} (n : ℕ)
    (hmark : ∀ bits : Bitvec, bits.length = size → ∀ i < n,
      ∃ bits', mark bits i = .ok bits' ∧ Marks bits (pc + width * i) (pc + width * (i + 1)) bits')
    (hsize : bits.length = size) :
    ∃ bits', (List.range n).foldlM mark bits = .ok bits' ∧ Marks bits pc (pc + width * n) bits' := by
  induction n with
  | zero => exact ⟨bits, rfl, Marks.refl bits pc⟩
  | succ n ih =>
    obtain ⟨bits₁, hfold, hmarks⟩ := ih fun bits hbits i hi => hmark bits hbits i (hi.trans n.lt_succ_self)
    obtain ⟨bits₂, hlast, hmarks'⟩ := hmark bits₁ (hmarks.length.trans hsize) n n.lt_succ_self
    refine ⟨bits₂, ?_, hmarks.trans (Nat.le_add_right _ _) ?_ hmarks'⟩
    · rw [List.range_succ, List.foldlM_append, hfold]
      simp only [List.foldlM_cons, List.foldlM_nil, bind_pure]
      exact hlast
    · rw [Nat.mul_succ]
      omega

theorem setData_marks (pc numbits : ℕ) (h : (pc + numbits) / 8 < bits.length) :
    ∃ bits', setData bits pc numbits = .ok bits' ∧ Marks bits pc (pc + numbits) bits' := by
  obtain ⟨bits₁, hbytes, hmarks⟩ := foldlM_marks (fun bits i => set8 bits (pc + 8 * i)) pc 8 (numbits / 8)
    (fun bits' hbits i hi => set8_marks (by omega)) (Eq.refl bits.length)
  obtain ⟨bits₂, hbits, hmarks'⟩ := foldlM_marks (fun bits i => set bits (pc + 8 * (numbits / 8) + i))
    (pc + 8 * (numbits / 8)) 1 (numbits % 8)
    (fun bits' (hbits : bits'.length = bits.length) i hi => by
      rw [Nat.one_mul, Nat.one_mul]
      exact set_marks (by omega)) hmarks.length
  refine ⟨bits₂, by rw [setData, hbytes]; exact hbits, ?_⟩
  have hmarks := hmarks.trans (Nat.le_add_right _ _) (Nat.le_add_right _ _) hmarks'
  rwa [show pc + 8 * (numbits / 8) + 1 * (numbits % 8) = pc + numbits by omega] at hmarks

theorem codeSegment_eq (h : pos / 8 < bits.length) : codeSegment bits pos = .ok (!bits.isData pos) := by
  rw [codeSegment, isData, List.getElem?_eq_getElem h, Option.any_some, bne, Bool.not_not]

end Bitvec

/-! ## Decoding -/

def OpCode.immediates (op : OpCode) : ℕ := if PUSH1 ≤ op ∧ op ≤ PUSH32 then (op - PUSH1 + 1).toNat else 0

/-- The places of the instructions, when the code is decoded from its first byte on. -/
inductive InstructionStart (code : Bytes) : ℕ → Prop
  | first : InstructionStart code 0
  | next {pc : ℕ} {op : OpCode} (h : InstructionStart code pc) (hop : code[pc]? = some op) :
      InstructionStart code (pc + 1 + op.immediates)

variable {code : Bytes} {pc : ℕ} {op : OpCode}

theorem InstructionStart.next_le {pc' : ℕ} (h : InstructionStart code pc)
    (hop : code[pc]? = some op) (h' : InstructionStart code pc') (hlt : pc < pc') :
    pc + 1 + op.immediates ≤ pc' := by
  induction pc' using Nat.strong_induction_on generalizing pc op with
  | _ pc' ih =>
    cases h' with
    | first => omega
    | @next pc₀ op₀ h₀ hop₀ =>
      rcases Nat.lt_trichotomy pc pc₀ with hlt₀ | rfl | hgt
      · have := ih pc₀ (by omega) h hop h₀ hlt₀
        omega
      · cases hop.symm.trans hop₀
        exact le_rfl
      · -- then `pc` would be inside of the instruction before `pc'`
        have := ih pc hlt h₀ hop₀ h hgt
        omega

theorem OpCode.immediates_le (op : OpCode) : op.immediates ≤ 32 := by
  rw [immediates]
  split
  next h =>
    obtain ⟨hpush1, hpush32⟩ := h
    rw [UInt8.le_iff_toNat_le] at hpush1 hpush32
    rw [UInt8.toNat_add, UInt8.toNat_sub_of_le _ _ (UInt8.le_iff_toNat_le.mpr hpush1)]
    simp only [PUSH1, PUSH32, UInt8.reduceToNat] at hpush1 hpush32 ⊢
    omega
  next => omega

/-! ## The analysis -/

/-- Up to `pc`, the bytes that are not marked are the starts of instructions; from there on nothing is
marked yet. -/
structure AnalysedUpTo (code : Bytes) (pc : ℕ) (bits : Bitvec) : Prop where
  length : bits.length = code.length / 8 + 1 + 4
  start : InstructionStart code pc
  before : ∀ pos < pc, bits.isData pos = false ↔ InstructionStart code pos
  behind : ∀ pos, pc ≤ pos → bits.isData pos = false

theorem AnalysedUpTo.next {bits bits' : Bitvec} (h : AnalysedUpTo code pc bits)
    (hop : code[pc]? = some op) (hmarks : bits.Marks (pc + 1) (pc + 1 + op.immediates) bits') :
    AnalysedUpTo code (pc + 1 + op.immediates) bits' where
  length := hmarks.length.trans h.length
  start := h.start.next hop
  before pos hpos := by
    have hdata := hmarks.isData pos
    rcases Nat.lt_trichotomy pos pc with hlt | rfl | hgt
    · rw [← h.before pos hlt, ← Bool.not_eq_true, ← Bool.not_eq_true, hdata]
      exact not_congr (or_iff_left (by omega))
    · refine iff_of_true (Bool.eq_false_iff.mpr fun htrue => ?_) h.start
      rcases hdata.mp htrue with hold | hnew
      · rw [h.behind pos le_rfl] at hold
        cases hold
      · omega
    · refine iff_of_false (fun hfalse => ?_) fun hstart => ?_
      · rw [hdata.mpr (.inr (by omega))] at hfalse
        cases hfalse
      · have := h.start.next_le hop hstart hgt
        omega
  behind pos hpos := by
    refine Bool.eq_false_iff.mpr fun htrue => ?_
    rcases (hmarks.isData pos).mp htrue with hold | hnew
    · rw [h.behind pos (by omega)] at hold
      cases hold
    · omega

theorem codeBitmapFrom_analysed (n : ℕ) {bits : Bitvec} (h : AnalysedUpTo code pc bits)
    (hn : code.length ≤ pc + n) :
    ∃ pc' bits', codeBitmapFrom code n pc bits = .ok bits' ∧ code.length ≤ pc' ∧ AnalysedUpTo code pc' bits' := by
  induction n generalizing pc bits with
  | zero => exact ⟨pc, bits, rfl, hn, h⟩
  | succ n ih =>
    rw [codeBitmapFrom]
    cases hop : code[pc]? with
    | none => exact ⟨pc, bits, rfl, List.getElem?_eq_none_iff.mp hop, h⟩
    | some op =>
      have hpc := (List.getElem?_eq_some_iff.mp hop).1
      dsimp only
      by_cases hpush : OpCode.PUSH1 ≤ op ∧ op ≤ OpCode.PUSH32
      · have himm : OpCode.immediates op = (op - OpCode.PUSH1 + 1).toNat := if_pos hpush
        have hle := OpCode.immediates_le op
        have hlength := h.length
        -- the four bytes more than the code needs are enough for a `PUSH32` at its end
        obtain ⟨bits', hset, hmarks⟩ := bits.setData_marks (pc + 1) (OpCode.immediates op)
          (by omega)
        rw [if_pos hpush, ← himm, hset]
        exact ih (h.next hop hmarks) (by omega)
      · have himm : OpCode.immediates op = 0 := if_neg hpush
        have hsame : Bitvec.Marks bits (pc + 1) (pc + 1 + OpCode.immediates op) bits := by
          rw [himm]
          exact .refl bits (pc + 1)
        have hnext := h.next hop hsame
        rw [himm] at hnext
        rw [if_neg hpush]
        exact ih hnext (by omega)

/-- **The analysis of any code goes through, and leaves unmarked the instructions.** -/
theorem codeBitmap_decodes (code : Bytes) : ∃ bits, codeBitmap code = .ok bits ∧
      ∀ pos < code.length, ∃ b, bits.codeSegment pos = .ok b ∧ (b = true ↔ InstructionStart code pos) := by
  have hnone (pos : ℕ) : Bitvec.isData (List.replicate (code.length / 8 + 1 + 4) 0) pos = false := by
    rw [Bitvec.isData, List.getElem?_replicate]
    split <;> simp
  have hstart : AnalysedUpTo code 0 (List.replicate (code.length / 8 + 1 + 4) 0) :=
    ⟨List.length_replicate, .first, fun pos hpos => absurd hpos pos.not_lt_zero, fun pos _ => hnone pos⟩
  obtain ⟨pc, bits, hbits, hpc, hdone⟩ := codeBitmapFrom_analysed code.length hstart (by omega)
  refine ⟨bits, hbits, fun pos hpos => ⟨!bits.isData pos, Bitvec.codeSegment_eq ?_, ?_⟩⟩
  · have := hdone.length
    omega
  · rw [Bool.not_eq_true']
    exact hdone.before pos (hpos.trans_le hpc)

/-! ## What is kept of it -/

section Caches
variable {σ : Type} {hash : Bytes → Hash} {codes : Set Bytes} {c : Contract} {f f' : Frame σ}

def SharedSound (hash : Bytes → Hash) (codes : Set Bytes) (jumpdests : List (Hash × Bitvec)) : Prop :=
  ∀ h bits, jumpdests.lookup h = some bits → ∃ code ∈ codes, hash code = h ∧ codeBitmap code = .ok bits

/-- The frames of a contract, with the analyses in them: a new one has none of its own, it changes them
only to decide about jumps, and the shared ones may be changed by other frames. -/
inductive ReachableCaches (hash : Bytes → Hash) (codes : Set Bytes) (c : Contract) : Frame σ → Prop
  | new {f : Frame σ} (hown : f.analysis = none) (hshared : SharedSound hash codes f.interp.jumpdests) :
      ReachableCaches hash codes c f
  | jumped {f f' : Frame σ} {b : Bool} (h : ReachableCaches hash codes c f) (dest : U256)
      (hrun : validJumpdest c dest f = .ok b f') : ReachableCaches hash codes c f'
  | jumpedSub {f f' : Frame σ} {b : Bool} (h : ReachableCaches hash codes c f) (udest : UInt64)
      (hrun : validJumpSubdest c udest f = .ok b f') : ReachableCaches hash codes c f'
  | elsewhere {f f' : Frame σ} (h : ReachableCaches hash codes c f) (hown : f'.analysis = f.analysis)
      (hshared : SharedSound hash codes f'.interp.jumpdests) : ReachableCaches hash codes c f'

structure CachesSound (hash : Bytes → Hash) (codes : Set Bytes) (c : Contract) (f : Frame σ) : Prop where
  own : ∀ bits, f.analysis = some bits → codeBitmap c.Code = .ok bits
  shared : SharedSound hash codes f.interp.jumpdests

/-- The contract has a code of `codes`, among which there are no collisions, and its hash if any. -/
structure HashedContract (hash : Bytes → Hash) (codes : Set Bytes) (c : Contract) : Prop where
  injective : Set.InjOn hash codes
  code : c.Code ∈ codes
  hash : c.CodeHash ≠ Hash.zero → c.CodeHash = hash c.Code

variable (hc : HashedContract hash codes c)
include hc

theorem sharedAnalysis_sound (hhash : c.CodeHash ≠ Hash.zero) (hf : CachesSound hash codes c f) :
    wp (sharedAnalysis c) (fun bits f' => codeBitmap c.Code = .ok bits ∧ CachesSound hash codes c f')
      (fun _ _ => False) (fun _ => False) f := by
  rw [sharedAnalysis, Prog.wp_bind, wp_read]
  cases hlookup : f.interp.jumpdests.lookup c.CodeHash with
  | some bits =>
    obtain ⟨code, hcode, heq, hbits⟩ := hf.shared _ _ hlookup
    rw [hc.hash hhash] at heq
    cases hc.injective hcode hc.code heq
    exact ⟨hbits, hf⟩
  | none =>
    obtain ⟨bits, hbits, -⟩ := codeBitmap_decodes c.Code
    simp only [Prog.wp_bind, wp_onMachine, wp_ofExcept, hbits, wp_onEvm, wp_modify, wp_pure, Except.ok.injEq, forall_eq',
      reduceCtorEq, false_implies, implies_true, and_true]
    refine ⟨trivial, hf.own, fun h bits' hlookup' => ?_⟩
    rw [List.lookup_cons] at hlookup'
    split at hlookup'
    next heq =>
      cases hlookup'
      rw [eq_of_beq heq]
      exact ⟨c.Code, hc.code, (hc.hash hhash).symm, hbits⟩
    next => exact hf.shared h bits' hlookup'

theorem isCode_sound {pos : ℕ} (hpos : pos < c.Code.length) (hf : CachesSound hash codes c f) :
    wp (isCode c pos) (fun b f' => (b = true ↔ InstructionStart c.Code pos) ∧ CachesSound hash codes c f')
      (fun _ _ => False) (fun _ => False) f := by
  obtain ⟨bits, hbits, hdecodes⟩ := codeBitmap_decodes c.Code
  obtain ⟨b, hsegment, hb⟩ := hdecodes pos hpos
  rw [isCode, Prog.wp_bind, wp_read]
  cases hown : f.analysis with
  | some analysis =>
    cases hbits.symm.trans (hf.own analysis hown)
    simp only [wp_onMachine, wp_ofExcept, hsegment, Except.ok.injEq, forall_eq', reduceCtorEq, false_implies,
      implies_true, and_true]
    exact ⟨hb, hf⟩
  | none =>
    dsimp only
    have hanalysis : wp (if c.CodeHash ≠ Hash.zero then sharedAnalysis c
        else onMachine (.ofExcept (codeBitmap c.Code)))
        (fun bits f' => codeBitmap c.Code = .ok bits ∧ CachesSound hash codes c f') (fun _ _ => False)
        (fun _ => False) f := by
      refine wp_ite.mpr ⟨fun hhash => sharedAnalysis_sound hc hhash hf, fun _ => ?_⟩
      simp only [wp_onMachine, wp_ofExcept, hbits, Except.ok.injEq, forall_eq', reduceCtorEq, false_implies,
        implies_true, and_true]
      exact ⟨trivial, hf⟩
    rw [Prog.wp_bind]
    refine wp_mono hanalysis ?_ (fun _ _ h => h) fun _ h => h
    rintro bits' f' ⟨hbits', hf'⟩
    cases hbits.symm.trans hbits'
    simp only [Prog.wp_bind, wp_modify, wp_onMachine, wp_ofExcept, hsegment, Except.ok.injEq, forall_eq', reduceCtorEq,
      false_implies, implies_true, and_true]
    refine ⟨hb, fun bits' h => ?_, hf'.shared⟩
    cases h
    exact hbits

/-- The places that may be jumped to. -/
def ValidJump (code : Bytes) (pos : ℕ) : Prop :=
  pos < code.length ∧ code[pos]? = some OpCode.JUMPDEST ∧ InstructionStart code pos

theorem validJumpdest_sound (hlen : c.Code.length < 2 ^ 63) (dest : U256) (hf : CachesSound hash codes c f) :
    wp (validJumpdest c dest) (fun b f' => (b = true ↔ ValidJump c.Code dest.toNat) ∧ CachesSound hash codes c f')
      (fun _ _ => False) (fun _ => False) f := by
  rw [validJumpdest, wp_ite]
  refine ⟨fun hout => ⟨iff_of_false Bool.false_ne_true fun hvalid => ?_, hf⟩, fun hin => ?_⟩
  · have hlt := hvalid.1
    simp only [U256.isUint64, Bool.or_eq_true, Bool.not_eq_true', decide_eq_false_iff_not, decide_eq_true_eq] at hout
    omega
  · simp only [U256.isUint64, Bool.or_eq_true, Bool.not_eq_true', decide_eq_false_iff_not, decide_eq_true_eq, not_or,
      not_not, ge_iff_le, not_le] at hin
    have hop : c.getOp (U256.uint64 dest) = (c.Code[dest.toNat]?).getD 0 := by
      rw [Contract.getOp, Contract.getByte, U256.uint64, UInt64.toNat_ofNat', Nat.mod_eq_of_lt hin.1]
    rw [hop, List.getElem?_eq_getElem hin.2, Option.getD_some, wp_ite]
    refine ⟨fun hne => ⟨iff_of_false Bool.false_ne_true fun hvalid => hne ?_, hf⟩, fun heq => ?_⟩
    · exact Option.some.inj ((List.getElem?_eq_getElem hin.2).symm.trans hvalid.2.1)
    · refine wp_mono (isCode_sound hc hin.2 hf) ?_ (fun _ _ h => h) fun _ h => h
      rintro b f' ⟨hb, hf'⟩
      rw [hb]
      have hdest : c.Code[dest.toNat]? = some OpCode.JUMPDEST := by
        rw [List.getElem?_eq_getElem hin.2, not_not.mp heq]
      exact ⟨⟨fun h => ⟨hin.2, hdest, h⟩, fun h => h.2.2⟩, hf'⟩

theorem validJumpSubdest_sound (udest : UInt64) (hf : CachesSound hash codes c f) :
    wp (validJumpSubdest c udest) (fun _ f' => CachesSound hash codes c f') (fun _ _ => False) (fun _ => False) f := by
  rw [validJumpSubdest, wp_ite]
  refine ⟨fun _ => hf, fun hin => wp_ite.mpr ⟨fun _ => hf, fun _ => ?_⟩⟩
  exact wp_mono (isCode_sound hc (not_le.mp (not_or.mp hin).2) hf) (fun _ _ h => h.2) (fun _ _ h => h) fun _ h => h

theorem ReachableCaches.sound (hlen : c.Code.length < 2 ^ 63) (h : ReachableCaches hash codes c f) :
    CachesSound hash codes c f := by
  induction h with
  | new hown hshared =>
    refine ⟨fun bits h => ?_, hshared⟩
    cases hown.symm.trans h
  | jumped _ dest hrun ih => exact (wp_ok (validJumpdest_sound hc hlen dest ih) hrun).2
  | jumpedSub _ udest hrun ih =>
    exact wp_ok (Q := fun _ f' => CachesSound hash codes c f') (validJumpSubdest_sound hc udest ih) hrun
  | elsewhere _ hown hshared ih => exact ⟨fun bits h => ih.own bits (hown.symm.trans h), hshared⟩

/-- **A destination is valid if and only if decoding the code from its start reaches a `JUMPDEST` there**,
whatever has been analysed before; the analysis never leaves the bit vector. The length of a slice is an
`int`. -/
theorem validJumpdest_iff_decoded (hlen : c.Code.length < 2 ^ 63) (dest : U256) :
    (∃ bits, codeBitmap c.Code = .ok bits ∧ ∀ pos < c.Code.length, ∃ b, bits.codeSegment pos = .ok b) ∧
    ∃ b, (b = true ↔ ValidJump c.Code dest.toNat) ∧
      ∀ f : Frame σ, ReachableCaches hash codes c f → ∃ f', validJumpdest c dest f = .ok b f' := by
  obtain ⟨bits, hbits, hdecodes⟩ := codeBitmap_decodes c.Code
  refine ⟨⟨bits, hbits, fun pos hpos => ?_⟩, ?_⟩
  · obtain ⟨b, hb, -⟩ := hdecodes pos hpos
    exact ⟨b, hb⟩
  · classical
    refine ⟨decide (ValidJump c.Code dest.toNat), decide_eq_true_iff, fun f hf => ?_⟩
    obtain ⟨b, f', hrun, hb, -⟩ := exists_ok_of_wp (validJumpdest_sound hc hlen dest (hf.sound hc hlen))
    rw [hrun, Bool.eq_iff_iff.mpr (hb.trans decide_eq_true_iff.symm)]
    exact ⟨f', rfl⟩

end Caches

/-- In `PUSH1 0x5b JUMPDEST`, of which the last byte is the instruction. -/
theorem validJumpdest_behind_push : ∃ b f', (b = true ↔ ValidJump [0x60, 0x5b, 0x5b] 2) ∧
      validJumpdest (sampleContract [0x60, 0x5b, 0x5b]) 2 (echoFrame 0) = .ok b f' := by
  have hc : HashedContract (fun _ => bytesToHash [1]) {[0x60, 0x5b, 0x5b]} (sampleContract [0x60, 0x5b, 0x5b]) :=
    ⟨Set.injOn_singleton _ _, rfl, fun _ => rfl⟩
  have hnew : ReachableCaches (fun _ => bytesToHash [1]) {[0x60, 0x5b, 0x5b]} (sampleContract [0x60, 0x5b, 0x5b])
      (echoFrame 0) := .new rfl fun _ _ h => nomatch h
  obtain ⟨-, b, hb, hall⟩ := validJumpdest_iff_decoded (σ := MapDB) hc (by decide) 2
  obtain ⟨f', hrun⟩ := hall (echoFrame 0) hnew
  exact ⟨b, f', hb, hrun⟩

end Web3.Vm
