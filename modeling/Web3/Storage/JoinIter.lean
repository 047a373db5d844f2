import Web3.Foundations.Cursors
import Web3.Foundations.Overlay
import Web3.Foundations.Words

/-! # Merging iterators

`overlaydb/iterator.go`: an iterator over a table and one over what lies below it, merged into one that
skips deleted keys. Both are any cursors here, so that a merge can be the lower part of another one. The
loops that skip empty values get a bound on their steps.

A merge does not see that one of its parts is empty from the start: it first shows the part's empty key
with its empty value, and `First` and `Next` skip it like a deleted key. -/

namespace Web3.Storage

inductive KeyOrigin where
  | fromMem
  | fromBack
  | fromBoth
  deriving DecidableEq, Repr

structure JoinIter (M B : Type) where
  backend : B
  memdb : M
  key : Bytes
  value : Bytes
  keyOrigin : KeyOrigin
  nextMemEnd : Bool
  nextBackEnd : Bool

variable {SM SB M B : Type}

def newJoinIter (memIter : M) (backendIter : B) : JoinIter M B :=
  { backend := backendIter, memdb := memIter, key := [], value := [], keyOrigin := .fromMem,
    nextMemEnd := false, nextBackEnd := false }

namespace JoinIter

section Methods
variable (mem : Cursor SM M Bytes Bytes) (back : Cursor SB B Bytes Bytes)

variable (iter : JoinIter M B)

def error : Option String :=
  match back.error iter.backend with
  | some e => some e
  | none => mem.error iter.memdb

def fromMem (origin : KeyOrigin) : JoinIter M B :=
  { iter with key := mem.key iter.memdb, value := mem.value iter.memdb, keyOrigin := origin }

def fromBack : JoinIter M B :=
  { iter with key := back.key iter.backend, value := back.value iter.backend, keyOrigin := .fromBack }

/-- Show the smaller of the two current entries, the table's one if they have the same key. -/
def pick : JoinIter M B :=
  match compare (mem.key iter.memdb) (back.key iter.backend) with
  | .lt => iter.fromMem mem .fromMem
  | .eq => iter.fromMem mem .fromBoth
  | .gt => iter.fromBack back

def first (s : SM × SB) (iter : JoinIter M B) : Option (Bool × JoinIter M B) := do
  let (hasBack, backend) ← back.first s.2 iter.backend
  let (hasMem, memdb) ← mem.first s.1 iter.memdb
  let iter := { iter with backend := backend, memdb := memdb }
  if (iter.error mem back).isSome then some (false, iter)
  else if hasBack then
    if !hasMem then some (true, iter.fromBack back) else some (true, iter.pick mem back)
  else if hasMem then some (true, iter.fromMem mem .fromMem)
  else some (false, iter)

def moveMem (s : SM) (iter : JoinIter M B) : Option (JoinIter M B) :=
  if (iter.keyOrigin = .fromMem || iter.keyOrigin = .fromBoth) && !iter.nextMemEnd then do
    let (has, memdb) ← mem.next s iter.memdb
    some { iter with memdb := memdb, nextMemEnd := !has }
  else some iter

def moveBack (s : SB) (iter : JoinIter M B) : Option (JoinIter M B) :=
  if (iter.keyOrigin = .fromBack || iter.keyOrigin = .fromBoth) && !iter.nextBackEnd then do
    let (has, backend) ← back.next s iter.backend
    some { iter with backend := backend, nextBackEnd := !has }
  else some iter

def settle : Bool × JoinIter M B :=
  if (iter.error mem back).isSome then (false, iter)
  else
    match iter.nextBackEnd, iter.nextMemEnd with
    | true, true => (false, { iter with key := [], value := [] })
    | true, false => (true, iter.fromMem mem .fromMem)
    | false, true => (true, iter.fromBack back)
    | false, false => (true, iter.pick mem back)

def next (s : SM × SB) (iter : JoinIter M B) : Option (Bool × JoinIter M B) := do
  let iter ← iter.moveMem mem s.1
  let iter ← iter.moveBack back s.2
  some (iter.settle mem back)

def skip (s : SM × SB) : ℕ → Bool × JoinIter M B → Option (Bool × JoinIter M B)
  | _, (false, iter) => some (false, iter)
  | 0, (true, _) => none
  | steps + 1, (true, iter) =>
    if iter.value.length = 0 then do
      let r ← iter.next mem back s
      skip s steps r
    else some (true, iter)

def First (steps : ℕ) (s : SM × SB) (iter : JoinIter M B) : Option (Bool × JoinIter M B) := do
  let r ← iter.first mem back s
  skip mem back s steps r

def Next (steps : ℕ) (s : SM × SB) (iter : JoinIter M B) : Option (Bool × JoinIter M B) := do
  let r ← iter.next mem back s
  skip mem back s steps r

/-- A merge is a cursor again. -/
def cursor (steps : ℕ) : Cursor (SM × SB) (JoinIter M B) Bytes Bytes where
  first := First mem back steps
  next := Next mem back steps
  key := key
  value := value
  error := error mem back

end Methods

section
variable (mem : Cursor SM M Bytes Bytes) (back : Cursor SB B Bytes Bytes) (iter : JoinIter M B)
include mem back iter

theorem pick_parts :
    (iter.pick mem back).memdb = iter.memdb ∧ (iter.pick mem back).backend = iter.backend ∧
      (iter.pick mem back).nextMemEnd = iter.nextMemEnd ∧
      (iter.pick mem back).nextBackEnd = iter.nextBackEnd := by
  rw [pick]
  split <;> exact ⟨rfl, rfl, rfl, rfl⟩

theorem pick_key :
    (iter.pick mem back).key = mem.key iter.memdb ∨ (iter.pick mem back).key = back.key iter.backend := by
  rw [pick]
  split
  · exact .inl rfl
  · exact .inl rfl
  · exact .inr rfl

end

/-! ## What a merge shows -/

def live (kvs : List (Bytes × Bytes)) : List (Bytes × Bytes) := kvs.filter fun kv => kv.2.length ≠ 0

variable {kvs : List (Bytes × Bytes)} {k : Bytes} {steps : ℕ}

theorem mem_live {v : Bytes} : (k, v) ∈ live kvs ↔ (k, v) ∈ kvs ∧ v ≠ [] := by
  simp [live]

theorem live_sorted (h : KeysSorted kvs) : KeysSorted (live kvs) :=
  h.sublist List.filter_sublist

variable {mem : Cursor SM M Bytes Bytes} {back : Cursor SB B Bytes Bytes}
  {StandsM : SM → M → List (Bytes × Bytes) → Prop} {StandsB : SB → B → List (Bytes × Bytes) → Prop}
  {s : SM × SB} {iter : JoinIter M B} {ms bs : List (Bytes × Bytes)}

/-- The parts of the merge have `ms` and `bs` left. -/
structure Holds (StandsM : SM → M → List (Bytes × Bytes) → Prop)
    (StandsB : SB → B → List (Bytes × Bytes) → Prop) (s : SM × SB) (iter : JoinIter M B)
    (ms bs : List (Bytes × Bytes)) : Prop where
  mem : StandsM s.1 iter.memdb ms
  back : StandsB s.2 iter.backend bs
  memEnd : iter.nextMemEnd = true → ms = []
  backEnd : iter.nextBackEnd = true → bs = []
  memKeys : ∀ kv ∈ ms, kv.1 ≠ []
  backKeys : ∀ kv ∈ bs, kv.1 ≠ []

/-- The merge shows the least entry of its parts, or nothing in place of a part that has run out. -/
inductive Shows (iter : JoinIter M B) : List (Bytes × Bytes) → List (Bytes × Bytes) → Prop
  | fromMem {ms bs : List (Bytes × Bytes)} (origin : iter.keyOrigin = .fromMem)
      (least : ∀ b ∈ bs.head?, compare iter.key b.1 = .lt) :
      Shows iter ((iter.key, iter.value) :: ms) bs
  | fromBack {ms bs : List (Bytes × Bytes)} (origin : iter.keyOrigin = .fromBack)
      (least : ∀ m ∈ ms.head?, compare m.1 iter.key = .gt) :
      Shows iter ms ((iter.key, iter.value) :: bs)
  | fromBoth {ms bs : List (Bytes × Bytes)} {b : Bytes × Bytes} (origin : iter.keyOrigin = .fromBoth)
      (same : compare iter.key b.1 = .eq) : Shows iter ((iter.key, iter.value) :: ms) (b :: bs)
  | nothing {ms bs : List (Bytes × Bytes)} (key : iter.key = []) (value : iter.value = [])
      (mem : iter.keyOrigin ≠ .fromBack → ms = []) (back : iter.keyOrigin ≠ .fromMem → bs = [])
      (memEnd : iter.keyOrigin = .fromMem → iter.nextMemEnd = true → iter.nextBackEnd = true)
      (backEnd : iter.keyOrigin = .fromBack → iter.nextBackEnd = true → iter.nextMemEnd = true) :
      Shows iter ms bs

def memLeft (origin : KeyOrigin) (ms : List (Bytes × Bytes)) : List (Bytes × Bytes) :=
  if origin = .fromBack then ms else ms.tail

def backLeft (origin : KeyOrigin) (bs : List (Bytes × Bytes)) : List (Bytes × Bytes) :=
  if origin = .fromMem then bs else bs.tail

theorem length_memLeft (origin : KeyOrigin) (ms : List (Bytes × Bytes)) : (memLeft origin ms).length ≤ ms.length := by
  rw [memLeft]
  split
  · exact le_rfl
  · simp

theorem length_backLeft (origin : KeyOrigin) (bs : List (Bytes × Bytes)) : (backLeft origin bs).length ≤ bs.length := by
  rw [backLeft]
  split
  · exact le_rfl
  · simp

def shown (iter : JoinIter M B) : List (Bytes × Bytes) := live [(iter.key, iter.value)]

theorem Shows.live_overlay (h : Shows iter ms bs) : live (overlay ms bs) =
    iter.shown ++ live (overlay (memLeft iter.keyOrigin ms) (backLeft iter.keyOrigin bs)) := by
  cases h with
  | fromMem origin least =>
    rw [overlay_cons_left _ _ least, origin]
    exact List.filter_append (p := fun kv : Bytes × Bytes => decide (kv.2.length ≠ 0))
      [(iter.key, iter.value)] _
  | fromBack origin least =>
    rw [overlay_cons_right _ _ least, origin]
    exact List.filter_append (p := fun kv : Bytes × Bytes => decide (kv.2.length ≠ 0))
      [(iter.key, iter.value)] _
  | fromBoth origin same =>
    rw [overlay_cons_both _ _ same, origin]
    exact List.filter_append (p := fun kv : Bytes × Bytes => decide (kv.2.length ≠ 0))
      [(iter.key, iter.value)] _
  | nothing key value hmem hback =>
    have hshown : iter.shown = [] := by simp [shown, live, value]
    rw [hshown, List.nil_append]
    cases horigin : iter.keyOrigin with
    | fromMem => simp [memLeft, backLeft, hmem (by simp [horigin])]
    | fromBack => simp [memLeft, backLeft, hback (by simp [horigin])]
    | fromBoth => simp [memLeft, backLeft, hmem (by simp [horigin]), hback (by simp [horigin])]

/-- Steps that a merge can still make: the entries that are left, and the ends it has not seen. -/
def stepsLeft (iter : JoinIter M B) (ms bs : List (Bytes × Bytes)) : ℕ :=
  ms.length + bs.length + (if iter.nextMemEnd then 0 else 1) + (if iter.nextBackEnd then 0 else 1)

theorem compare_nil_left (hk : k ≠ []) : compare ([] : Bytes) k = .lt := by
  cases k with
  | nil => exact absurd rfl hk
  | cons c k => rfl

theorem compare_nil_right (hk : k ≠ []) : compare k ([] : Bytes) = .gt :=
  Std.OrientedCmp.gt_of_lt (compare_nil_left hk)

theorem flag_le {a b : Bool} (h : a = true → b = true) : (if b then 0 else 1) ≤ if a then 0 else 1 := by
  cases a <;> cases b <;> simp_all

section Lawful
variable (hm : mem.Lawful StandsM) (hb : back.Lawful StandsB)
include hm hb

theorem Holds.error (h : Holds StandsM StandsB s iter ms bs) : iter.error mem back = none := by
  rw [JoinIter.error, hb.error h.back, hm.error h.mem]

omit hb in
theorem Holds.moveMem (h : Holds StandsM StandsB s iter ms bs) : ∃ memdb nextMemEnd,
    iter.moveMem mem s.1 = some { iter with memdb := memdb, nextMemEnd := nextMemEnd } ∧
      Holds StandsM StandsB s { iter with memdb := memdb, nextMemEnd := nextMemEnd }
        (memLeft iter.keyOrigin ms) bs ∧
      (iter.nextMemEnd = true → nextMemEnd = true) ∧
      (iter.keyOrigin ≠ .fromBack → ms.tail = [] → nextMemEnd = true) := by
  rw [JoinIter.moveMem]
  split
  · next hmove =>
    obtain ⟨⟨has, memdb⟩, hnext, hhas, hstands⟩ := hm.next h.mem
    have hne : iter.keyOrigin ≠ .fromBack := by
      intro hback
      simp [hback] at hmove
    have hend : iter.nextMemEnd = false := by simpa using (Bool.and_eq_true_iff.mp hmove).2
    obtain rfl : has = !ms.tail.isEmpty := hhas
    refine ⟨memdb, _, by rw [hnext]; rfl, ?_, by simp [hend], fun _ htail => by simp [htail]⟩
    rw [memLeft, if_neg hne]
    exact
      { mem := hstands
        back := h.back
        memEnd := fun hend => by simpa using hend
        backEnd := h.backEnd
        memKeys := fun kv hkv => h.memKeys kv (List.mem_of_mem_tail hkv)
        backKeys := h.backKeys }
  · next hmove =>
    refine ⟨iter.memdb, iter.nextMemEnd, rfl, ?_, id, ?_⟩
    · by_cases hback : iter.keyOrigin = .fromBack
      · rw [memLeft, if_pos hback]
        exact h
      · have hend : iter.nextMemEnd = true := by
          cases horigin : iter.keyOrigin <;> simp_all
        rw [memLeft, if_neg hback]
        obtain rfl := h.memEnd hend
        exact h
    · intro hne _
      cases horigin : iter.keyOrigin <;> simp_all

omit hm in
theorem Holds.moveBack (h : Holds StandsM StandsB s iter ms bs) : ∃ backend nextBackEnd,
    iter.moveBack back s.2 = some { iter with backend := backend, nextBackEnd := nextBackEnd } ∧
      Holds StandsM StandsB s { iter with backend := backend, nextBackEnd := nextBackEnd }
        ms (backLeft iter.keyOrigin bs) ∧
      (iter.nextBackEnd = true → nextBackEnd = true) ∧
      (iter.keyOrigin ≠ .fromMem → bs.tail = [] → nextBackEnd = true) := by
  rw [JoinIter.moveBack]
  split
  · next hmove =>
    obtain ⟨⟨has, backend⟩, hnext, hhas, hstands⟩ := hb.next h.back
    have hne : iter.keyOrigin ≠ .fromMem := by
      intro hback
      simp [hback] at hmove
    have hend : iter.nextBackEnd = false := by simpa using (Bool.and_eq_true_iff.mp hmove).2
    obtain rfl : has = !bs.tail.isEmpty := hhas
    refine ⟨backend, _, by rw [hnext]; rfl, ?_, by simp [hend], fun _ htail => by simp [htail]⟩
    rw [backLeft, if_neg hne]
    exact
      { mem := h.mem
        back := hstands
        memEnd := h.memEnd
        backEnd := fun hend => by simpa using hend
        memKeys := h.memKeys
        backKeys := fun kv hkv => h.backKeys kv (List.mem_of_mem_tail hkv) }
  · next hmove =>
    refine ⟨iter.backend, iter.nextBackEnd, rfl, ?_, id, ?_⟩
    · by_cases hmem : iter.keyOrigin = .fromMem
      · rw [backLeft, if_pos hmem]
        exact h
      · have hend : iter.nextBackEnd = true := by
          cases horigin : iter.keyOrigin <;> simp_all
        rw [backLeft, if_neg hmem]
        obtain rfl := h.backEnd hend
        exact h
    · intro hne _
      cases horigin : iter.keyOrigin <;> simp_all

omit hb in
theorem Holds.fromMem (h : Holds StandsM StandsB s iter ms bs) (hend : iter.nextMemEnd = false)
    (hleast : ∀ m ∈ ms.head?, ∀ b ∈ bs.head?, compare m.1 b.1 = .lt) : (iter.fromMem mem .fromMem).Shows ms bs := by
  have hentry := hm.entry h.mem
  cases ms with
  | nil =>
    exact .nothing (congrArg Prod.fst hentry) (congrArg Prod.snd hentry) (fun _ => rfl)
      (fun hne => absurd rfl hne) (fun _ => by simp [JoinIter.fromMem, hend]) (by simp [JoinIter.fromMem])
  | cons m ms =>
    obtain rfl : m = mem.entry iter.memdb := hentry.symm
    exact (.fromMem rfl (hleast _ rfl) : Shows (iter.fromMem mem .fromMem) _ _)

omit hm in
theorem Holds.fromBack (h : Holds StandsM StandsB s iter ms bs) (hend : iter.nextBackEnd = false)
    (hleast : ∀ m ∈ ms.head?, ∀ b ∈ bs.head?, compare m.1 b.1 = .gt) : (iter.fromBack back).Shows ms bs := by
  have hentry := hb.entry h.back
  cases bs with
  | nil =>
    exact .nothing (congrArg Prod.fst hentry) (congrArg Prod.snd hentry) (fun hne => absurd rfl hne)
      (fun _ => rfl) (by simp [JoinIter.fromBack]) (fun _ => by simp [JoinIter.fromBack, hend])
  | cons b bs =>
    obtain rfl : b = back.entry iter.backend := hentry.symm
    exact (.fromBack rfl fun m hm => hleast m hm _ rfl : Shows (iter.fromBack back) _ _)

omit hm hb in
theorem Holds.holds_pick (h : Holds StandsM StandsB s iter ms bs) :
    Holds StandsM StandsB s (iter.pick mem back) ms bs := by
  obtain ⟨hmemdb, hbackend, hmemEnd, hbackEnd⟩ := pick_parts mem back iter
  exact ⟨hmemdb ▸ h.mem, hbackend ▸ h.back, hmemEnd ▸ h.memEnd, hbackEnd ▸ h.backEnd, h.memKeys, h.backKeys⟩

variable (h : Holds StandsM StandsB s iter ms bs)
include h

theorem Holds.pick (hmem : iter.nextMemEnd = false)
    (hback : iter.nextBackEnd = false) : (iter.pick mem back).Shows ms bs := by
  have hm' : mem.key iter.memdb = (ms.headD default).1 := congrArg Prod.fst (hm.entry h.mem)
  have hb' : back.key iter.backend = (bs.headD default).1 := congrArg Prod.fst (hb.entry h.back)
  rw [JoinIter.pick, hm', hb']
  cases ms with
  | nil =>
    cases bs with
    | nil =>
      have hentry := hm.entry h.mem
      exact .nothing (congrArg Prod.fst hentry) (congrArg Prod.snd hentry) (fun _ => rfl) (fun _ => rfl)
        (by simp [JoinIter.fromMem]) (by simp [JoinIter.fromMem])
    | cons b bs =>
      rw [show compare (([] : List (Bytes × Bytes)).headD default).1 ((b :: bs).headD default).1 = .lt from
        compare_nil_left (h.backKeys b (by simp))]
      exact h.fromMem hm hmem (by simp)
  | cons m ms =>
    cases bs with
    | nil =>
      rw [show compare ((m :: ms).headD default).1 (([] : List (Bytes × Bytes)).headD default).1 = .gt from
        compare_nil_right (h.memKeys m (by simp))]
      exact h.fromBack hb hback (by simp)
    | cons b bs =>
      rw [List.headD_cons, List.headD_cons]
      cases hcmp : compare m.1 b.1 with
      | lt =>
        refine h.fromMem hm hmem ?_
        rintro _ ⟨⟩ _ ⟨⟩
        exact hcmp
      | gt =>
        refine h.fromBack hb hback ?_
        rintro _ ⟨⟩ _ ⟨⟩
        exact hcmp
      | eq =>
        obtain rfl : m = mem.entry iter.memdb := (hm.entry h.mem).symm
        exact (.fromBoth rfl hcmp : Shows (iter.fromMem mem .fromBoth) _ _)

/-- After the moves the merge shows the least entry that is left, unless both parts have ended. -/
theorem Holds.settle : ∃ r, iter.settle mem back = r ∧
    Holds StandsM StandsB s r.2 ms bs ∧ r.2.Shows ms bs ∧ r.2.nextMemEnd = iter.nextMemEnd ∧
      r.2.nextBackEnd = iter.nextBackEnd ∧
      (r.1 = false → ms = [] ∧ bs = [] ∧ r.2.key = [] ∧ r.2.value = []) ∧
      (iter.nextMemEnd = true → iter.nextBackEnd = true → r.1 = false) := by
  rw [JoinIter.settle, h.error hm hb]
  cases hback : iter.nextBackEnd with
  | true =>
    obtain rfl := h.backEnd hback
    cases hmem : iter.nextMemEnd with
    | true =>
      obtain rfl := h.memEnd hmem
      exact ⟨_, rfl, ⟨h.mem, h.back, fun _ => rfl, fun _ => rfl, h.memKeys, h.backKeys⟩,
        .nothing rfl rfl (fun _ => rfl) (fun _ => rfl) (fun _ _ => rfl) (fun _ _ => rfl), rfl, rfl,
        fun _ => ⟨rfl, rfl, rfl, rfl⟩, fun _ _ => rfl⟩
    | false =>
      exact ⟨_, rfl, ⟨h.mem, h.back, h.memEnd, h.backEnd, h.memKeys, h.backKeys⟩,
        h.fromMem hm hmem (by simp), hmem, hback, by simp, by simp⟩
  | false =>
    cases hmem : iter.nextMemEnd with
    | true =>
      obtain rfl := h.memEnd hmem
      exact ⟨_, rfl, ⟨h.mem, h.back, h.memEnd, h.backEnd, h.memKeys, h.backKeys⟩,
        h.fromBack hb hback (by simp), hmem, hback, by simp, by simp⟩
    | false =>
      obtain ⟨-, -, hmemEnd, hbackEnd⟩ := pick_parts mem back iter
      exact ⟨_, rfl, h.holds_pick, h.pick hm hb hmem hback, hmemEnd.trans hmem, hbackEnd.trans hback, by simp, by simp⟩

theorem Holds.advance : ∃ r, iter.next mem back s = some r ∧
    Holds StandsM StandsB s r.2 (memLeft iter.keyOrigin ms) (backLeft iter.keyOrigin bs) ∧
    r.2.Shows (memLeft iter.keyOrigin ms) (backLeft iter.keyOrigin bs) ∧
    (iter.nextMemEnd = true → r.2.nextMemEnd = true) ∧ (iter.nextBackEnd = true → r.2.nextBackEnd = true) ∧
    (iter.keyOrigin ≠ .fromBack → ms.tail = [] → r.2.nextMemEnd = true) ∧
    (iter.keyOrigin ≠ .fromMem → bs.tail = [] → r.2.nextBackEnd = true) ∧
    (r.2.nextMemEnd = true → r.2.nextBackEnd = true → r.1 = false) ∧
    (r.1 = false → memLeft iter.keyOrigin ms = [] ∧ backLeft iter.keyOrigin bs = [] ∧
      r.2.key = [] ∧ r.2.value = []) := by
  obtain ⟨memdb, memEnd, hmove, h1, hmono, hmemEnd⟩ := h.moveMem hm
  obtain ⟨backend, backEnd, hmove', h2, hmono', hbackEnd⟩ := h1.moveBack hb
  obtain ⟨r, hsettle, h3, hshows', hflagM, hflagB, hstop, hended⟩ := h2.settle hm hb
  have hnext : iter.next mem back s = some r := by
    simp only [JoinIter.next, hmove, Option.bind_eq_bind, Option.bind_some, hmove']
    rw [← hsettle]
  refine ⟨r, hnext, h3, hshows', ?_, ?_, ?_, ?_, ?_, hstop⟩
  · exact fun hend => hflagM.trans (hmono hend)
  · exact fun hend => hflagB.trans (hmono' hend)
  · exact fun horigin htail => hflagM.trans (hmemEnd horigin htail)
  · exact fun horigin htail => hflagB.trans (hbackEnd horigin htail)
  · exact fun hmem hback => hended (hflagM.symm.trans hmem) (hflagB.symm.trans hback)

theorem Holds.next (hshows : iter.Shows ms bs) : ∃ r,
    iter.next mem back s = some r ∧
      Holds StandsM StandsB s r.2 (memLeft iter.keyOrigin ms) (backLeft iter.keyOrigin bs) ∧
      r.2.Shows (memLeft iter.keyOrigin ms) (backLeft iter.keyOrigin bs) ∧
      r.2.stepsLeft (memLeft iter.keyOrigin ms) (backLeft iter.keyOrigin bs) ≤ iter.stepsLeft ms bs ∧
      (r.1 = true → r.2.stepsLeft (memLeft iter.keyOrigin ms) (backLeft iter.keyOrigin bs) < iter.stepsLeft ms bs) ∧
      (r.1 = false → memLeft iter.keyOrigin ms = [] ∧ backLeft iter.keyOrigin bs = [] ∧
        r.2.key = [] ∧ r.2.value = []) := by
  obtain ⟨r, hnext, h', hshows', hmono, hmono', hmemEnd, hbackEnd, hended, hstop⟩ := h.advance hm hb
  have hM := flag_le hmono
  have hB := flag_le hmono'
  have hms := length_memLeft iter.keyOrigin ms
  have hbs := length_backLeft iter.keyOrigin bs
  refine ⟨r, hnext, h', hshows', ?_, ?_, hstop⟩
  · rw [stepsLeft, stepsLeft]
    omega
  intro hgo
  rw [stepsLeft, stepsLeft]
  cases hshows with
  | fromMem origin least | fromBack origin least =>
    simp only [memLeft, backLeft, origin, reduceCtorEq, if_false, if_true, List.tail_cons, List.length_cons]
    omega
  | fromBoth origin same =>
    simp only [memLeft, backLeft, origin, reduceCtorEq, if_false, List.tail_cons, List.length_cons]
    omega
  | nothing key value hms hbs hmemStop hbackStop =>
    -- an end that was not seen is seen now, or else both were and the merge stops
    cases origin : iter.keyOrigin with
    | fromMem =>
      obtain rfl := hms (by simp [origin])
      have hend := hmemEnd (by simp [origin]) rfl
      cases hseen : iter.nextMemEnd with
      | false => simp [memLeft, backLeft, hend] at hB ⊢; omega
      | true =>
        rw [hended hend (hmono' (hmemStop origin hseen))] at hgo
        cases hgo
    | fromBack =>
      obtain rfl := hbs (by simp [origin])
      have hend := hbackEnd (by simp [origin]) rfl
      cases hseen : iter.nextBackEnd with
      | false => simp [memLeft, backLeft, hend] at hM ⊢; omega
      | true =>
        rw [hended (hmono (hbackStop origin hseen)) hend] at hgo
        cases hgo
    | fromBoth =>
      obtain rfl := hms (by simp [origin])
      obtain rfl := hbs (by simp [origin])
      rw [hended (hmemEnd (by simp [origin]) rfl) (hbackEnd (by simp [origin]) rfl)] at hgo
      cases hgo

end Lawful

/-! ## A merge is lawful -/

/-- The merge has the entries `kvs` left: those of its parts that are not deleted, each key once. -/
structure Stands (StandsM : SM → M → List (Bytes × Bytes) → Prop)
    (StandsB : SB → B → List (Bytes × Bytes) → Prop) (steps : ℕ) (s : SM × SB) (iter : JoinIter M B)
    (kvs : List (Bytes × Bytes)) : Prop where
  parts : ∃ ms bs, Holds StandsM StandsB s iter ms bs ∧ iter.Shows ms bs ∧
    iter.stepsLeft ms bs < steps ∧ kvs = live (overlay ms bs)
  entry : (iter.key, iter.value) = kvs.headD default

section Lawful
variable (hm : mem.Lawful StandsM) (hb : back.Lawful StandsB)
include hm hb

theorem skip_found {limit : ℕ} : ∀ (steps : ℕ) (r : Bool × JoinIter M B) (ms bs : List (Bytes × Bytes)),
    Holds StandsM StandsB s r.2 ms bs → r.2.Shows ms bs → r.2.stepsLeft ms bs < limit →
    (r.1 = true → r.2.stepsLeft ms bs < steps) →
    (r.1 = false → ms = [] ∧ bs = [] ∧ r.2.key = [] ∧ r.2.value = []) →
    ∃ r', skip mem back s steps r = some r' ∧ Cursor.Found (Stands StandsM StandsB limit) s r' (live (overlay ms bs))
  | steps, (false, iter), ms, bs, h, hshows, hlimit, _, hstop => by
    obtain ⟨rfl, rfl, hkey, hvalue⟩ := hstop rfl
    refine ⟨(false, iter), by rw [skip], by simp [live], ⟨[], [], h, hshows, hlimit, rfl⟩, ?_⟩
    have hlive : live (overlay ([] : List (Bytes × Bytes)) []) = [] := by simp [live]
    rw [hlive]
    exact Prod.ext hkey hvalue
  | 0, (true, iter), ms, bs, _, _, _, hsteps, _ => absurd (hsteps rfl) (Nat.not_lt_zero _)
  | steps + 1, (true, iter), ms, bs, h, hshows, hlimit, hsteps, _ => by
    have hlive := hshows.live_overlay
    rw [skip]
    split
    · next hempty =>
      obtain ⟨r, hnext, h', hshows', hle, hless, hstop⟩ := h.next hm hb hshows
      have hshown : iter.shown = [] := by simp [shown, live, List.length_eq_zero_iff.mp hempty]
      rw [hshown, List.nil_append] at hlive
      rw [hnext, hlive]
      refine skip_found steps r _ _ h' hshows' (hle.trans_lt hlimit) (fun hr => ?_) hstop
      exact Nat.lt_of_lt_of_le (hless hr) (Nat.le_of_lt_succ (hsteps rfl))
    · next hvalue =>
      have hshown : iter.shown = [(iter.key, iter.value)] := by
        simp only [shown, live]
        rw [List.filter_cons_of_pos (by simpa using hvalue), List.filter_nil]
      rw [hshown, List.singleton_append] at hlive
      refine ⟨(true, iter), rfl, by simp [hlive], ⟨ms, bs, h, hshows, hlimit, rfl⟩, ?_⟩
      rw [hlive]
      rfl

theorem cursor_lawful (steps : ℕ) : (cursor mem back steps).Lawful (Stands StandsM StandsB steps) where
  entry := fun h => h.entry
  error := by
    rintro s iter kvs ⟨⟨ms, bs, h, -⟩, -⟩
    exact h.error hm hb
  next := by
    rintro s iter kvs ⟨⟨ms, bs, h, hshows, hsteps, hkvs⟩, hentry⟩
    obtain ⟨r, hnext, h', hshows', hle, hless, hstop⟩ := h.next hm hb hshows
    obtain ⟨r', hskip, hfound⟩ := skip_found hm hb steps r _ _ h' hshows' (hle.trans_lt hsteps)
      (fun hr => (hless hr).trans hsteps) hstop
    refine ⟨r', ?_, ?_⟩
    · show Next mem back steps s iter = some r'
      simp only [Next, hnext, Option.bind_eq_bind, Option.bind_some, hskip]
    · rw [hshows.live_overlay] at hkvs
      have htail : kvs.tail = live (overlay (memLeft iter.keyOrigin ms) (backLeft iter.keyOrigin bs)) := by
        by_cases hvalue : iter.value.length = 0
        · -- nothing is shown, so nothing is left
          have hshown : iter.shown = [] := by simp [shown, live, List.length_eq_zero_iff.mp hvalue]
          rw [hshown, List.nil_append] at hkvs
          cases kvs with
          | nil => exact hkvs
          | cons kv kvs =>
            have hmem : kv ∈ live (overlay (memLeft iter.keyOrigin ms) (backLeft iter.keyOrigin bs)) := by
              rw [← hkvs]
              exact List.mem_cons_self ..
            have hne := (List.mem_filter.mp hmem).2
            have hval : iter.value = kv.2 := congrArg Prod.snd hentry
            simp [← hval, List.length_eq_zero_iff.mp hvalue] at hne
        · have hshown : iter.shown = [(iter.key, iter.value)] := by
            simp only [shown, live]
            rw [List.filter_cons_of_pos (by simpa using hvalue), List.filter_nil]
          rw [hkvs, hshown]
          rfl
      rw [htail]
      exact hfound

variable {m : M} {b : B}

theorem Holds.first {memdb : M} {backend : B} (hmem : mem.first s.1 m = some (!ms.isEmpty, memdb))
    (hback : back.first s.2 b = some (!bs.isEmpty, backend))
    (h : Holds StandsM StandsB s { newJoinIter m b with backend := backend, memdb := memdb } ms bs) :
    
    ∃ r, (newJoinIter m b).first mem back s = some r ∧ Holds StandsM StandsB s r.2 ms bs ∧
      r.2.Shows ms bs ∧ (r.2.nextMemEnd = false ∧ r.2.nextBackEnd = false) ∧
      (r.1 = false → ms = [] ∧ bs = [] ∧ r.2.key = [] ∧ r.2.value = []) ∧ (r.1 = true → r.2.key ≠ []) := by
  have herror := h.error hm hb
  have hmemEntry : mem.key memdb = (ms.headD default).1 := congrArg Prod.fst (hm.entry h.mem)
  have hbackEntry : back.key backend = (bs.headD default).1 := congrArg Prod.fst (hb.entry h.back)
  simp only [JoinIter.first, newJoinIter, hmem, hback, Option.bind_eq_bind, Option.bind_some] at herror ⊢
  rw [herror]
  cases bs with
  | nil =>
    cases ms with
    | nil =>
      exact ⟨_, rfl, h, .nothing rfl rfl (fun _ => rfl) (fun _ => rfl) (by simp) (by simp), ⟨rfl, rfl⟩,
        fun _ => ⟨rfl, rfl, rfl, rfl⟩, fun htrue => nomatch htrue⟩
    | cons kv ms =>
      exact ⟨_, rfl, ⟨h.mem, h.back, h.memEnd, h.backEnd, h.memKeys, h.backKeys⟩,
        h.fromMem hm rfl (by simp), ⟨rfl, rfl⟩, by simp,
        fun _ => hmemEntry.trans_ne (h.memKeys kv List.mem_cons_self)⟩
  | cons kv bs =>
    have hbackKey : back.key backend ≠ [] := hbackEntry.trans_ne (h.backKeys kv List.mem_cons_self)
    cases ms with
    | nil =>
      exact ⟨_, rfl, ⟨h.mem, h.back, h.memEnd, h.backEnd, h.memKeys, h.backKeys⟩,
        h.fromBack hb rfl (by simp), ⟨rfl, rfl⟩, by simp, fun _ => hbackKey⟩
    | cons kv' ms =>
      have hmemKey : mem.key memdb ≠ [] := hmemEntry.trans_ne (h.memKeys kv' List.mem_cons_self)
      obtain ⟨-, -, hmemEnd, hbackEnd⟩ := pick_parts mem back
        ({ newJoinIter m b with backend := backend, memdb := memdb } : JoinIter M B)
      refine ⟨_, rfl, h.holds_pick, h.pick hm hb rfl rfl, ⟨hmemEnd, hbackEnd⟩, by simp, fun _ => ?_⟩
      rcases pick_key mem back ({ newJoinIter m b with backend := backend, memdb := memdb } : JoinIter M B)
        with hkey | hkey
      · exact hkey.trans_ne hmemKey
      · exact hkey.trans_ne hbackKey

theorem first_found {rm : Bool × M} {rb : Bool × B} (hmem : mem.first s.1 m = some rm)
    (hback : back.first s.2 b = some rb) (hms : Cursor.Found StandsM s.1 rm ms)
    (hbs : Cursor.Found StandsB s.2 rb bs) (hmkeys : ∀ kv ∈ ms, kv.1 ≠ [])
    (hbkeys : ∀ kv ∈ bs, kv.1 ≠ []) (hsteps : ms.length + bs.length + 2 < steps) : ∃ r, (cursor mem back steps).first s (newJoinIter m b) = some r ∧
        Cursor.Found (Stands StandsM StandsB steps) s r (live (overlay ms bs)) := by
  obtain ⟨hasMem, memdb⟩ := rm
  obtain ⟨hasBack, backend⟩ := rb
  obtain rfl : hasMem = !ms.isEmpty := hms.1
  obtain rfl : hasBack = !bs.isEmpty := hbs.1
  have h : Holds StandsM StandsB s { newJoinIter m b with backend := backend, memdb := memdb } ms bs :=
    ⟨hms.2, hbs.2, by simp [newJoinIter], by simp [newJoinIter], hmkeys, hbkeys⟩
  obtain ⟨r, hr, hholds, hshows, hflags, hstop, -⟩ := h.first hm hb hmem hback
  have hleft : r.2.stepsLeft ms bs < steps := by
    rw [stepsLeft, hflags.1, hflags.2]
    simpa using hsteps
  obtain ⟨r', hskip, hfound⟩ := skip_found hm hb steps r ms bs hholds hshows hleft (fun _ => hleft) hstop
  refine ⟨r', ?_, hfound⟩
  show First mem back steps s (newJoinIter m b) = some r'
  simp only [First, hr, Option.bind_eq_bind, Option.bind_some, hskip]

end Lawful

/-- A merge that shows an entry is not disturbed by a change of the table that leaves alone what the
table's iterator has left, if that is at or behind the shown key. -/
theorem Stands.changeMem {sm : SM} {kv : Bytes × Bytes} (h : Stands StandsM StandsB steps s iter (kv :: kvs))
    (hchange : ∀ ms, StandsM s.1 iter.memdb ms → (∀ m ∈ ms.head?, compare m.1 kv.1 ≠ .lt) → StandsM sm iter.memdb ms) :
    Stands StandsM StandsB steps (sm, s.2) iter (kv :: kvs) := by
  obtain ⟨⟨ms, bs, hholds, hshows, hsteps, hkvs⟩, hentry⟩ := h
  have hkey : iter.key = kv.1 := congrArg Prod.fst hentry
  have hle : ∀ m ∈ ms.head?, compare m.1 kv.1 ≠ .lt := by
    rw [← hkey]
    cases hshows with
    | fromMem origin least =>
      rintro _ ⟨⟩
      simp
    | fromBack origin least =>
      intro m hm
      simp [least m hm]
    | fromBoth origin same =>
      rintro _ ⟨⟩
      simp
    | nothing key value hms hbs hmemStop hbackStop =>
      -- an entry with an empty value is not one that is left
      have hmem : kv ∈ live (overlay ms bs) := hkvs ▸ List.mem_cons_self ..
      have hne := (List.mem_filter.mp hmem).2
      have hval : iter.value = kv.2 := congrArg Prod.snd hentry
      simp [← hval, value] at hne
  exact ⟨⟨ms, bs, { hholds with mem := hchange ms hholds.mem hle }, hshows, hsteps, hkvs⟩, hentry⟩

end JoinIter
end Web3.Storage
