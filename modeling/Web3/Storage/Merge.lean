import Web3.Storage.SelfDestruct

/-! # Enumerating a merge

A merge of two iterators, driven by `First` and then `Next` until it returns false, shows the keys that
have a value in the two maps read as one. A second `First` finds the marks that the first pass has left
for parts that ran out: such a part shows no more than the very first entry. -/

namespace Web3.Storage

variable {S I : Type}

/-- An iterator with no errors whose `First` leads to the entries `kvs`, in increasing order of keys that
are not empty. -/
structure WellBehaved (c : Cursor S I Bytes Bytes) (Stands : S → I → List (Bytes × Bytes) → Prop) (s : S) (i : I)
    (kvs : List (Bytes × Bytes)) : Prop where
  lawful : c.Lawful Stands
  first : ∃ r, c.first s i = some r ∧ Cursor.Found Stands s r kvs
  sorted : KeysSorted kvs
  keys : ∀ kv ∈ kvs, kv.1 ≠ []

/-- Moreover `First` can be called at any time. -/
structure Restartable (c : Cursor S I Bytes Bytes) (Stands : S → I → List (Bytes × Bytes) → Prop) (s : S) (i : I)
    (kvs : List (Bytes × Bytes)) : Prop extends WellBehaved c Stands s i kvs where
  again : ∀ i' left, Stands s i' left → ∃ r, c.first s i' = some r ∧ Cursor.Found Stands s r kvs

namespace JoinIter
variable {SM SB M B : Type} {mem : Cursor SM M Bytes Bytes} {back : Cursor SB B Bytes Bytes}
  {StandsM : SM → M → List (Bytes × Bytes) → Prop} {StandsB : SB → B → List (Bytes × Bytes) → Prop}
  {s : SM × SB} {m : M} {b : B} {ms bs : List (Bytes × Bytes)} {iter : JoinIter M B}

theorem enumerates_new (hm : WellBehaved mem StandsM s.1 m ms) (hb : WellBehaved back StandsB s.2 b bs) :
    Cursor.Enumerates (cursor mem back) s (newJoinIter m b) (live (overlay ms bs)) := by
  obtain ⟨rm, hrm, hms⟩ := hm.first
  obtain ⟨rb, hrb, hbs⟩ := hb.first
  refine ⟨ms.length + bs.length + 2, fun steps hsteps => ?_⟩
  obtain ⟨r, hr, hfound⟩ := first_found hm.lawful hb.lawful hrm hrb hms hbs hm.keys hb.keys hsteps
  refine ⟨r, hr, (cursor_lawful hm.lawful hb.lawful steps).walk_eq hfound ?_⟩
  have hlive : (live (overlay ms bs)).length ≤ (overlay ms bs).length := List.length_filter_le _ _
  have hlen := length_overlay_le ms bs
  omega

theorem mem_live_overlay (hm : KeysSorted ms) (hb : KeysSorted bs) (k v : Bytes) :
    (k, v) ∈ live (overlay ms bs) ↔ (ms.lookup k).or (bs.lookup k) = some v ∧ v ≠ [] := by
  rw [mem_live, (hm.overlay hb).mem_iff, lookup_overlay hm hb]

end JoinIter

theorem CacheDB.enumerates_slots {store : Store} (its : StoreIterators store) (db : CacheDB) (key : Bytes) :
    Cursor.Enumerates (cacheCursor its) db.layers (CacheDB.newIterator its key)
      (db.slots its (makePrefixedKey ST_STORAGE key)) := by
  obtain ⟨N, hN⟩ := db.first_found its key
  refine ⟨max N (db.slots its (makePrefixedKey ST_STORAGE key)).length, fun steps hsteps => ?_⟩
  obtain ⟨hsteps, hlen⟩ := max_lt_iff.mp hsteps
  obtain ⟨r, hr, hfound⟩ := hN steps hsteps
  exact ⟨r, hr, (cacheCursor_lawful its steps).walk_eq hfound hlen.le⟩

/-- **A new merge enumerates exactly the keys with a value**, in order and each once; so does the iterator
over cache, overlay and store. -/
theorem merged_iteration_exact : (∀ (SM SB M B : Type) (mem : Cursor SM M Bytes Bytes) (back : Cursor SB B Bytes Bytes)
      (StandsM : SM → M → List (Bytes × Bytes) → Prop) (StandsB : SB → B → List (Bytes × Bytes) → Prop)
      (s : SM × SB) (m : M) (b : B) (ms bs : List (Bytes × Bytes)),
      WellBehaved mem StandsM s.1 m ms → WellBehaved back StandsB s.2 b bs →
        ∃ kvs, Cursor.Enumerates (JoinIter.cursor mem back) s (newJoinIter m b) kvs ∧ KeysSorted kvs ∧
          ∀ k v, (k, v) ∈ kvs ↔ (ms.lookup k).or (bs.lookup k) = some v ∧ v ≠ []) ∧
    ∀ (store : Store) (its : StoreIterators store) (db : CacheDB) (key : Bytes), db.backend.store = store →
      ∃ kvs, Cursor.Enumerates (cacheCursor its) db.layers (CacheDB.newIterator its key) kvs ∧ KeysSorted kvs ∧
        ∀ k v, (k, v) ∈ kvs ↔ makePrefixedKey ST_STORAGE key <+: k ∧ db.valueAt k = v ∧ v ≠ [] := by
  refine ⟨fun SM SB M B mem back StandsM StandsB s m b ms bs hm hb => ?_, fun store its db key hstore => ?_⟩
  · exact ⟨_, JoinIter.enumerates_new hm hb, JoinIter.live_sorted (hm.sorted.overlay hb.sorted),
      JoinIter.mem_live_overlay hm.sorted hb.sorted⟩
  · refine ⟨_, CacheDB.enumerates_slots its db key, db.slots_sorted its _, fun k v => ⟨fun h => ?_, fun h => ?_⟩⟩
    · have hpre := CacheDB.prefix_slots its h
      exact ⟨hpre, (CacheDB.mem_slots its hstore hpre).mp h⟩
    · exact (CacheDB.mem_slots its hstore h.1).mpr h.2

/-- A table with a tombstone and a value, over one with the deleted key. -/
theorem merged_iteration_exact_tombstone :
    ∃ kvs, Cursor.Enumerates (JoinIter.cursor (Cursor.ofList [([1], []), ([2], [7])]) (Cursor.ofList [([1], [5])]))
        ((), ()) (newJoinIter [] []) kvs ∧ KeysSorted kvs ∧
      ∀ k v, (k, v) ∈ kvs ↔ (([([1], []), ([2], [7])] : List (Bytes × Bytes)).lookup k).or
          (([([1], [5])] : List (Bytes × Bytes)).lookup k) = some v ∧ v ≠ [] := by
  have hm : WellBehaved (Cursor.ofList [([1], []), ([2], [7])]) (fun _ left kvs => left = kvs) () []
      [([1], []), ([2], [7])] :=
    ⟨Cursor.ofList_lawful _, ⟨_, rfl, rfl, rfl⟩, List.pairwise_pair.mpr (by decide +kernel), by decide +kernel⟩
  have hb : WellBehaved (Cursor.ofList [([1], [5])]) (fun _ left kvs => left = kvs) () [] [([1], [5])] :=
    ⟨Cursor.ofList_lawful _, ⟨_, rfl, rfl, rfl⟩, List.pairwise_singleton _ _, by decide +kernel⟩
  exact merged_iteration_exact.1 _ _ _ _ _ _ _ _ ((), ()) _ _ _ _ hm hb

/-! ## Parts that are marked as ended -/

namespace JoinIter
variable {SM SB M B : Type} {mem : Cursor SM M Bytes Bytes} {back : Cursor SB B Bytes Bytes}
  {StandsM : SM → M → List (Bytes × Bytes) → Prop} {StandsB : SB → B → List (Bytes × Bytes) → Prop}
  {s : SM × SB} {m : M} {b : B} {ms bs : List (Bytes × Bytes)} {iter : JoinIter M B} {memEnd backEnd : Bool}

variable (isEnded : Bool)

def side (c : Cursor S I Bytes Bytes) : Cursor S I Bytes Bytes := if isEnded then .ended else c

def sideStands (Stands : S → I → List (Bytes × Bytes) → Prop) : S → I → List (Bytes × Bytes) → Prop :=
  if isEnded then fun _ _ kvs => kvs = [] else Stands

def sideLeft (kvs : List (Bytes × Bytes)) : List (Bytes × Bytes) := if isEnded then [] else kvs

theorem side_lawful {c : Cursor S I Bytes Bytes} {Stands : S → I → List (Bytes × Bytes) → Prop} (hc : c.Lawful Stands)
    (isEnded : Bool) : (side isEnded c).Lawful (sideStands isEnded Stands) := by
  cases isEnded with
  | true => exact Cursor.ended_lawful
  | false => exact hc

theorem sideStands_of {Stands : S → I → List (Bytes × Bytes) → Prop} {t : S} {i : I} {kvs : List (Bytes × Bytes)}
    (h : Stands t i kvs) (isEnded : Bool) : sideStands isEnded Stands t i (sideLeft isEnded kvs) := by
  cases isEnded with
  | true => rfl
  | false => exact h

/-- The given marks are set, and the parts with a mark report no error. -/
structure Marked (mem : Cursor SM M Bytes Bytes) (back : Cursor SB B Bytes Bytes) (memEnd backEnd : Bool)
    (iter : JoinIter M B) : Prop where
  mem : memEnd = true → iter.nextMemEnd = true ∧ mem.error iter.memdb = none
  back : backEnd = true → iter.nextBackEnd = true ∧ back.error iter.backend = none

section
variable (h : Marked mem back memEnd backEnd iter)
include h

theorem Marked.moveMem (t : SM) :
    iter.moveMem mem t = iter.moveMem (side memEnd mem) t ∧
      ∀ iter', iter.moveMem mem t = some iter' → Marked mem back memEnd backEnd iter' := by
  cases memEnd with
  | false =>
    refine ⟨rfl, fun iter' hmove => ⟨by simp, fun hback => ?_⟩⟩
    rw [JoinIter.moveMem] at hmove
    split at hmove
    · obtain ⟨⟨has, memdb⟩, -, hsome⟩ := Option.bind_eq_some_iff.mp hmove
      cases hsome
      exact h.back hback
    · cases hmove
      exact h.back hback
  | true =>
    have hstay {c : Cursor SM M Bytes Bytes} : iter.moveMem c t = some iter := by
      rw [JoinIter.moveMem, (h.mem rfl).1, Bool.not_true, Bool.and_false]
      rfl
    rw [hstay, hstay]
    refine ⟨rfl, fun iter' hmove => ?_⟩
    cases hmove
    exact h

theorem Marked.moveBack (t : SB) :
    iter.moveBack back t = iter.moveBack (side backEnd back) t ∧
      ∀ iter', iter.moveBack back t = some iter' → Marked mem back memEnd backEnd iter' := by
  cases backEnd with
  | false =>
    refine ⟨rfl, fun iter' hmove => ⟨fun hmem => ?_, by simp⟩⟩
    rw [JoinIter.moveBack] at hmove
    split at hmove
    · obtain ⟨⟨has, memdb⟩, -, hsome⟩ := Option.bind_eq_some_iff.mp hmove
      cases hsome
      exact h.mem hmem
    · cases hmove
      exact h.mem hmem
  | true =>
    have hstay {c : Cursor SB B Bytes Bytes} : iter.moveBack c t = some iter := by
      rw [JoinIter.moveBack, (h.back rfl).1, Bool.not_true, Bool.and_false]
      rfl
    rw [hstay, hstay]
    refine ⟨rfl, fun iter' hmove => ?_⟩
    cases hmove
    exact h

theorem Marked.error : iter.error mem back = iter.error (side memEnd mem) (side backEnd back) := by
  have hmem : (side memEnd mem).error iter.memdb = mem.error iter.memdb := by
    cases memEnd with
    | true => exact (h.mem rfl).2.symm
    | false => rfl
  have hback : (side backEnd back).error iter.backend = back.error iter.backend := by
    cases backEnd with
    | true => exact (h.back rfl).2.symm
    | false => rfl
  rw [JoinIter.error, JoinIter.error, hmem, hback]

end

variable (mem back) in
theorem settle_parts (iter : JoinIter M B) :
    (iter.settle mem back).2.memdb = iter.memdb ∧ (iter.settle mem back).2.backend = iter.backend ∧
      (iter.settle mem back).2.nextMemEnd = iter.nextMemEnd ∧
      (iter.settle mem back).2.nextBackEnd = iter.nextBackEnd := by
  rw [JoinIter.settle]
  split
  · exact ⟨rfl, rfl, rfl, rfl⟩
  · split
    · exact ⟨rfl, rfl, rfl, rfl⟩
    · exact ⟨rfl, rfl, rfl, rfl⟩
    · exact ⟨rfl, rfl, rfl, rfl⟩
    · exact pick_parts mem back iter

theorem Marked.settle (h : Marked mem back memEnd backEnd iter) :
    iter.settle mem back = iter.settle (side memEnd mem) (side backEnd back) := by
  have hmem (hfalse : iter.nextMemEnd = false) : side memEnd mem = mem := by
    cases memEnd with
    | true => cases (h.mem rfl).1.symm.trans hfalse
    | false => rfl
  have hback (hfalse : iter.nextBackEnd = false) : side backEnd back = back := by
    cases backEnd with
    | true => cases (h.back rfl).1.symm.trans hfalse
    | false => rfl
  rw [JoinIter.settle, JoinIter.settle, ← h.error]
  cases hb : iter.nextBackEnd <;> cases hm : iter.nextMemEnd <;> simp only [hmem, hback, hb, hm]

theorem Marked.next (h : Marked mem back memEnd backEnd iter) :
    iter.next mem back s = iter.next (side memEnd mem) (side backEnd back) s ∧
      ∀ r, iter.next mem back s = some r → Marked mem back memEnd backEnd r.2 := by
  obtain ⟨hmem, hmarked⟩ := h.moveMem s.1
  simp only [JoinIter.next, Option.bind_eq_bind, ← hmem]
  cases hmove : iter.moveMem mem s.1 with
  | none => exact ⟨rfl, fun r hr => by cases hr⟩
  | some iter₁ =>
    obtain ⟨hback, hmarked'⟩ := (hmarked iter₁ hmove).moveBack s.2
    simp only [Option.bind_some, ← hback]
    cases hmove' : iter₁.moveBack back s.2 with
    | none => exact ⟨rfl, fun r hr => by cases hr⟩
    | some iter₂ =>
      have h₂ := hmarked' iter₂ hmove'
      refine ⟨congrArg some h₂.settle, ?_⟩
      rintro r ⟨⟩
      obtain ⟨hmemdb, hbackend, hmemEnd, hbackEnd⟩ := settle_parts mem back iter₂
      refine ⟨fun hend => ?_, fun hend => ?_⟩
      · rw [hmemdb, hmemEnd]
        exact h₂.mem hend
      · rw [hbackend, hbackEnd]
        exact h₂.back hend

theorem Marked.skip (steps : ℕ) {r : Bool × JoinIter M B} (h : Marked mem back memEnd backEnd r.2) :
    skip mem back s steps r = skip (side memEnd mem) (side backEnd back) s steps r ∧
      ∀ r', skip mem back s steps r = some r' → Marked mem back memEnd backEnd r'.2 := by
  induction steps generalizing r with
  | zero =>
    obtain ⟨has, iter⟩ := r
    cases has with
    | false =>
      refine ⟨by rw [JoinIter.skip, JoinIter.skip], fun r' hr' => ?_⟩
      rw [JoinIter.skip] at hr'
      cases hr'
      exact h
    | true => exact ⟨rfl, fun r' hr' => by cases hr'⟩
  | succ steps ih =>
    obtain ⟨has, iter⟩ := r
    cases has with
    | false =>
      refine ⟨by rw [JoinIter.skip, JoinIter.skip], fun r' hr' => ?_⟩
      rw [JoinIter.skip] at hr'
      cases hr'
      exact h
    | true =>
      obtain ⟨hnext, hmarked⟩ := h.next (s := s)
      dsimp only at hnext hmarked
      rw [JoinIter.skip, JoinIter.skip, ← hnext]
      split
      · cases hr : iter.next mem back s with
        | none => exact ⟨rfl, fun r' hr' => by cases hr'⟩
        | some r => exact ih (hmarked r hr)
      · refine ⟨rfl, fun r' hr' => ?_⟩
        cases hr'
        exact h

theorem Marked.Next (h : Marked mem back memEnd backEnd iter) (steps : ℕ) :
    iter.Next mem back steps s = iter.Next (side memEnd mem) (side backEnd back) steps s ∧
      ∀ r, iter.Next mem back steps s = some r → Marked mem back memEnd backEnd r.2 := by
  obtain ⟨hnext, hmarked⟩ := h.next (s := s)
  simp only [JoinIter.Next, Option.bind_eq_bind, ← hnext]
  cases hr : iter.next mem back s with
  | none => exact ⟨rfl, fun r' hr' => by cases hr'⟩
  | some r => exact (hmarked r hr).skip steps

theorem Marked.walk (steps n : ℕ) {r : Bool × JoinIter M B} (h : Marked mem back memEnd backEnd r.2) :
    (cursor mem back steps).walk s n r = (cursor (side memEnd mem) (side backEnd back) steps).walk s n r := by
  induction n generalizing r with
  | zero =>
    obtain ⟨has, iter⟩ := r
    cases has <;> rw [Cursor.walk, Cursor.walk]
  | succ n ih =>
    obtain ⟨has, iter⟩ := r
    cases has with
    | false => rw [Cursor.walk, Cursor.walk]
    | true =>
      obtain ⟨hnext, hmarked⟩ := h.Next (s := s) steps
      have hnext : (cursor mem back steps).next s iter = (cursor (side memEnd mem) (side backEnd back) steps).next s iter :=
        hnext
      rw [Cursor.walk, Cursor.walk, ← hnext]
      cases hr : (cursor mem back steps).next s iter with
      | none => rfl
      | some r =>
        rw [Option.bind_some, Option.bind_some, ih (hmarked r hr)]
        rfl

/-! ## Starting again -/

def restarted (memEnd backEnd : Bool) (ms bs : List (Bytes × Bytes)) : List (Bytes × Bytes) :=
  match overlay ms bs with
  | [] => []
  | kv :: _ => kv :: overlay (sideLeft memEnd (above kv.1 ms)) (sideLeft backEnd (above kv.1 bs))

theorem first_eq (iter : JoinIter M B) {r : Bool × JoinIter M B}
    (h : (newJoinIter iter.memdb iter.backend).first mem back s = some r) :
    ∃ r', iter.first mem back s = some r' ∧ r'.1 = r.1 ∧
      (r.1 = true → r'.2 = { r.2 with nextMemEnd := iter.nextMemEnd, nextBackEnd := iter.nextBackEnd }) := by
  rw [JoinIter.first] at h ⊢
  cases hback : back.first s.2 iter.backend with
  | none =>
    rw [newJoinIter, hback] at h
    cases h
  | some rb =>
    cases hmem : mem.first s.1 iter.memdb with
    | none =>
      rw [newJoinIter, hback, hmem] at h
      cases h
    | some rm =>
      obtain ⟨hasBack, backend⟩ := rb
      obtain ⟨hasMem, memdb⟩ := rm
      have herror (key value : Bytes) (keyOrigin : KeyOrigin) (nextMemEnd nextBackEnd : Bool) :
          JoinIter.error mem back { backend, memdb, key, value, keyOrigin, nextMemEnd, nextBackEnd } =
            (newJoinIter memdb backend).error mem back := rfl
      simp only [newJoinIter, hback, hmem, Option.bind_eq_bind, Option.bind_some] at h ⊢
      cases hE : (newJoinIter memdb backend).error mem back with
      | some e =>
        rw [herror, hE] at h ⊢
        cases h
        exact ⟨_, rfl, rfl, fun htrue => by cases htrue⟩
      | none =>
        rw [herror, hE] at h ⊢
        cases hasBack <;> cases hasMem <;> cases h
        · exact ⟨_, rfl, rfl, fun htrue => by cases htrue⟩
        · exact ⟨_, rfl, rfl, fun _ => rfl⟩
        · exact ⟨_, rfl, rfl, fun _ => rfl⟩
        · refine ⟨_, rfl, rfl, fun _ => ?_⟩
          simp only [pick]
          cases compare (mem.key memdb) (back.key backend) <;> rfl

theorem Shows.split (h : iter.Shows ms bs) (hkey : iter.key ≠ []) (hms : KeysSorted ms) (hbs : KeysSorted bs) :
    (overlay ms bs).head? = some (iter.key, iter.value) ∧ memLeft iter.keyOrigin ms = above iter.key ms ∧
      backLeft iter.keyOrigin bs = above iter.key bs := by
  cases h with
  | fromMem origin least =>
    rw [overlay_cons_left _ _ least, memLeft, backLeft, origin, hms.above_cons, hbs.above_of_head least]
    exact ⟨rfl, rfl, rfl⟩
  | fromBack origin least =>
    have hless : ∀ a ∈ ms.head?, compare iter.key a.1 = .lt := fun a ha => Std.OrientedCmp.lt_of_gt (least a ha)
    rw [overlay_cons_right _ _ least, memLeft, backLeft, origin, hbs.above_cons, hms.above_of_head hless]
    exact ⟨rfl, rfl, rfl⟩
  | @fromBoth ms bs b origin same =>
    have hsame : iter.key = b.1 := Std.LawfulEqCmp.compare_eq_iff_eq.mp same
    rw [overlay_cons_both _ _ same, memLeft, backLeft, origin, hms.above_cons, hsame, hbs.above_cons]
    exact ⟨rfl, rfl, rfl⟩
  | nothing key => exact absurd key hkey

theorem memLeft_sideLeft (origin : KeyOrigin) (kvs : List (Bytes × Bytes)) :
    memLeft origin (sideLeft isEnded kvs) = sideLeft isEnded (memLeft origin kvs) := by
  cases isEnded with
  | true => cases origin <;> rfl
  | false => rfl

theorem backLeft_sideLeft (origin : KeyOrigin) (kvs : List (Bytes × Bytes)) :
    backLeft origin (sideLeft isEnded kvs) = sideLeft isEnded (backLeft origin kvs) := by
  cases isEnded with
  | true => cases origin <;> rfl
  | false => rfl

theorem restarted_nil (memEnd backEnd : Bool) : restarted memEnd backEnd [] [] = [] := by
  rw [restarted, overlay_nil_left]

theorem restarted_of_head {kv : Bytes × Bytes} (h : (overlay ms bs).head? = some kv) : restarted memEnd backEnd ms bs =
      kv :: overlay (sideLeft memEnd (above kv.1 ms)) (sideLeft backEnd (above kv.1 bs)) := by
  obtain ⟨rest, hrest⟩ := List.head?_eq_some_iff.mp h
  rw [restarted, hrest]

theorem mem_sideLeft {kv : Bytes × Bytes} {kvs : List (Bytes × Bytes)} (isEnded : Bool)
    (h : kv ∈ sideLeft isEnded kvs) : kv ∈ kvs := by
  cases isEnded with
  | true => cases h
  | false => exact h

theorem length_sideLeft (kvs : List (Bytes × Bytes)) : (sideLeft isEnded kvs).length ≤ kvs.length := by
  cases isEnded with
  | true => exact Nat.zero_le _
  | false => exact le_rfl

theorem Holds.side (h : Holds StandsM StandsB s iter ms bs) (memEnd backEnd : Bool) :
    Holds (sideStands memEnd StandsM) (sideStands backEnd StandsB) s
      { iter with nextMemEnd := memEnd, nextBackEnd := backEnd } (sideLeft memEnd ms) (sideLeft backEnd bs) where
  mem := sideStands_of h.mem memEnd
  back := sideStands_of h.back backEnd
  memEnd hend := by
    cases hend
    rfl
  backEnd hend := by
    cases hend
    rfl
  memKeys kv hkv := h.memKeys kv (mem_sideLeft memEnd hkv)
  backKeys kv hkv := h.backKeys kv (mem_sideLeft backEnd hkv)

structure Ready (mem : Cursor SM M Bytes Bytes) (back : Cursor SB B Bytes Bytes)
    (StandsM : SM → M → List (Bytes × Bytes) → Prop) (StandsB : SB → B → List (Bytes × Bytes) → Prop) (s : SM × SB)
    (ms bs : List (Bytes × Bytes)) (iter : JoinIter M B) : Prop where
  mem : ∃ rm, mem.first s.1 iter.memdb = some rm ∧ Cursor.Found StandsM s.1 rm ms
  back : ∃ rb, back.first s.2 iter.backend = some rb ∧ Cursor.Found StandsB s.2 rb bs

section Lawful
variable (hm : mem.Lawful StandsM) (hb : back.Lawful StandsB)
include hm hb

theorem next_restarted (h : Holds StandsM StandsB s iter ms bs) (memEnd backEnd : Bool) (limit : ℕ)
    (hlimit : ms.length + bs.length + 2 < limit) :
    ∃ r, JoinIter.next (side memEnd mem) (side backEnd back) s
        { iter with nextMemEnd := memEnd, nextBackEnd := backEnd } = some r ∧
      ∀ steps, ms.length + bs.length + 2 < steps → ∃ r',
        skip (side memEnd mem) (side backEnd back) s steps r = some r' ∧
        Cursor.Found (Stands (sideStands memEnd StandsM) (sideStands backEnd StandsB) limit) s r'
          (live (overlay (sideLeft memEnd (memLeft iter.keyOrigin ms)) (sideLeft backEnd (backLeft iter.keyOrigin bs)))) := by
  have hside := h.side memEnd backEnd
  obtain ⟨r, hnext, h', hshows, -, -, -, -, -, hstop⟩ :=
    hside.advance (side_lawful hm memEnd) (side_lawful hb backEnd)
  dsimp only at h' hshows hstop
  rw [memLeft_sideLeft, backLeft_sideLeft] at h' hshows hstop
  have hleft : r.2.stepsLeft (sideLeft memEnd (memLeft iter.keyOrigin ms)) (sideLeft backEnd (backLeft iter.keyOrigin bs)) ≤
      ms.length + bs.length + 2 := by
    have hms := (length_sideLeft memEnd (memLeft iter.keyOrigin ms)).trans (length_memLeft _ _)
    have hbs := (length_sideLeft backEnd (backLeft iter.keyOrigin bs)).trans (length_backLeft _ _)
    rw [stepsLeft]
    split <;> split <;> omega
  refine ⟨r, hnext, fun steps hsteps => ?_⟩
  exact skip_found (side_lawful hm memEnd) (side_lawful hb backEnd) steps r _ _ h' hshows (hleft.trans_lt hlimit)
    (fun _ => hleft.trans_lt hsteps) hstop

/-- **What a merge enumerates that starts again**, with the marks that it has. -/
theorem enumerates_restarted (hms : KeysSorted ms) (hbs : KeysSorted bs) (hmkeys : ∀ kv ∈ ms, kv.1 ≠ [])
    (hbkeys : ∀ kv ∈ bs, kv.1 ≠ []) (h : Ready mem back StandsM StandsB s ms bs iter) :
    Cursor.Enumerates (cursor mem back) s iter (live (restarted iter.nextMemEnd iter.nextBackEnd ms bs)) := by
  obtain ⟨⟨hasMem, memdb⟩, hmem, hfoundM⟩ := h.mem
  obtain ⟨⟨hasBack, backend⟩, hback, hfoundB⟩ := h.back
  obtain rfl : hasMem = !ms.isEmpty := hfoundM.1
  obtain rfl : hasBack = !bs.isEmpty := hfoundB.1
  have hnew : Holds StandsM StandsB s { newJoinIter iter.memdb iter.backend with backend := backend, memdb := memdb }
      ms bs := ⟨hfoundM.2, hfoundB.2, by simp [newJoinIter], by simp [newJoinIter], hmkeys, hbkeys⟩
  obtain ⟨⟨has, it⟩, hr, hholds, hshows, -, hstop, hkey⟩ := hnew.first hm hb hmem hback
  obtain ⟨⟨has', it'⟩, hfirst, rfl, hit⟩ := first_eq iter hr
  dsimp only at hit hholds hshows hstop hkey
  refine ⟨ms.length + bs.length + 3, fun steps hsteps => ?_⟩
  have hFirst : (cursor mem back steps).first s iter = skip mem back s steps (has', it') := by
    show First mem back steps s iter = _
    rw [First, hfirst]
    rfl
  rw [hFirst]
  cases has' with
  | false =>
    obtain ⟨rfl, rfl, -⟩ := hstop rfl
    rw [restarted_nil]
    exact ⟨(false, it'), by rw [skip], by rw [Cursor.walk]; rfl⟩
  | true =>
    obtain rfl := hit rfl
    obtain ⟨hhead, hmemLeft, hbackLeft⟩ := hshows.split (hkey rfl) hms hbs
    obtain ⟨r, hnext, hskip⟩ := next_restarted hm hb hholds iter.nextMemEnd iter.nextBackEnd steps
      (by omega)
    rw [hmemLeft, hbackLeft] at hskip
    rw [restarted_of_head hhead]
    have hmarked : Marked mem back iter.nextMemEnd iter.nextBackEnd
        { it with nextMemEnd := iter.nextMemEnd, nextBackEnd := iter.nextBackEnd } :=
      ⟨fun h => ⟨h, hm.error hholds.mem⟩, fun h => ⟨h, hb.error hholds.back⟩⟩
    have hlawful := cursor_lawful (side_lawful hm iter.nextMemEnd) (side_lawful hb iter.nextBackEnd) steps
    have hlength : (live (overlay (sideLeft iter.nextMemEnd (above it.key ms))
        (sideLeft iter.nextBackEnd (above it.key bs)))).length ≤ ms.length + bs.length := by
      have hM : (above it.key ms).length ≤ ms.length := List.length_filter_le _ _
      have hB : (above it.key bs).length ≤ bs.length := List.length_filter_le _ _
      refine (List.length_filter_le _ _).trans ((length_overlay_le _ _).trans (Nat.add_le_add ?_ ?_))
      · exact (length_sideLeft _ _).trans hM
      · exact (length_sideLeft _ _).trans hB
    obtain ⟨n, rfl⟩ : ∃ n, steps = n + 1 := ⟨steps - 1, by omega⟩
    by_cases hvalue : it.value.length = 0
    · -- the first entry is deleted, so `First` goes on
      obtain ⟨r', hr', hfound⟩ := hskip n (by omega)
      have hmarked' : Marked mem back iter.nextMemEnd iter.nextBackEnd r.2 :=
        hmarked.next.2 r (hmarked.next.1.trans hnext)
      refine ⟨r', ?_, ?_⟩
      · rw [skip, if_pos hvalue, hmarked.next.1, hnext]
        exact (hmarked'.skip n).1.trans hr'
      · rw [((hmarked'.skip n).2 r' ((hmarked'.skip n).1.trans hr')).walk, hlawful.walk_eq hfound (by omega),
          live, live, List.filter_cons_of_neg (by simpa using hvalue)]
    · obtain ⟨r', hr', hfound⟩ := hskip (n + 1) (by omega)
      refine ⟨_, by rw [skip, if_neg hvalue], ?_⟩
      have hNext : (cursor (side iter.nextMemEnd mem) (side iter.nextBackEnd back) (n + 1)).next s
          { it with nextMemEnd := iter.nextMemEnd, nextBackEnd := iter.nextBackEnd } = some r' := by
        show Next _ _ _ _ _ = _
        rw [Next, hnext]
        exact hr'
      rw [hmarked.walk, Cursor.walk, hNext, Option.bind_some, hlawful.walk_eq hfound (by omega), Option.map_some,
        live, live, List.filter_cons_of_pos (by simpa using hvalue)]
      rfl

end Lawful

/-! ## Calls -/

/-- The iterators that a new one becomes by calls of `First` and `Next`. -/
inductive Called (mem : Cursor SM M Bytes Bytes) (back : Cursor SB B Bytes Bytes) (s : SM × SB) (m : M) (b : B) :
    JoinIter M B → Prop
  | first {steps : ℕ} {has : Bool} {iter : JoinIter M B} (h : (newJoinIter m b).First mem back steps s = some (has, iter)) :
      Called mem back s m b iter
  | next {steps : ℕ} {has : Bool} {iter iter' : JoinIter M B} (hiter : Called mem back s m b iter)
      (h : iter.Next mem back steps s = some (has, iter')) : Called mem back s m b iter'
  | again {steps : ℕ} {has : Bool} {iter iter' : JoinIter M B} (hiter : Called mem back s m b iter)
      (h : iter.First mem back steps s = some (has, iter')) : Called mem back s m b iter'

structure Placed (StandsM : SM → M → List (Bytes × Bytes) → Prop) (StandsB : SB → B → List (Bytes × Bytes) → Prop)
    (s : SM × SB) (iter : JoinIter M B) : Prop where
  mem : ∃ left, StandsM s.1 iter.memdb left
  back : ∃ left, StandsB s.2 iter.backend left

theorem first_parts {r : Bool × JoinIter M B} (h : iter.first mem back s = some r) :
    ∃ rm rb, mem.first s.1 iter.memdb = some rm ∧ back.first s.2 iter.backend = some rb ∧ r.2.memdb = rm.2 ∧
      r.2.backend = rb.2 := by
  rw [JoinIter.first] at h
  obtain ⟨rb, hrb, h⟩ := Option.bind_eq_some_iff.mp h
  obtain ⟨rm, hrm, h⟩ := Option.bind_eq_some_iff.mp h
  refine ⟨rm, rb, hrm, hrb, ?_⟩
  dsimp only at h
  split_ifs at h <;> cases h
  · exact ⟨rfl, rfl⟩
  · exact ⟨rfl, rfl⟩
  · obtain ⟨hmemdb, hbackend, -⟩ := pick_parts mem back { iter with backend := rb.2, memdb := rm.2 }
    exact ⟨hmemdb, hbackend⟩
  · exact ⟨rfl, rfl⟩
  · exact ⟨rfl, rfl⟩

theorem Ready.first {r : Bool × JoinIter M B} (h : Ready mem back StandsM StandsB s ms bs iter)
    (hr : iter.first mem back s = some r) : Placed StandsM StandsB s r.2 := by
  obtain ⟨rm, rb, hrm, hrb, hmemdb, hbackend⟩ := first_parts hr
  obtain ⟨rm', hrm', hms⟩ := h.mem
  obtain ⟨rb', hrb', hbs⟩ := h.back
  cases hrm.symm.trans hrm'
  cases hrb.symm.trans hrb'
  exact ⟨⟨ms, hmemdb ▸ hms.2⟩, ⟨bs, hbackend ▸ hbs.2⟩⟩

section Lawful
variable (hm : mem.Lawful StandsM) (hb : back.Lawful StandsB)
include hm hb

omit hb in
theorem Placed.moveMem {iter' : JoinIter M B} (h : Placed StandsM StandsB s iter)
    (hmove : iter.moveMem mem s.1 = some iter') : Placed StandsM StandsB s iter' := by
  rw [JoinIter.moveMem] at hmove
  split at hmove
  · obtain ⟨left, hstands⟩ := h.mem
    obtain ⟨r, hr, hfound⟩ := hm.next hstands
    rw [hr] at hmove
    cases hmove
    exact ⟨⟨_, hfound.2⟩, h.back⟩
  · cases hmove
    exact h

omit hm in
theorem Placed.moveBack {iter' : JoinIter M B} (h : Placed StandsM StandsB s iter)
    (hmove : iter.moveBack back s.2 = some iter') : Placed StandsM StandsB s iter' := by
  rw [JoinIter.moveBack] at hmove
  split at hmove
  · obtain ⟨left, hstands⟩ := h.back
    obtain ⟨r, hr, hfound⟩ := hb.next hstands
    rw [hr] at hmove
    cases hmove
    exact ⟨h.mem, ⟨_, hfound.2⟩⟩
  · cases hmove
    exact h

theorem Placed.next {r : Bool × JoinIter M B} (h : Placed StandsM StandsB s iter) (hr : iter.next mem back s = some r) :
    Placed StandsM StandsB s r.2 := by
  obtain ⟨iter₁, hmove, hr⟩ := Option.bind_eq_some_iff.mp hr
  obtain ⟨iter₂, hmove', hr⟩ := Option.bind_eq_some_iff.mp hr
  obtain ⟨hmemdb, hbackend, -⟩ := settle_parts mem back iter₂
  have h₂ := (h.moveMem hm hmove).moveBack hb hmove'
  cases hr
  exact ⟨hmemdb ▸ h₂.mem, hbackend ▸ h₂.back⟩

theorem Placed.skip (steps : ℕ) {r r' : Bool × JoinIter M B} (h : Placed StandsM StandsB s r.2)
    (hr : skip mem back s steps r = some r') : Placed StandsM StandsB s r'.2 := by
  induction steps generalizing r with
  | zero =>
    obtain ⟨has, iter⟩ := r
    cases has with
    | false =>
      rw [JoinIter.skip] at hr
      cases hr
      exact h
    | true => cases hr
  | succ steps ih =>
    obtain ⟨has, iter⟩ := r
    cases has with
    | false =>
      rw [JoinIter.skip] at hr
      cases hr
      exact h
    | true =>
      rw [JoinIter.skip] at hr
      split at hr
      · obtain ⟨r₁, hnext, hr⟩ := Option.bind_eq_some_iff.mp hr
        exact ih (Placed.next hm hb h hnext) hr
      · cases hr
        exact h

end Lawful

theorem Called.placed (hm : Restartable mem StandsM s.1 m ms) (hb : Restartable back StandsB s.2 b bs)
    (h : Called mem back s m b iter) : Placed StandsM StandsB s iter := by
  induction h with
  | first h =>
    obtain ⟨r, hfirst, hskip⟩ := Option.bind_eq_some_iff.mp h
    have hready : Ready mem back StandsM StandsB s ms bs (newJoinIter m b) := ⟨hm.first, hb.first⟩
    exact (hready.first hfirst).skip hm.lawful hb.lawful _ hskip
  | next _ h ih =>
    obtain ⟨r, hnext, hskip⟩ := Option.bind_eq_some_iff.mp h
    exact (ih.next hm.lawful hb.lawful hnext).skip hm.lawful hb.lawful _ hskip
  | @again _ _ iter _ _ h ih =>
    obtain ⟨r, hfirst, hskip⟩ := Option.bind_eq_some_iff.mp h
    have hready : Ready mem back StandsM StandsB s ms bs iter := ⟨hm.again _ _ ih.mem.choose_spec, hb.again _ _ ih.back.choose_spec⟩
    exact (hready.first hfirst).skip hm.lawful hb.lawful _ hskip

/-- Nothing behind the first key is lost by leaving out the parts that are marked as ended. -/
def RestartSafe (memEnd backEnd : Bool) (ms bs : List (Bytes × Bytes)) : Prop :=
  ∀ kv ∈ (overlay ms bs).head?,
    live (overlay (if memEnd then [] else above kv.1 ms) (if backEnd then [] else above kv.1 bs)) =
      live (overlay (above kv.1 ms) (above kv.1 bs))

theorem restartSafe_iff (hms : KeysSorted ms) (hbs : KeysSorted bs) :
    RestartSafe memEnd backEnd ms bs ↔ live (restarted memEnd backEnd ms bs) = live (overlay ms bs) := by
  cases hoverlay : overlay ms bs with
  | nil => simp [RestartSafe, restarted, hoverlay]
  | cons kv rest =>
    have hhead : (overlay ms bs).head? = some kv := by rw [hoverlay, List.head?_cons]
    obtain rfl := overlay_behind hms hbs hoverlay
    rw [restarted_of_head hhead, RestartSafe, hhead]
    have hcons (l : List (Bytes × Bytes)) : live (kv :: l) = live [kv] ++ live l := List.filter_append [kv] l
    rw [hcons (overlay (above kv.1 ms) _), hcons (overlay (sideLeft memEnd (above kv.1 ms)) _), List.append_right_inj]
    simp [sideLeft]

/-- **A merge can be started again if and only if the marks it has hide nothing.** -/
theorem restart_same_iff (hm : Restartable mem StandsM s.1 m ms) (hb : Restartable back StandsB s.2 b bs)
    (hiter : Called mem back s m b iter) :
    (∀ kvs, Cursor.Enumerates (cursor mem back) s iter kvs ↔
      Cursor.Enumerates (cursor mem back) s (newJoinIter m b) kvs) ↔
    RestartSafe iter.nextMemEnd iter.nextBackEnd ms bs := by
  have hplaced := hiter.placed hm hb
  have hready : Ready mem back StandsM StandsB s ms bs iter :=
    ⟨hm.again _ _ hplaced.mem.choose_spec, hb.again _ _ hplaced.back.choose_spec⟩
  have hagain := enumerates_restarted hm.lawful hb.lawful hm.sorted hb.sorted hm.keys hb.keys hready
  have hnew := enumerates_new hm.toWellBehaved hb.toWellBehaved
  rw [restartSafe_iff hm.sorted hb.sorted]
  refine ⟨fun h => hagain.unique ((h _).mpr hnew), fun h kvs => ⟨fun hkvs => ?_, fun hkvs => ?_⟩⟩
  · rw [hkvs.unique hagain, h]
    exact hnew
  · rw [hkvs.unique hnew, ← h]
    exact hagain

theorem ofList_restartable (kvs : List (Bytes × Bytes)) (hsorted : KeysSorted kvs) (hkeys : ∀ kv ∈ kvs, kv.1 ≠ []) :
    Restartable (Cursor.ofList kvs) (fun _ left kvs' => left = kvs') () [] kvs where
  lawful := Cursor.ofList_lawful kvs
  first := ⟨_, rfl, rfl, rfl⟩
  sorted := hsorted
  keys := hkeys
  again _ _ _ := ⟨_, rfl, rfl, rfl⟩

abbrev sampleCursor (steps : ℕ) :
    Cursor (Unit × Unit) (JoinIter (List (Bytes × Bytes)) (List (Bytes × Bytes))) Bytes Bytes :=
  cursor (Cursor.ofList [([1], [1])]) (Cursor.ofList [([2], [2])]) steps

abbrev sampleMem : List (Bytes × Bytes) := [([1], [1]), ([2], [2])]

abbrev sampleBack : List (Bytes × Bytes) := [([1], [3])]

/-- The store has ended, but all of its keys are at the first key of the merge. -/
theorem restart_same_after_first :
    ∃ iter, Called (Cursor.ofList sampleMem) (Cursor.ofList sampleBack) ((), ()) [] [] iter ∧ iter.nextBackEnd = true ∧
      ∀ kvs, Cursor.Enumerates (cursor (Cursor.ofList sampleMem) (Cursor.ofList sampleBack)) ((), ()) iter kvs ↔
        Cursor.Enumerates (cursor (Cursor.ofList sampleMem) (Cursor.ofList sampleBack)) ((), ()) (newJoinIter [] []) kvs := by
  have hm := ofList_restartable sampleMem (List.pairwise_pair.mpr (by decide +kernel)) (by decide +kernel)
  have hb := ofList_restartable sampleBack (List.pairwise_singleton _ _) (by decide +kernel)
  have hcalled : Called (Cursor.ofList sampleMem) (Cursor.ofList sampleBack) ((), ()) [] []
      { newJoinIter [([2], [2])] [] with key := [2], value := [2], keyOrigin := .fromMem, nextBackEnd := true } :=
    .next (.first (show First _ _ 9 _ _ = some (_, _) from rfl)) (show Next _ _ 9 _ _ = some (true, _) from rfl)
  refine ⟨_, hcalled, rfl, (restart_same_iff (s := ((), ())) hm hb hcalled).mpr ?_⟩
  have hhead : (overlay sampleMem sampleBack).head? = some ([1], [1]) := by decide +kernel
  rintro kv hkv
  rw [hhead] at hkv
  cases hkv
  decide +kernel

/-- After a pass to the end, a second pass stops behind the first key. -/
theorem restart_forgets : ∃ iter, Called (Cursor.ofList [([1], [1])]) (Cursor.ofList [([2], [2])]) ((), ()) [] [] iter ∧
      ((sampleCursor 9).first ((), ()) iter).bind ((sampleCursor 9).walk ((), ()) 9) = some [([1], [1])] ∧
      ((sampleCursor 9).first ((), ()) (newJoinIter [] [])).bind ((sampleCursor 9).walk ((), ()) 9) =
        some [([1], [1]), ([2], [2])] := by
  refine ⟨_, .next (.next (.first (show First _ _ 9 _ _ = some (_, _) from rfl))
    (show Next _ _ 9 _ _ = some (_, _) from rfl)) (show Next _ _ 9 _ _ = some (_, _) from rfl), ?_, ?_⟩
  · decide +kernel
  · decide +kernel

end JoinIter

end Web3.Storage
