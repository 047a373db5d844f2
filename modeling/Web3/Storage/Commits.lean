import Web3.Storage.LayerRuns
import Web3.Storage.SelfDestruct

/-! # Commits

`Commit` deletes the self-destructed accounts and flushes the cache into the overlay; `CommitTo` writes the overlay
into the store, and `ChangeHash` hashes it. -/

namespace Web3.Storage

variable {store : Store}

variable (db : CacheDB) (rnd : Bytes → Rand)

theorem CacheDB.backend_get_commit (k : Bytes) : (db.commit rnd).backend.get k = db.valueAt k := by
  rw [OverlayDB.get_eq, at?_commit, store_commit, valueAt, OverlayDB.get_eq]
  cases db.memdb.at? k <;> rfl

theorem CacheDB.valueAt_commit (k : Bytes) : (db.commit rnd).valueAt k = db.valueAt k := by
  rw [valueAt, ← backend_get_commit db rnd, commit, Table.reset_eq, Table.at?_new, Option.getD_none]

theorem OverlayDB.get_commitTo (db : OverlayDB) (k : Bytes) :
    (newOverlayDB (db.store.apply db.commitTo)).get k = db.get k := by
  have hstore : db.store.apply db.commitTo k = overwritten (db.memdb.at? k) (db.store k) :=
    apply_batch k _ _ db.memdb.nodup_keys
  have hread : (newOverlayDB (db.store.apply db.commitTo)).get k = (db.store.apply db.commitTo k).getD [] := by
    rw [get_eq, newOverlayDB, Table.at?_new, Option.none_or]
  rw [hread, hstore, get_eq]
  rcases db.memdb.at? k with _ | _ | ⟨b, bs⟩ <;> rfl

/-! ## The hash of the changes -/

def OverlayDB.changeHash (sha256 : Bytes → Hash) (db : OverlayDB) : Hash :=
  sha256 (db.memdb.forEach.flatMap fun kv => kv.1 ++ kv.2)

theorem Table.forEach_ext {t t' : Table} (h : ∀ k, t.at? k = t'.at? k) : t.forEach = t'.forEach := by
  have hmem : ∀ kv, kv ∈ t.forEach ↔ kv ∈ t'.forEach := by
    rintro ⟨k, v⟩
    have hk : t.1.forEach.lookup k = t'.1.forEach.lookup k := h k
    exact t.2.sorted.mem_iff.trans (hk ▸ t'.2.sorted.mem_iff.symm)
  have hperm := (List.perm_ext_iff_of_nodup t.nodup_keys.of_map t'.nodup_keys.of_map).mpr hmem
  refine hperm.eq_of_pairwise (fun a b _ _ hab hba => ?_) t.2.sorted t'.2.sorted
  simp [Std.OrientedCmp.eq_swap (a := a.1), hba] at hab

/-- **The hash depends on the last writes only**, not on their order, the heights of the nodes or the store. -/
theorem changeHash_of_writes (sha256 : Bytes → Hash) {store store' : Store} {h h' : List LayerOp}
    (hsame : ∀ key, flushedWrite key h = flushedWrite key h') :
    (runLayers store h).backend.changeHash sha256 = (runLayers store' h').backend.changeHash sha256 := by
  rw [OverlayDB.changeHash, OverlayDB.changeHash, Table.forEach_ext fun key => ?_]
  rw [at?_runLayers_backend, hsame, at?_runLayers_backend]

/-- Two writes reach the overlay in both histories: one by a commit, behind an older value in the second history, and
one directly, before the commit or after it. -/
theorem changeHash_of_writes_uncommitted :
    let h := [.put (fun _ => 0) 0 [3] [9], .commit fun _ _ => 0, .put (fun _ => 0) 0 [1] [5], .overlayPut (fun _ => 0) [7] [6]]
    let h' := [.overlayPut (fun _ => 1) [7] [6], .commit fun _ _ => 1, .put (fun _ => 1) 0 [1] [5],
      .put (fun _ => 0) 0 [1] [4]]
    flushedWrite [0, 1] h = some [5] ∧ flushedWrite [7] h = some [6] ∧
      (runLayers (fun _ => none) h).backend.changeHash bytesToHash =
        (runLayers (fun _ => some [1]) h').backend.changeHash bytesToHash := by
  refine ⟨rfl, rfl, changeHash_of_writes _ fun key => ?_⟩
  simp only [flushedWrite, pendingWrite, Option.or_none]
  by_cases hcommitted : makePrefixedKey 0 [1] = key
  · subst hcommitted
    rfl
  · simp [hcommitted]

namespace StateDB

/-- `rnd` and `rnd'` give the generator's values for tombstones in the cache and for keys in the overlay. The
first component is the error. -/
def commit (its : StoreIterators store) (steps : ℕ) (rnd rnd' : Bytes → Rand) (order : List Address) (s : StateDB) :
    Option (Option String × StateDB) := do
  match ← s.commitToCacheDB its steps rnd order with
  | (some e, s) => some (some e, s)
  | (none, s) => some (none, s.setCache (s.world.cacheDB.commit rnd'))

theorem Destroyed.of_values {s t s' : StateDB} (h : Destroyed s t)
    (hvalues : ∀ k, s'.world.cacheDB.valueAt k = t.world.cacheDB.valueAt k) : Destroyed s s' := by
  obtain ⟨hgone, hzero, hrecord, hslots⟩ := h
  simp only [World.getState, CacheDB.Get, CacheDB.get_eq_valueAt, ← hvalues] at hgone hzero hrecord hslots
  constructor <;> simpa only [World.getState, CacheDB.Get, CacheDB.get_eq_valueAt]

theorem sameValues_reopened :
    SameValues (newStateDB (newCacheDB (newOverlayDB
      (db.backend.store.apply (db.commit rnd).backend.commitTo)))).world
      { cacheDB := db.commit rnd, Suicided := ∅, logs := [], refund := 0 } := by
  have hbackend : ∀ k, (newOverlayDB (db.backend.store.apply (db.commit rnd).backend.commitTo)).get k =
      (db.commit rnd).backend.get k := by
    intro k
    rw [← db.store_commit rnd]
    exact OverlayDB.get_commitTo _ k
  refine ⟨fun k => ?_, hbackend, rfl, rfl, rfl⟩
  rw [CacheDB.valueAt_commit, ← CacheDB.backend_get_commit db rnd, ← hbackend]
  show (Table.new.at? k).getD _ = _
  rw [Table.at?_new]
  rfl

/-- **What was committed is what is read after a restart**: a new state on the store with the batch of `CommitTo`
gives the answers of the committed one. -/
theorem commit_persists (its : StoreIterators store) (s : StateDB) (hstore : s.backend.store = store)
    (rnd rnd' : Bytes → Rand) (order : List Address) (horder : s.Traverses order) :
    ∃ N s', (∀ steps, N < steps → s.commit its steps rnd rnd' order = some (none, s')) ∧ Destroyed s s' ∧
      ∀ r : Read, (newStateDB (newCacheDB (newOverlayDB (store.apply s'.backend.commitTo)))).answer r =
        Prod.fst <$> r.run { s'.world with logs := [], refund := 0 } := by
  obtain ⟨t, ⟨N, hN⟩, hvalues⟩ := exists_commitsTo its hstore rnd order
  have hworld : (t.setCache (t.world.cacheDB.commit rnd')).world =
      { t.world with cacheDB := t.world.cacheDB.commit rnd' } := t.world_setWorld _ _
  have hkept : t.world.cacheDB.backend.store = store := by
    rw [hvalues.backend]
    exact hstore
  refine ⟨N, t.setCache (t.world.cacheDB.commit rnd'), fun steps hsteps => ?_, ?_, fun r => ?_⟩
  · rw [commit, hN steps hsteps]
    rfl
  · refine (hvalues.destroyed horder).of_values fun k => ?_
    rw [hworld]
    exact CacheDB.valueAt_commit _ _ k
  · have hsame := sameValues_reopened t.world.cacheDB rnd'
    rw [hkept, ← hvalues.suicided] at hsame
    rw [hworld]
    exact (hsame.run r).map_eq fun _ _ h => h

theorem commit_persists_sampleSuicided :
    let its := listIterators sampleSlots (List.pairwise_singleton _ _)
    ∃ N s', (∀ steps, N < steps → sampleSuicided.commit its steps (fun _ _ => 0) (fun _ _ => 0) [sampleAddress] =
        some (none, s')) ∧
      Destroyed sampleSuicided s' ∧
      ∀ r : Read, (newStateDB (newCacheDB (newOverlayDB
          (sampleSuicided.backend.store.apply s'.backend.commitTo)))).answer r =
        Prod.fst <$> r.run { s'.world with logs := [], refund := 0 } :=
  commit_persists _ sampleSuicided rfl _ _ _ ⟨List.nodup_singleton _, by simp [sampleSuicided, world_setWorld]⟩

end StateDB

end Web3.Storage
