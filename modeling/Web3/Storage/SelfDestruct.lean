import Web3.Storage.Accounts
import Web3.Storage.JoinIter
import Web3.Storage.MemIter

/-! # Committing self-destructs

`CommitToCacheDB` deletes the account record and the storage of every self-destructed address. The
storage is deleted while it is walked: an iterator over cache, overlay and store shows the next slot,
and a tombstone for it goes into the cache.

The iterators of the store are given with what they enumerate; they report no error. -/

namespace Web3.Storage

/-! ## Iterators -/

/-- The iterators of a `PersistStore`: the one for some first bytes enumerates the stored keys that start
with them, in ascending order. One that has run out has no key and no value, as the table's own. `util.BytesPrefix`
gives the range of these keys. -/
structure StoreIterators (store : Store) where
  Iter : Type
  cursor : Cursor Unit Iter Bytes Bytes
  newIterator : Bytes → Iter
  Stands : Unit → Iter → List (Bytes × Bytes) → Prop
  lawful : cursor.Lawful Stands
  entries : Bytes → List (Bytes × Bytes)
  first : ∀ pre, ∃ r, cursor.first () (newIterator pre) = some r ∧ Cursor.Found Stands () r (entries pre)
  sorted : ∀ pre, KeysSorted (entries pre)
  mem_entries : ∀ pre k v, (k, v) ∈ entries pre ↔ pre <+: k ∧ store k = some v
  bytesPrefix : Bytes → Range
  inRange_prefix : ∀ pre k, (MemDB.newIterator (some (bytesPrefix pre))).inRange k = true ↔ pre <+: k

variable {store : Store} (its : StoreIterators store)

abbrev OverlayIter := JoinIter DbIter its.Iter

abbrev CacheIter := JoinIter DbIter (OverlayIter its)

def OverlayDB.newIterator (key : Bytes) : OverlayIter its :=
  newJoinIter (MemDB.newIterator (some (its.bytesPrefix key))) (its.newIterator key)

def CacheDB.newIterator (key : Bytes) : CacheIter its :=
  let pkey := makePrefixedKey ST_STORAGE key
  newJoinIter (MemDB.newIterator (some (its.bytesPrefix pkey))) (OverlayDB.newIterator its pkey)

variable (steps : ℕ)

def overlayCursor : Cursor (MemDB × Unit) (OverlayIter its) Bytes Bytes :=
  JoinIter.cursor DbIter.cursor its.cursor steps

def cacheCursor : Cursor (MemDB × MemDB × Unit) (CacheIter its) Bytes Bytes :=
  JoinIter.cursor DbIter.cursor (overlayCursor its steps) steps

def CacheIter.Key (iter : CacheIter its) : Bytes := iter.key.tail

/-! ## Committing -/

namespace CacheDB

def layers (db : CacheDB) : MemDB × MemDB × Unit := (db.memdb.1, db.backend.memdb.1, ())

/-- The loop of `CleanContractStorageData`. `rnd` gives the generator's values when a tombstone is
inserted for a key. -/
def cleanLoop (steps : ℕ) (rnd : Bytes → Rand) : ℕ → Bool × CacheIter its → CacheDB → Option (CacheDB × CacheIter its)
  | _, (false, iter), db => some (db, iter)
  | 0, (true, _), _ => none
  | n + 1, (true, iter), db => do
    let db := db.Delete (rnd iter.key) (CacheIter.Key its iter)
    let r ← (cacheCursor its steps).next db.layers iter
    cleanLoop steps rnd n r db

/-- The error of the iterator, and the cache afterwards; `none` when the steps run out. -/
def cleanContractStorageData (rnd : Bytes → Rand) (db : CacheDB) (addr : Address) :
    Option (Option String × CacheDB) := do
  let r ← (cacheCursor its steps).first db.layers (newIterator its addr.1)
  let (db, iter) ← cleanLoop its steps rnd steps r db
  some ((cacheCursor its steps).error iter, db)

/-- The loop of `CommitToCacheDB` over the addresses in the order in which the map is traversed. -/
def commitLoop (steps : ℕ) (rnd : Bytes → Rand) : List Address → CacheDB → Option (Option String × CacheDB)
  | [], db => some (none, db)
  | addr :: order, db => do
    let db := db.delEthAccount (rnd (makePrefixedKey ST_ETH_ACCOUNT addr.1)) addr
    match ← db.cleanContractStorageData its steps rnd addr with
    | (some e, db) => some (some e, db)
    | (none, db) => commitLoop steps rnd order db

end CacheDB

namespace StateDB

def setCache (s : StateDB) (db : CacheDB) : StateDB :=
  s.setWorld { s.world with cacheDB := db } (List.prefix_refl _)

def forget (s : StateDB) : StateDB :=
  { s with
    maps := s.maps.alloc ∅
    Suicided := s.maps.next
    snapshots := []
    memdbs_separate := s.memdbs_separate.alone
    maps_separate := Heap.Separate.alone_alloc s.maps ∅
    logs_ordered := by simp }

def commitToCacheDB (rnd : Bytes → Rand) (order : List Address) (s : StateDB) :
    Option (Option String × StateDB) := do
  match ← s.world.cacheDB.commitLoop its steps rnd order with
  | (some e, db) => some (some e, s.setCache db)
  | (none, db) => some (none, (s.setCache db).forget)

end StateDB

/-! ## The slots of an address -/

def Table.entriesOf (t : Table) (pre : Bytes) : List (Bytes × Bytes) :=
  t.forEach.filter fun kv => pre.isPrefixOf kv.1

theorem Table.entriesOf_sorted (t : Table) (pre : Bytes) : KeysSorted (t.entriesOf pre) :=
  t.2.sorted.sublist List.filter_sublist

variable {pre k : Bytes} {kv : Bytes × Bytes}

theorem Table.lookup_entriesOf (t : Table) (h : pre <+: k) : (t.entriesOf pre).lookup k = t.at? k := by
  rw [entriesOf, lookup_filter_key, if_pos (List.isPrefixOf_iff_prefix.mpr h), at?]

theorem Table.mem_entriesOf {t : Table} (h : kv ∈ t.entriesOf pre) :
    pre <+: kv.1 := List.isPrefixOf_iff_prefix.mp (List.mem_filter.mp h).2

theorem Table.entriesOf_eq (t : Table) (pre : Bytes) :
    t.entriesOf pre = t.forEach.filter fun kv => (MemDB.newIterator (some (its.bytesPrefix pre))).inRange kv.1 := by
  refine List.filter_congr fun kv _ => ?_
  rw [Bool.eq_iff_iff, List.isPrefixOf_iff_prefix, its.inRange_prefix]

namespace OverlayDB

def slots (db : OverlayDB) (pre : Bytes) : List (Bytes × Bytes) :=
  JoinIter.live (overlay (db.memdb.entriesOf pre) (its.entries pre))

theorem slots_sorted (db : OverlayDB) (pre : Bytes) : KeysSorted (db.slots its pre) :=
  JoinIter.live_sorted ((db.memdb.entriesOf_sorted pre).overlay (its.sorted pre))

variable {db : OverlayDB}

theorem prefix_slots (h : kv ∈ db.slots its pre) : pre <+: kv.1 := by
  rcases mem_overlay (JoinIter.mem_live.mp h).1 with h | h
  · exact Table.mem_entriesOf h
  · exact ((its.mem_entries pre kv.1 kv.2).mp h).1

theorem mem_slots (hstore : db.store = store) {v : Bytes} (h : pre <+: k) :
    (k, v) ∈ db.slots its pre ↔ db.get k = v ∧ v ≠ [] := by
  have hentries : (its.entries pre).lookup k = store k := by
    refine Option.ext fun v => ?_
    rw [← (its.sorted pre).mem_iff, its.mem_entries]
    simp [h]
  rw [slots, JoinIter.mem_live, ((db.memdb.entriesOf_sorted pre).overlay (its.sorted pre)).mem_iff,
    lookup_overlay (db.memdb.entriesOf_sorted pre) (its.sorted pre), Table.lookup_entriesOf _ h, hentries,
    get_eq, hstore]
  cases (db.memdb.at? k).or (store k) with
  | none => simp [eq_comm]
  | some w => simp

end OverlayDB

namespace CacheDB

/-- The value that the layers have for a key. -/
def valueAt (db : CacheDB) (key : Bytes) : Bytes := (db.memdb.at? key).getD (db.backend.get key)

def slots (db : CacheDB) (pre : Bytes) : List (Bytes × Bytes) :=
  JoinIter.live (overlay (db.memdb.entriesOf pre) (db.backend.slots its pre))

theorem slots_sorted (db : CacheDB) (pre : Bytes) : KeysSorted (db.slots its pre) :=
  JoinIter.live_sorted ((db.memdb.entriesOf_sorted pre).overlay (db.backend.slots_sorted its pre))

variable {db : CacheDB} {kvs : List (Bytes × Bytes)}

theorem prefix_slots (h : kv ∈ db.slots its pre) : pre <+: kv.1 := by
  rcases mem_overlay (JoinIter.mem_live.mp h).1 with h | h
  · exact Table.mem_entriesOf h
  · exact OverlayDB.prefix_slots its h

theorem storage_slots {key : Bytes} (h : kv ∈ db.slots its (makePrefixedKey ST_STORAGE key)) :
    makePrefixedKey ST_STORAGE kv.1.tail = kv.1 := by
  obtain ⟨rest, hrest⟩ := prefix_slots its h
  rw [← hrest]
  rfl

theorem mem_slots (hstore : db.backend.store = store) {v : Bytes} (h : pre <+: k) :
    (k, v) ∈ db.slots its pre ↔ db.valueAt k = v ∧ v ≠ [] := by
  have hback : (db.backend.slots its pre).lookup k =
      if db.backend.get k = [] then none else some (db.backend.get k) := by
    refine Option.ext fun v => ?_
    rw [← (db.backend.slots_sorted its pre).mem_iff, OverlayDB.mem_slots its hstore h]
    split
    · next hnil => simp [hnil]
    · next hne =>
      rw [Option.some.injEq, and_iff_left_iff_imp]
      rintro rfl
      exact hne
  rw [slots, JoinIter.mem_live, ((db.memdb.entriesOf_sorted pre).overlay (db.backend.slots_sorted its pre)).mem_iff,
    lookup_overlay (db.memdb.entriesOf_sorted pre) (db.backend.slots_sorted its pre),
    Table.lookup_entriesOf _ h, hback, valueAt]
  cases db.memdb.at? k with
  | some w => simp
  | none =>
    rw [Option.none_or, Option.getD_none]
    split
    · next hnil => simp [hnil]
    · simp

theorem mem_slots_keys (hstore : db.backend.store = store) :
    k ∈ (db.slots its pre).map Prod.fst ↔ pre <+: k ∧ db.valueAt k ≠ [] := by
  rw [List.mem_map]
  constructor
  · rintro ⟨⟨k, v⟩, hmem, rfl⟩
    have hpre := prefix_slots its hmem
    obtain ⟨hval, hne⟩ := (mem_slots its hstore hpre).mp hmem
    exact ⟨hpre, hval ▸ hne⟩
  · rintro ⟨hpre, hne⟩
    exact ⟨(k, db.valueAt k), (mem_slots its hstore hpre).mpr ⟨rfl, hne⟩, rfl⟩

theorem get_eq_valueAt (db : CacheDB) (pre : UInt8) (key : Bytes) :
    db.get pre key = db.valueAt (makePrefixedKey pre key) := get_eq db pre key

theorem valueAt_put (db : CacheDB) (rnd : Rand) (pre : UInt8) (key value k : Bytes) :
    (db.put rnd pre key value).valueAt k = if makePrefixedKey pre key = k then value else db.valueAt k := by
  rw [valueAt, valueAt, put, Table.at?_put]
  split <;> rfl

/-! ## Deleting while walking -/

abbrev OverlayStands : MemDB × Unit → OverlayIter its → List (Bytes × Bytes) → Prop :=
  JoinIter.Stands DbIter.Stands its.Stands steps

abbrev CacheStands : MemDB × MemDB × Unit → CacheIter its → List (Bytes × Bytes) → Prop :=
  JoinIter.Stands DbIter.Stands (OverlayStands its steps) steps

theorem cacheCursor_lawful : (cacheCursor its steps).Lawful (CacheStands its steps) :=
  JoinIter.cursor_lawful DbIter.cursor_lawful (JoinIter.cursor_lawful DbIter.cursor_lawful its.lawful steps) steps

theorem first_found (db : CacheDB) (key : Bytes) : ∃ N, ∀ steps, N < steps → ∃ r,
    (cacheCursor its steps).first db.layers (newIterator its key) = some r ∧
      Cursor.Found (CacheStands its steps) db.layers r (db.slots its (makePrefixedKey ST_STORAGE key)) := by
  set pkey := makePrefixedKey ST_STORAGE key
  have hkeys : ∀ k : Bytes, pkey <+: k → k ≠ [] := by
    rintro _ ⟨rest, rfl⟩
    simp [pkey, makePrefixedKey]
  have hmem : ∀ t : Table, Cursor.Found DbIter.Stands t.1
      ((MemDB.newIterator (some (its.bytesPrefix pkey))).first t.1) (t.entriesOf pkey) :=
    fun t => t.entriesOf_eq its pkey ▸ DbIter.first_found t.2 rfl rfl
  have hmemkeys : ∀ t : Table, ∀ kv ∈ t.entriesOf pkey, kv.1 ≠ [] :=
    fun t kv hkv => hkeys kv.1 (Table.mem_entriesOf hkv)
  obtain ⟨rs, hrs, hstore⟩ := its.first pkey
  refine ⟨max ((db.backend.memdb.entriesOf pkey).length + (its.entries pkey).length + 2)
    ((db.memdb.entriesOf pkey).length + (db.backend.slots its pkey).length + 2), fun steps hsteps => ?_⟩
  obtain ⟨hoverlay, hcache⟩ := max_lt_iff.mp hsteps
  have hstorekeys : ∀ kv ∈ its.entries pkey, kv.1 ≠ [] :=
    fun kv hkv => hkeys kv.1 ((its.mem_entries pkey kv.1 kv.2).mp hkv).1
  obtain ⟨ro, hro, hback⟩ := JoinIter.first_found DbIter.cursor_lawful its.lawful
    (s := (db.backend.memdb.1, ())) rfl hrs (hmem db.backend.memdb) hstore (hmemkeys db.backend.memdb)
    hstorekeys hoverlay
  have hbackkeys : ∀ kv ∈ db.backend.slots its pkey, kv.1 ≠ [] :=
    fun kv hkv => hkeys kv.1 (OverlayDB.prefix_slots its hkv)
  exact JoinIter.first_found DbIter.cursor_lawful
    (JoinIter.cursor_lawful DbIter.cursor_lawful its.lawful steps)
    (s := db.layers) rfl hro (hmem db.memdb) hback (hmemkeys db.memdb) hbackkeys hcache

variable (rnd : Bytes → Rand)

def deleteAll (kvs : List (Bytes × Bytes)) (db : CacheDB) : CacheDB :=
  kvs.foldl (fun db kv => db.Delete (rnd kv.1) kv.1.tail) db

theorem backend_deleteAll (kvs : List (Bytes × Bytes)) (db : CacheDB) :
    (deleteAll rnd kvs db).backend = db.backend := by
  induction kvs generalizing db with
  | nil => rfl
  | cons kv kvs ih => exact ih _

theorem valueAt_deleteAll (db : CacheDB) (k : Bytes)
    (hkvs : ∀ kv ∈ kvs, makePrefixedKey ST_STORAGE kv.1.tail = kv.1) :
    (deleteAll rnd kvs db).valueAt k = if k ∈ kvs.map Prod.fst then [] else db.valueAt k := by
  induction kvs generalizing db with
  | nil => rfl
  | cons kv kvs ih =>
    have hdelete : (db.Delete (rnd kv.1) kv.1.tail).valueAt k = if kv.1 = k then [] else db.valueAt k := by
      have h := valueAt_put db (rnd kv.1) ST_STORAGE kv.1.tail [] k
      rw [hkvs kv (List.mem_cons_self ..)] at h
      exact h
    have h := ih (db.Delete (rnd kv.1) kv.1.tail) fun kv hkv => hkvs kv (List.mem_cons_of_mem _ hkv)
    rw [deleteAll, List.foldl_cons, ← deleteAll, h, hdelete, List.map_cons]
    by_cases hmem : k ∈ kvs.map Prod.fst
    · rw [if_pos hmem, if_pos (List.mem_cons_of_mem _ hmem)]
    · by_cases hk : kv.1 = k
      · simp [hk]
      · rw [if_neg hmem, if_neg hk, if_neg (by simp [hmem, Ne.symm hk])]

/-- The loop deletes every entry that was left when it began: a tombstone at the current key leaves the
rest of the walk as it was. -/
theorem cleanLoop_eq {steps : ℕ} (rnd : Bytes → Rand) {n : ℕ} {r : Bool × CacheIter its}
    (hr : Cursor.Found (CacheStands its steps) db.layers r kvs)
    (hkvs : ∀ kv ∈ kvs, makePrefixedKey ST_STORAGE kv.1.tail = kv.1) (hn : kvs.length ≤ n) :
    ∃ iter, cleanLoop its steps rnd n r db = some (deleteAll rnd kvs db, iter) ∧
      (cacheCursor its steps).error iter = none := by
  have hlawful := cacheCursor_lawful its steps
  obtain ⟨has, iter⟩ := r
  induction kvs generalizing n has iter db with
  | nil =>
    obtain rfl : has = false := hr.1
    exact ⟨iter, by rw [cleanLoop]; rfl, hlawful.error hr.2⟩
  | cons kv kvs ih =>
    obtain rfl : has = true := hr.1
    obtain ⟨n, rfl⟩ : ∃ m, n = m + 1 := ⟨n - 1, by simp at hn; omega⟩
    have hkey : iter.key = kv.1 := congrArg Prod.fst (hlawful.entry hr.2)
    have hkv := hkvs kv (List.mem_cons_self ..)
    have hstands : CacheStands its steps (db.Delete (rnd kv.1) kv.1.tail).layers iter (kv :: kvs) := by
      refine hr.2.changeMem fun ms hms hhead => ?_
      refine hms.put (rnd kv.1) [] fun m hm => ?_
      rw [hkv]
      exact hhead m hm
    obtain ⟨r, hnext, hfound⟩ := hlawful.next hstands
    obtain ⟨iter', hloop, herror⟩ := ih (fun kv hkv => hkvs kv (List.mem_cons_of_mem _ hkv))
      (Nat.le_of_succ_le_succ hn) _ _ hfound
    refine ⟨iter', ?_, herror⟩
    rw [cleanLoop, CacheIter.Key, hkey, hnext]
    exact hloop

def cleaned (db : CacheDB) (addr : Address) : CacheDB :=
  deleteAll rnd (db.slots its (makePrefixedKey ST_STORAGE addr.1)) db

theorem cleanContractStorageData_eq (db : CacheDB) (addr : Address) : ∃ N, ∀ steps, N < steps →
      db.cleanContractStorageData its steps rnd addr = some (none, db.cleaned its rnd addr) := by
  obtain ⟨N, hN⟩ := db.first_found its addr.1
  refine ⟨max N (db.slots its (makePrefixedKey ST_STORAGE addr.1)).length, fun steps hsteps => ?_⟩
  obtain ⟨hfirst, hlen⟩ := max_lt_iff.mp hsteps
  obtain ⟨r, hr, hfound⟩ := hN steps hfirst
  obtain ⟨iter, hloop, herror⟩ := cleanLoop_eq its rnd hfound (fun _ hkv => storage_slots its hkv) hlen.le
  rw [cleanContractStorageData, hr, Option.bind_eq_bind, Option.bind_some, hloop, Option.bind_eq_bind, Option.bind_some]
  show some ((cacheCursor its steps).error iter, _) = _
  rw [herror, cleaned]

theorem valueAt_cleaned (hstore : db.backend.store = store) (rnd : Bytes → Rand) (addr : Address) (k : Bytes) :
    (db.cleaned its rnd addr).valueAt k = if makePrefixedKey ST_STORAGE addr.1 <+: k then [] else db.valueAt k := by
  rw [cleaned, valueAt_deleteAll]
  · simp only [mem_slots_keys its hstore]
    by_cases hpre : makePrefixedKey ST_STORAGE addr.1 <+: k
    · by_cases hval : db.valueAt k = []
      · simp [hval]
      · simp [hpre, hval]
    · simp [hpre]
  · exact fun _ hkv => storage_slots its hkv

/-! ## All addresses -/

def belongsTo (addr : Address) (k : Bytes) : Bool :=
  makePrefixedKey ST_ETH_ACCOUNT addr.1 = k || (makePrefixedKey ST_STORAGE addr.1).isPrefixOf k

theorem belongsTo_record (addr other : Address) :
    belongsTo addr (makePrefixedKey ST_ETH_ACCOUNT other.1) = true ↔ addr = other := by
  have hext : addr.1 = other.1 ↔ addr = other := Subtype.ext_iff.symm
  simp [belongsTo, makePrefixedKey, ST_ETH_ACCOUNT, ST_STORAGE, hext]

theorem belongsTo_slot (addr other : Address) (key : Hash) :
    belongsTo addr (makePrefixedKey ST_STORAGE (genKey other key)) = true ↔ addr = other := by
  have hpre : addr.1 <+: genKey other key ↔ addr = other := by
    constructor
    · intro h
      have hlen : addr.1.length = other.1.length := addr.2.trans other.2.symm
      exact Subtype.ext ((List.prefix_of_prefix_length_le h (List.prefix_append _ _) hlen.le).eq_of_length hlen)
    · rintro rfl
      exact List.prefix_append _ _
  simp [belongsTo, makePrefixedKey, ST_ETH_ACCOUNT, ST_STORAGE, hpre]

theorem valueAt_destroyed (hstore : db.backend.store = store) (rnd : Bytes → Rand) (r : Rand)
    (addr : Address) (k : Bytes) :
    ((db.delEthAccount r addr).cleaned its rnd addr).valueAt k = if belongsTo addr k then [] else db.valueAt k := by
  have hdel : (db.delEthAccount r addr).backend.store = store := hstore
  rw [valueAt_cleaned its hdel, delEthAccount, valueAt_put, belongsTo]
  by_cases hslot : makePrefixedKey ST_STORAGE addr.1 <+: k
  · simp [hslot]
  · simp [hslot]

/-- **The loop over the addresses** ends without an error; what is left is decided by which addresses it
went over. -/
theorem commitLoop_eq (order : List Address) (hstore : db.backend.store = store) : ∃ db' N,
      (∀ steps, N < steps → db.commitLoop its steps rnd order = some (none, db')) ∧
      db'.backend = db.backend ∧
      ∀ k, db'.valueAt k = if order.any (belongsTo · k) then [] else db.valueAt k := by
  induction order generalizing db with
  | nil => exact ⟨db, 0, fun _ _ => rfl, rfl, fun _ => rfl⟩
  | cons addr order ih =>
    set db₁ := db.delEthAccount (rnd (makePrefixedKey ST_ETH_ACCOUNT addr.1)) addr
    have hbackend : (db₁.cleaned its rnd addr).backend = db.backend := backend_deleteAll ..
    obtain ⟨N, hN⟩ := cleanContractStorageData_eq its rnd db₁ addr
    have hstore' : (db₁.cleaned its rnd addr).backend.store = store := by rw [hbackend, hstore]
    obtain ⟨db', M, hM, hback, hval⟩ := ih hstore'
    refine ⟨db', max N M, fun steps hsteps => ?_, hback.trans hbackend, fun k => ?_⟩
    · obtain ⟨hsN, hsM⟩ := max_lt_iff.mp hsteps
      rw [commitLoop, hN steps hsN]
      exact hM steps hsM
    · rw [hval, valueAt_destroyed its hstore, List.any_cons]
      cases order.any (belongsTo · k) with
      | true | false => simp

end CacheDB

/-! ## Reads -/

/-- Two states in which every key has the same value. -/
structure SameValues (v w : World) : Prop where
  cache : ∀ k, v.cacheDB.valueAt k = w.cacheDB.valueAt k
  backend : ∀ k, v.cacheDB.backend.get k = w.cacheDB.backend.get k
  suicided : v.Suicided = w.Suicided
  logs : v.logs = w.logs
  refund : v.refund = w.refund

namespace SameValues
variable {v w : World}

theorem getEthAccount (h : SameValues v w) (addr : Address) :
    v.cacheDB.getEthAccount addr = w.cacheDB.getEthAccount addr := by
  simp only [CacheDB.getEthAccount, CacheDB.get_eq_valueAt, h.cache]

theorem getBalance (h : SameValues v w) (addr : Address) :
    BalanceHandle.getBalance v.cacheDB addr = BalanceHandle.getBalance w.cacheDB addr := by
  rw [BalanceHandle.getBalance, BalanceHandle.getBalance, h.getEthAccount]

theorem setDbErr (h : SameValues v w) (e : String) :
    SameValues { v with cacheDB := v.cacheDB.setDbErr e } { w with cacheDB := w.cacheDB.setDbErr e } :=
  ⟨h.cache, h.backend, h.suicided, h.logs, h.refund⟩

section
variable (h : SameValues v w) (addr : Address)
include h addr

theorem world_getEthAccount :
    Outcome.LiftRel (fun x y => x.1 = y.1 ∧ SameValues x.2 y.2) (v.getEthAccount addr) (w.getEthAccount addr) := by
  rw [World.getEthAccount, World.getEthAccount, h.getEthAccount]
  cases w.cacheDB.getEthAccount addr with
  | ok a => exact .ok ⟨rfl, h⟩
  | err e => exact .ok ⟨rfl, h.setDbErr e⟩
  | panic p => exact .panic p

theorem readAccount {α : Type} (f : EthAccount → α) (g : α → Answer) :
    Outcome.LiftRel (fun x y : Answer × World => x.1 = y.1)
      (do let (b, u) ← (do let (a, u) ← v.getEthAccount addr; .ok (f a, u)); .ok (g b, u))
      (do let (b, u) ← (do let (a, u) ← w.getEthAccount addr; .ok (f a, u)); .ok (g b, u)) := by
  have hfield : Outcome.LiftRel (fun x y : α × World => x.1 = y.1)
      (do let (a, u) ← v.getEthAccount addr; .ok (f a, u))
      (do let (a, u) ← w.getEthAccount addr; .ok (f a, u)) :=
    (h.world_getEthAccount addr).bind fun _ _ hxy => .ok (congrArg f hxy.1)
  exact hfield.bind fun _ _ hxy => .ok (congrArg g hxy)

theorem testAccount (f : EthAccount → ℕ → Bool) :
    Outcome.LiftRel (fun x y : Bool × World => x.1 = y.1)
      (do let (a, u) ← v.getEthAccount addr
          match BalanceHandle.getBalance u.cacheDB addr with
          | .ok b => .ok (f a b, u)
          | .err e => .ok (false, { u with cacheDB := u.cacheDB.setDbErr e })
          | .panic p => .panic p)
      (do let (a, u) ← w.getEthAccount addr
          match BalanceHandle.getBalance u.cacheDB addr with
          | .ok b => .ok (f a b, u)
          | .err e => .ok (false, { u with cacheDB := u.cacheDB.setDbErr e })
          | .panic p => .panic p) := by
  refine (h.world_getEthAccount addr).bind ?_
  rintro ⟨a, u⟩ ⟨b, u'⟩ ⟨rfl, hu⟩
  simp only [hu.getBalance]
  cases BalanceHandle.getBalance u'.cacheDB addr with
  | ok | err => exact .ok rfl
  | panic p => exact .panic p

end

theorem run (h : SameValues v w) (r : Read) : Outcome.LiftRel (fun x y => x.1 = y.1) (r.run v) (r.run w) := by
  cases r with
  | getState contract key =>
    refine .ok ?_
    simp only [World.getState, CacheDB.Get, CacheDB.get_eq_valueAt, h.cache]
  | getCommittedState addr key =>
    refine .ok ?_
    simp only [World.getCommittedState, h.backend]
  | getBalance addr =>
    simp only [Read.run, World.getBalance, h.getBalance]
    cases BalanceHandle.getBalance w.cacheDB addr with
    | ok | err => exact .ok rfl
    | panic p => exact .panic p
  | getNonce addr => exact h.readAccount addr EthAccount.Nonce fun nonce => .number nonce.toNat
  | getCode addr => exact h.readAccount addr EthAccount.Code .bytes
  | getCodeHash addr => exact h.readAccount addr EthAccount.CodeHash .hash
  | hasSuicided addr =>
    refine .ok ?_
    simp only [World.hasSuicided, h.suicided]
  | exist addr =>
    refine Outcome.LiftRel.bind ?_ fun _ _ hxy => .ok (congrArg Answer.flag hxy)
    rw [World.exist, World.exist, h.suicided]
    split
    · exact .ok rfl
    · exact h.testAccount addr fun a b => !a.isEmpty || b > 0
  | empty addr =>
    exact (h.testAccount addr fun a b => a.isEmpty && b = 0).bind fun _ _ hxy =>
      .ok (congrArg Answer.flag hxy)
  | getRefund =>
    refine .ok ?_
    simp only [World.getRefund, h.refund]
  | getLogs =>
    refine .ok ?_
    simp only [World.getLogs, h.logs]

end SameValues

/-! ## The state after a commit -/

namespace StateDB

/-- What a commit of self-destructs is for: the addresses that self-destructed have neither a record nor
slots, and the others have what they had. -/
structure Destroyed (s s' : StateDB) : Prop where
  record_gone : ∀ addr ∈ s.world.Suicided, s'.world.cacheDB.get ST_ETH_ACCOUNT addr.1 = []
  slots_zero : ∀ addr ∈ s.world.Suicided, ∀ key, s'.world.getState addr key = Hash.zero
  record_kept : ∀ addr ∉ s.world.Suicided, s'.world.cacheDB.get ST_ETH_ACCOUNT addr.1 =
    s.world.cacheDB.get ST_ETH_ACCOUNT addr.1
  slots_kept : ∀ addr ∉ s.world.Suicided, ∀ key, s'.world.getState addr key = s.world.getState addr key

/-- The commit returns without an error, whatever more steps it may take. -/
def CommitsTo (rnd : Bytes → Rand) (order : List Address) (s s' : StateDB) : Prop :=
  ∃ N, ∀ steps, N < steps → s.commitToCacheDB its steps rnd order = some (none, s')

/-- The map of self-destructed addresses can be traversed in this order. -/
def Traverses (order : List Address) (s : StateDB) : Prop :=
  order.Nodup ∧ ∀ addr, addr ∈ order ↔ addr ∈ s.world.Suicided

variable {its} {s s' s'' : StateDB} {rnd rnd' : Bytes → Rand} {order order' : List Address}

theorem world_forget (s : StateDB) : s.forget.world = { s.world with Suicided := ∅ } := by
  rw [world, forget, Heap.get_alloc_self, world]

theorem commitsTo_unique (h : CommitsTo its rnd order s s') (h' : CommitsTo its rnd order s s'') : s' = s'' := by
  obtain ⟨N, hN⟩ := h
  obtain ⟨M, hM⟩ := h'
  have := (hN (max N M + 1) (by omega)).symm.trans (hM (max N M + 1) (by omega))
  simpa using this

structure CommitValues (order : List Address) (s s' : StateDB) : Prop where
  cache : ∀ k, s'.world.cacheDB.valueAt k = if order.any (CacheDB.belongsTo · k) then [] else s.world.cacheDB.valueAt k
  backend : s'.world.cacheDB.backend = s.world.cacheDB.backend
  suicided : s'.world.Suicided = ∅
  logs : s'.world.logs = s.world.logs
  refund : s'.world.refund = s.world.refund

theorem exists_commitsTo (its : StoreIterators store) (hstore : s.backend.store = store) (rnd : Bytes → Rand)
    (order : List Address) : ∃ s', CommitsTo its rnd order s s' ∧ CommitValues order s s' := by
  have hcache : s.world.cacheDB.backend.store = store := hstore
  obtain ⟨db, N, hN, hback, hval⟩ := CacheDB.commitLoop_eq its rnd order hcache
  have hworld : (s.setCache db).forget.world = { s.world with cacheDB := db, Suicided := ∅ } := by
    rw [world_forget, setCache, world_setWorld]
  refine ⟨(s.setCache db).forget, ⟨N, fun steps hsteps => ?_⟩, ?_⟩
  · rw [commitToCacheDB, hN steps hsteps]
    rfl
  · exact ⟨by rw [hworld]; exact hval, by rw [hworld]; exact hback, by rw [hworld], by rw [hworld], by rw [hworld]⟩

theorem CommitValues.destroyed (h : CommitValues order s s') (horder : s.Traverses order) : Destroyed s s' := by
  have hrecord : ∀ addr, order.any (CacheDB.belongsTo · (makePrefixedKey ST_ETH_ACCOUNT addr.1)) = true ↔
      addr ∈ s.world.Suicided := by
    intro addr
    simp [List.any_eq_true, CacheDB.belongsTo_record, horder.2]
  have hslot : ∀ addr key, order.any (CacheDB.belongsTo · (makePrefixedKey ST_STORAGE (genKey addr key))) = true ↔
        addr ∈ s.world.Suicided := by
    intro addr key
    simp [List.any_eq_true, CacheDB.belongsTo_slot, horder.2]
  refine ⟨fun addr hmem => ?_, fun addr hmem key => ?_, fun addr hmem => ?_, fun addr hmem key => ?_⟩
  · rw [CacheDB.get_eq_valueAt, h.cache, if_pos ((hrecord addr).mpr hmem)]
  · rw [World.getState, CacheDB.Get, CacheDB.get_eq_valueAt, h.cache, if_pos ((hslot addr key).mpr hmem)]
    rfl
  · rw [CacheDB.get_eq_valueAt, h.cache, if_neg (mt (hrecord addr).mp hmem), CacheDB.get_eq_valueAt]
  · rw [World.getState, CacheDB.Get, CacheDB.get_eq_valueAt, h.cache, if_neg (mt (hslot addr key).mp hmem),
      World.getState, CacheDB.Get, CacheDB.get_eq_valueAt]

theorem CommitValues.answer_eq (h : CommitValues order s s') (h' : CommitValues order' s s'')
    (horder : s.Traverses order) (horder' : s.Traverses order') (r : Read) : s'.answer r = s''.answer r := by
  have hsame : SameValues s'.world s''.world := by
    refine ⟨fun k => ?_, fun k => ?_, ?_, ?_, ?_⟩
    · have hany : order.any (CacheDB.belongsTo · k) = order'.any (CacheDB.belongsTo · k) := by
        rw [Bool.eq_iff_iff, List.any_eq_true, List.any_eq_true]
        simp only [horder.2, horder'.2]
      rw [h.cache, h'.cache, hany]
    · rw [h.backend, h'.backend]
    · rw [h.suicided, h'.suicided]
    · rw [h.logs, h'.logs]
    · rw [h.refund, h'.refund]
  exact (hsame.run r).map_eq fun _ _ hxy => hxy

/-- **A commit of self-destructs is complete and local, and the order does not matter.** In whatever order
the map is traversed the commit returns, with the state that it is for; every read answers the same after
a traversal in another order. -/
theorem commitToCacheDB_destroys (its : StoreIterators store) (s : StateDB) (hstore : s.backend.store = store)
    (rnd : Bytes → Rand) (order : List Address) (horder : s.Traverses order) :
    ∃ s', CommitsTo its rnd order s s' ∧ Destroyed s s' ∧
      ∀ rnd' order' s'', s.Traverses order' → CommitsTo its rnd' order' s s'' →
        ∀ r : Read, s'.answer r = s''.answer r := by
  obtain ⟨s', hs', hvalues⟩ := exists_commitsTo its hstore rnd order
  refine ⟨s', hs', hvalues.destroyed horder, ?_⟩
  intro rnd' order' s'' horder' hs'' r
  obtain ⟨t, ht, hvalues'⟩ := exists_commitsTo its hstore rnd' order'
  obtain rfl := commitsTo_unique ht hs''
  exact hvalues.answer_eq hvalues' horder horder' r

end StateDB

/-! ## A store that holds a list -/

/-- Iterators over the entries of a sorted list. -/
def listIterators (kvs : List (Bytes × Bytes)) (hkvs : KeysSorted kvs) : StoreIterators fun k => kvs.lookup k where
  Iter := List (Bytes × Bytes)
  cursor :=
    { first := fun _ i => some (!i.isEmpty, i)
      next := fun _ i => some (!i.tail.isEmpty, i.tail)
      key := fun i => (i.headD default).1
      value := fun i => (i.headD default).2
      error := fun _ => none }
  newIterator := fun pre => kvs.filter fun kv => pre.isPrefixOf kv.1
  Stands := fun _ i left => i = left
  lawful :=
    { entry := by rintro _ i _ rfl; rfl
      next := by rintro _ i _ rfl; exact ⟨_, rfl, rfl, rfl⟩
      error := fun _ => rfl }
  entries := fun pre => kvs.filter fun kv => pre.isPrefixOf kv.1
  first := fun _ => ⟨_, rfl, rfl, rfl⟩
  sorted := fun _ => hkvs.sublist List.filter_sublist
  mem_entries := by
    intro pre k v
    rw [List.mem_filter, hkvs.mem_iff, List.isPrefixOf_iff_prefix, and_comm]
  bytesPrefix := DbIter.prefixRange
  inRange_prefix := DbIter.inRange_prefix

namespace StateDB

def sampleSlots : List (Bytes × Bytes) := [(makePrefixedKey ST_STORAGE (genKey sampleAddress sampleKey), sampleKey.1)]

def sampleSuicided : StateDB :=
  let s := newStateDB (newCacheDB (newOverlayDB fun k => sampleSlots.lookup k))
  s.setWorld { s.world with Suicided := {sampleAddress} } (List.prefix_refl _)

theorem commitToCacheDB_destroys_sampleSuicided : sampleSuicided.world.getState sampleAddress sampleKey = sampleKey ∧
      ∃ s', CommitsTo (listIterators sampleSlots (List.pairwise_singleton _ _)) (fun _ _ => 0) [sampleAddress]
          sampleSuicided s' ∧
        s'.world.getState sampleAddress sampleKey = Hash.zero := by
  have hsuicided : sampleSuicided.world.Suicided = {sampleAddress} := by
    rw [sampleSuicided, world_setWorld]
  have horder : sampleSuicided.Traverses [sampleAddress] := ⟨List.nodup_singleton _, by simp [hsuicided]⟩
  obtain ⟨s', hs', hdestroyed, -⟩ := commitToCacheDB_destroys
    (listIterators sampleSlots (List.pairwise_singleton _ _)) sampleSuicided rfl (fun _ _ => 0) [sampleAddress] horder
  exact ⟨by decide +kernel, s', hs', hdestroyed.slots_zero _ (by simp [hsuicided]) _⟩

end StateDB
end Web3.Storage
