import Web3.Primitives
import Web3.Storage.Table

/-! # The layered store

`overlaydb.go` and the key/value part of `cachedb.go`: a transaction cache over a block overlay over a
persistent store. Both upper layers are tables in which the empty value marks a deleted key. The
scratch buffer that `CacheDB` builds prefixed keys in is not part of the model, since every table
copies the keys it is given. Reads of the persistent store do not fail. -/

namespace Web3.Storage

abbrev Store := Bytes → Option Bytes

inductive BatchOp where
  | put (key value : Bytes)
  | delete (key : Bytes)

def Store.apply (s : Store) : List BatchOp → Store
  | [] => s
  | .put key value :: ops => Store.apply (fun k => if k = key then some value else s k) ops
  | .delete key :: ops => Store.apply (fun k => if k = key then none else s k) ops

structure OverlayDB where
  store : Store
  memdb : Table
  dbErr : Option String

def newOverlayDB (store : Store) : OverlayDB := { store, memdb := Table.new, dbErr := none }

namespace OverlayDB

def setError (db : OverlayDB) (err : String) : OverlayDB := { db with dbErr := some err }

/-- A deleted or unknown key has the empty value. -/
def get (db : OverlayDB) (key : Bytes) : Bytes :=
  match db.memdb.get key with
  | (value, false) => value
  | (_, true) => (db.store key).getD []

def put (db : OverlayDB) (rnd : Rand) (key value : Bytes) : OverlayDB :=
  { db with memdb := db.memdb.put rnd key value }

def delete (db : OverlayDB) (rnd : Rand) (key : Bytes) : OverlayDB :=
  { db with memdb := db.memdb.delete rnd key }

/-- One call of the function that `CommitTo` runs on every pair of the overlay. -/
def batchOp (kv : Bytes × Bytes) : BatchOp :=
  if kv.2.length = 0 then .delete kv.1 else .put kv.1 kv.2

def commitTo (db : OverlayDB) : List BatchOp := db.memdb.forEach.map batchOp

end OverlayDB

/-! ## The transaction cache -/

def ST_STORAGE : UInt8 := 0x05

def ST_ETH_ACCOUNT : UInt8 := 0x31

def makePrefixedKey (pre : UInt8) (key : Bytes) : Bytes := pre :: key

structure CacheDB where
  memdb : Table
  backend : OverlayDB

def newCacheDB (store : OverlayDB) : CacheDB := { memdb := Table.new, backend := store }

namespace CacheDB

def reset (db : CacheDB) : CacheDB := { db with memdb := db.memdb.reset }

/-- One call of the function that `Commit` runs on every pair of the cache. -/
def flush (rnd : Bytes → Rand) (db : OverlayDB) (kv : Bytes × Bytes) : OverlayDB :=
  if kv.2.length = 0 then db.delete (rnd kv.1) kv.1 else db.put (rnd kv.1) kv.1 kv.2

variable (db : CacheDB)

/-- Commit the transaction cache to the block overlay. `rnd` gives the generator's values when a key
is inserted there. -/
def commit (rnd : Bytes → Rand) : CacheDB :=
  { memdb := db.memdb.reset, backend := db.memdb.forEach.foldl (flush rnd) db.backend }

def put (rnd : Rand) (pre : UInt8) (key value : Bytes) : CacheDB :=
  { db with memdb := db.memdb.put rnd (makePrefixedKey pre key) value }

def get (pre : UInt8) (key : Bytes) : Bytes :=
  let k := makePrefixedKey pre key
  match db.memdb.get k with
  | (value, false) => value
  | (_, true) => db.backend.get k

def delete (rnd : Rand) (pre : UInt8) (key : Bytes) : CacheDB :=
  { db with memdb := db.memdb.delete rnd (makePrefixedKey pre key) }

def Put (rnd : Rand) (key value : Bytes) : CacheDB := db.put rnd ST_STORAGE key value

def Get (key : Bytes) : Bytes := db.get ST_STORAGE key

def Delete (rnd : Rand) (key : Bytes) : CacheDB := db.delete rnd ST_STORAGE key

def genAccountStateKey (addr : Address) (key : Bytes) : Bytes := [ST_STORAGE] ++ addr.1 ++ key

end CacheDB

def genKey (contract : Address) (key : Hash) : Bytes := [] ++ contract.1 ++ key.1

theorem genKey_injective {p q : Address × Hash} (h : genKey p.1 p.2 = genKey q.1 q.2) : p = q := by
  obtain ⟨haddr, hkey⟩ := List.append_inj h (p.1.2.trans q.1.2.symm)
  exact Prod.ext (Subtype.ext haddr) (Subtype.ext hkey)

theorem genAccountStateKey_eq (addr : Address) (key : Hash) :
    CacheDB.genAccountStateKey addr key.1 = makePrefixedKey ST_STORAGE (genKey addr key) := rfl

/-! ## Layers as maps -/

theorem OverlayDB.get_eq (db : OverlayDB) (key : Bytes) :
    db.get key = ((db.memdb.at? key).or (db.store key)).getD [] := by
  rw [OverlayDB.get, Table.get_eq]
  cases db.memdb.at? key <;> rfl

theorem CacheDB.get_eq (db : CacheDB) (pre : UInt8) (key : Bytes) :
    db.get pre key = ((db.memdb.at? (makePrefixedKey pre key)).getD (db.backend.get (makePrefixedKey pre key))) := by
  rw [CacheDB.get, Table.get_eq]
  cases db.memdb.at? (makePrefixedKey pre key) <;> rfl

theorem CacheDB.at?_flush (rnd : Bytes → Rand) (db : OverlayDB) (kv : Bytes × Bytes) (key : Bytes) :
    (flush rnd db kv).memdb.at? key = if kv.1 = key then some kv.2 else db.memdb.at? key := by
  rw [flush]
  split
  · next h =>
    rw [List.length_eq_zero_iff.mp h]
    exact Table.at?_delete ..
  · exact Table.at?_put ..

theorem CacheDB.store_flush (rnd : Bytes → Rand) (db : OverlayDB) (kv : Bytes × Bytes) :
    (flush rnd db kv).store = db.store := by
  rw [flush]
  split <;> rfl

theorem CacheDB.at?_flush_all (rnd : Bytes → Rand) (key : Bytes) : ∀ (kvs : List (Bytes × Bytes))
    (db : OverlayDB), (kvs.map Prod.fst).Nodup →
    (kvs.foldl (flush rnd) db).memdb.at? key = (kvs.lookup key).or (db.memdb.at? key)
  | [], db, _ => rfl
  | kv :: kvs, db, hnodup => by
    obtain ⟨hnot, hnodup⟩ := List.nodup_cons.mp hnodup
    rw [List.foldl_cons, at?_flush_all rnd key kvs _ hnodup, at?_flush, List.lookup_cons]
    by_cases h : kv.1 = key
    · subst h
      simp [lookup_eq_none_iff_not_mem.mpr hnot]
    · rw [if_neg h, beq_false_of_ne (Ne.symm h)]

theorem CacheDB.store_flush_all (rnd : Bytes → Rand) : ∀ (kvs : List (Bytes × Bytes))
    (db : OverlayDB), (kvs.foldl (flush rnd) db).store = db.store
  | [], _ => rfl
  | kv :: kvs, db => by rw [List.foldl_cons, store_flush_all rnd kvs, store_flush]

theorem Table.nodup_keys (t : Table) : (t.forEach.map Prod.fst).Nodup := t.2.nodup_keys

/-- The overlay after a commit: the cache's entries, and its own where the cache has none. -/
theorem CacheDB.at?_commit (db : CacheDB) (rnd : Bytes → Rand) (key : Bytes) :
    (db.commit rnd).backend.memdb.at? key = (db.memdb.at? key).or (db.backend.memdb.at? key) :=
  at?_flush_all rnd key _ _ db.memdb.nodup_keys

theorem CacheDB.store_commit (db : CacheDB) (rnd : Bytes → Rand) :
    (db.commit rnd).backend.store = db.backend.store := store_flush_all rnd _ _

end Web3.Storage
