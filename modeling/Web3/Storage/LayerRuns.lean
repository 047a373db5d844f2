import Web3.Storage.Layers
import Web3.Storage.World

/-! # The layered store is a map

Histories of calls on a cache over an overlay over a store. What the layers hold after a history is
said by the history alone: the last write of the cache since it was last emptied (`pendingWrite`), and
the last write that reached the overlay (`flushedWrite`). Every answer follows from these two. -/

namespace Web3.Storage

/-- A call on a cache or on its overlay. `CacheDB.Put`, `Delete` and `Get` are those with the prefix
`ST_STORAGE`. A call that inserts a key takes the values of the generator from its own `rnd`. -/
inductive LayerOp where
  | put (rnd : Rand) (pre : UInt8) (key value : Bytes)
  | delete (rnd : Rand) (pre : UInt8) (key : Bytes)
  | get (pre : UInt8) (key : Bytes)
  | reset
  | commit (rnd : Bytes → Rand)
  | overlayPut (rnd : Rand) (key value : Bytes)
  | overlayDelete (rnd : Rand) (key : Bytes)
  | overlayGet (key : Bytes)

namespace LayerOp

def step (db : CacheDB) : LayerOp → CacheDB
  | .put rnd pre key value => db.put rnd pre key value
  | .delete rnd pre key => db.delete rnd pre key
  | .get _ _ => db
  | .reset => db.reset
  | .commit rnd => db.commit rnd
  | .overlayPut rnd key value => { db with backend := db.backend.put rnd key value }
  | .overlayDelete rnd key => { db with backend := db.backend.delete rnd key }
  | .overlayGet _ => db

def Uncommitted : LayerOp → Prop
  | .put .. => True
  | .delete .. => True
  | .get .. => True
  | .reset => True
  | .overlayGet .. => True
  | .commit .. => False
  | .overlayPut .. => False
  | .overlayDelete .. => False

end LayerOp

/-- The cache after a history, latest call first, over an overlay of the given store. -/
def runLayers (store : Store) : List LayerOp → CacheDB
  | [] => newCacheDB (newOverlayDB store)
  | op :: h => op.step (runLayers store h)

/-! ## What the history says -/

def pendingWrite (key : Bytes) : List LayerOp → Option Bytes
  | [] => none
  | .put _ pre k value :: h => if makePrefixedKey pre k = key then some value else pendingWrite key h
  | .delete _ pre k :: h => if makePrefixedKey pre k = key then some [] else pendingWrite key h
  | .reset :: _ => none
  | .commit _ :: _ => none
  | .get .. :: h => pendingWrite key h
  | .overlayPut .. :: h => pendingWrite key h
  | .overlayDelete .. :: h => pendingWrite key h
  | .overlayGet .. :: h => pendingWrite key h

/-- The last write to a key in the overlay: one of its own, or one that a commit flushed. -/
def flushedWrite (key : Bytes) : List LayerOp → Option Bytes
  | [] => none
  | .overlayPut _ k value :: h => if k = key then some value else flushedWrite key h
  | .overlayDelete _ k :: h => if k = key then some [] else flushedWrite key h
  | .commit _ :: h => (pendingWrite key h).or (flushedWrite key h)
  | .put .. :: h => flushedWrite key h
  | .delete .. :: h => flushedWrite key h
  | .get .. :: h => flushedWrite key h
  | .reset :: h => flushedWrite key h
  | .overlayGet .. :: h => flushedWrite key h

def visibleWrite (key : Bytes) (h : List LayerOp) : Option Bytes :=
  (pendingWrite key h).or (flushedWrite key h)

/-- What a key has after a write to it, if there was one; an empty value deletes the key. -/
def overwritten (write old : Option Bytes) : Option Bytes :=
  match write with
  | some [] => none
  | some value => some value
  | none => old

variable (store : Store)

def mergedStore (h : List LayerOp) : Store := fun key =>
  overwritten (flushedWrite key h) (store key)

/-! ## What the layers hold -/

theorem at?_runLayers (key : Bytes) (h : List LayerOp) :
    (runLayers store h).memdb.at? key = pendingWrite key h := by
  induction h with
  | nil => exact Table.at?_new key
  | cons op h ih =>
    rw [runLayers]
    cases op with
    | put rnd pre k value =>
      rw [pendingWrite, ← ih]
      exact Table.at?_put ..
    | delete rnd pre k =>
      rw [pendingWrite, ← ih]
      exact Table.at?_delete ..
    | reset | commit rnd =>
      show (Table.reset _).at? key = none
      rw [Table.reset_eq, Table.at?_new]
    | get | overlayPut | overlayDelete | overlayGet => exact ih

theorem at?_runLayers_backend (key : Bytes) (h : List LayerOp) :
    (runLayers store h).backend.memdb.at? key = flushedWrite key h := by
  induction h with
  | nil => exact Table.at?_new key
  | cons op h ih =>
    rw [runLayers]
    cases op with
    | overlayPut rnd k value =>
      rw [flushedWrite, ← ih]
      exact Table.at?_put ..
    | overlayDelete rnd k =>
      rw [flushedWrite, ← ih]
      exact Table.at?_delete ..
    | commit rnd =>
      rw [flushedWrite, ← ih, ← at?_runLayers store]
      exact CacheDB.at?_commit ..
    | put | delete | get | reset | overlayGet => exact ih

theorem store_runLayers (h : List LayerOp) : (runLayers store h).backend.store = store := by
  induction h with
  | nil => rfl
  | cons op h ih =>
    rw [runLayers]
    cases op with
    | commit rnd => exact (CacheDB.store_commit _ rnd).trans ih
    | put | delete | get | reset | overlayPut | overlayDelete | overlayGet => exact ih

/-! ## Answers -/

theorem backend_get_runLayers (h : List LayerOp) (key : Bytes) :
    (runLayers store h).backend.get key = ((flushedWrite key h).or (store key)).getD [] := by
  rw [OverlayDB.get_eq, at?_runLayers_backend, store_runLayers]

theorem get_runLayers (h : List LayerOp) (pre : UInt8) (key : Bytes) : (runLayers store h).get pre key =
      ((visibleWrite (makePrefixedKey pre key) h).or (store (makePrefixedKey pre key))).getD [] := by
  rw [CacheDB.get_eq, at?_runLayers, backend_get_runLayers, visibleWrite]
  cases pendingWrite (makePrefixedKey pre key) h <;> rfl

theorem flushedWrite_append (key : Bytes) (since before : List LayerOp) (hsince : ∀ op ∈ since, op.Uncommitted) :
    flushedWrite key (since ++ before) = flushedWrite key before := by
  induction since with
  | nil => rfl
  | cons op since ih =>
    have hop := hsince op (List.mem_cons_self ..)
    have hrest := ih fun op hop => hsince op (List.mem_cons_of_mem _ hop)
    cases op with
    | put | delete | get | reset | overlayGet => exact hrest
    | commit | overlayPut | overlayDelete => exact hop.elim

/-! ## The batch -/

theorem apply_batchOp_cons (s : Store) (kv : Bytes × Bytes) (ops : List BatchOp) :
    s.apply (OverlayDB.batchOp kv :: ops) =
      Store.apply (fun k => if k = kv.1 then overwritten (some kv.2) (s k) else s k) ops := by
  obtain ⟨key, value⟩ := kv
  cases value <;> rfl

theorem apply_batch (key : Bytes) : ∀ (kvs : List (Bytes × Bytes)) (s : Store), (kvs.map Prod.fst).Nodup →
    s.apply (kvs.map OverlayDB.batchOp) key = overwritten (kvs.lookup key) (s key)
  | [], s, _ => rfl
  | kv :: kvs, s, hnodup => by
    obtain ⟨hnot, hnodup⟩ := List.nodup_cons.mp hnodup
    rw [List.map_cons, apply_batchOp_cons, apply_batch key kvs _ hnodup, List.lookup_cons]
    by_cases hk : key = kv.1
    · rw [hk, lookup_eq_none_iff_not_mem.mpr hnot, if_pos rfl, beq_self_eq_true]
      rfl
    · rw [if_neg hk, beq_false_of_ne hk]

/-! ## The map -/

/-- What it means that a cache over an overlay over `store` is a map after the history `h`. -/
structure ActsAsMap (store : Store) (h : List LayerOp) (db : CacheDB) : Prop where
  /-- A read of the cache sees the last visible write, or the store. -/
  get : ∀ pre key, db.get pre key =
    ((visibleWrite (makePrefixedKey pre key) h).or (store (makePrefixedKey pre key))).getD []
  /-- A commit changes no answer of the cache, -/
  commit_get : ∀ rnd pre key, (db.commit rnd).get pre key = db.get pre key
  /-- and the overlay agrees with it afterwards. -/
  commit_backend : ∀ rnd pre key, (db.commit rnd).backend.get (makePrefixedKey pre key) = (db.commit rnd).get pre key
  /-- Uncommitted writes do not show in the overlay. -/
  uncommitted : ∀ op : LayerOp, op.Uncommitted → ∀ key, (op.step db).backend.get key = db.backend.get key
  /-- The committed state of a slot is its last write in the overlay, or the store's value, -/
  committedState : ∀ w : World, w.cacheDB = db → ∀ addr key, w.getCommittedState addr key = bytesToHash
      (((flushedWrite (CacheDB.genAccountStateKey addr key.1) h).or
        (store (CacheDB.genAccountStateKey addr key.1))).getD [])
  /-- so that whatever a transaction does, it is what the cache had for it at the last commit. -/
  committedState_lastCommit : ∀ since rnd before, h = since ++ .commit rnd :: before →
    (∀ op ∈ since, op.Uncommitted) → ∀ w : World, w.cacheDB = db → ∀ addr key,
      w.getCommittedState addr key = bytesToHash ((runLayers store before).Get (genKey addr key))
  /-- The batch of `CommitTo` turns the store into the merged map. -/
  commitTo : store.apply db.backend.commitTo = mergedStore store h

/-- **The layered store is a map**, after every history of calls. -/
theorem actsAsMap_runLayers (store : Store) (h : List LayerOp) : ActsAsMap store h (runLayers store h) := by
  have hcommit : ∀ rnd, (runLayers store h).commit rnd = runLayers store (.commit rnd :: h) :=
    fun _ => rfl
  have hvisible : ∀ rnd key, visibleWrite key (.commit rnd :: h) = visibleWrite key h :=
    fun _ _ => rfl
  constructor
  case get => exact get_runLayers store h
  case commit_get =>
    intro rnd pre key
    rw [hcommit, get_runLayers, get_runLayers, hvisible]
  case commit_backend =>
    intro rnd pre key
    rw [hcommit, get_runLayers, backend_get_runLayers, hvisible]
    rfl
  case uncommitted =>
    intro op hop key
    have hflushed := flushedWrite_append key [op] h (by simpa using hop)
    show (runLayers store (op :: h)).backend.get key = _
    rw [backend_get_runLayers, backend_get_runLayers, ← hflushed]
    rfl
  case committedState =>
    rintro w hw addr key
    rw [World.getCommittedState, hw, backend_get_runLayers]
  case committedState_lastCommit =>
    rintro since rnd before rfl hsince w hw addr key
    rw [World.getCommittedState, hw, backend_get_runLayers, flushedWrite_append _ _ _ hsince,
      CacheDB.Get, get_runLayers, genAccountStateKey_eq]
    rfl
  case commitTo =>
    funext key
    have hwrite : (runLayers store h).backend.memdb.forEach.lookup key = flushedWrite key h :=
      at?_runLayers_backend store key h
    rw [OverlayDB.commitTo, apply_batch key _ store (Table.nodup_keys _), hwrite, mergedStore]

end Web3.Storage
