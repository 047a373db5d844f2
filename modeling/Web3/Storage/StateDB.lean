import Web3.Foundations.Checkpoints
import Web3.Foundations.Heap
import Web3.Storage.WorldFrame

/-! # StateDB

The object itself: its cache and its set of self-destructed accounts are behind pointers, and so are
the copies that the snapshots keep. The methods work through the live pointers (`apply`); `Snapshot`
copies what they point to, and `RevertToSnapshot` makes a saved copy the live one. Seen from outside
this is a `View` with a stack of checkpoints (`abs`, `exec_refines`). -/

namespace Web3.Storage

/-- What `Snapshot` keeps: pointers to the copies, and the sizes. -/
structure Snapshot where
  changes : ℕ
  suicided : ℕ
  logsSize : ℕ
  refund : UInt64

/-- The tables and maps on the heap, the live pointers, and the snapshots. -/
structure StateDB where
  memdbs : Heap Table
  maps : Heap (Finset Address)
  memdb : ℕ
  backend : OverlayDB
  Suicided : ℕ
  logs : List StorageLog
  refund : UInt64
  snapshots : List Snapshot
  memdbs_separate : memdbs.Separate memdb (snapshots.map Snapshot.changes)
  maps_separate : maps.Separate Suicided (snapshots.map Snapshot.suicided)
  logs_ordered : (snapshots.map Snapshot.logsSize ++ [logs.length]).Pairwise (· ≤ ·)

namespace StateDB

variable (s : StateDB)

def world : World :=
  { cacheDB := { memdb := s.memdbs.get s.memdb, backend := s.backend }
    Suicided := s.maps.get s.Suicided
    logs := s.logs
    refund := s.refund }

/-! ### The sizes of the logs in the snapshots grow -/

variable {sizes : List ℕ} {n : ℕ} {sn : Snapshot}

theorem logs_ordered_append {m : ℕ} (h : n ≤ m) (hs : (sizes ++ [n]).Pairwise (· ≤ ·)) :
    (sizes ++ [m]).Pairwise (· ≤ ·) := by
  rw [List.pairwise_append] at hs ⊢
  refine ⟨hs.1, List.pairwise_singleton _ _, ?_⟩
  intro k hk m' hm
  rw [List.mem_singleton] at hm
  have := hs.2.2 k hk n (List.mem_singleton_self _)
  omega

theorem logs_ordered_push (hs : (sizes ++ [n]).Pairwise (· ≤ ·)) : (sizes ++ [n] ++ [n]).Pairwise (· ≤ ·) := by
  rw [List.pairwise_append]
  refine ⟨hs, List.pairwise_singleton _ _, ?_⟩
  intro k hk m hm
  rw [List.mem_singleton] at hm
  rw [hm]
  rcases List.mem_append.mp hk with hk | hk
  · exact (List.pairwise_append.mp hs).2.2 k hk n (List.mem_singleton_self _)
  · exact (List.mem_singleton.mp hk).le

theorem logs_ordered_take {k i : ℕ} (hs : (sizes ++ [n]).Pairwise (· ≤ ·)) (hi : sizes[i]? = some k) :
    (sizes.take i ++ [k]).Pairwise (· ≤ ·) := by
  obtain ⟨hlt, rfl⟩ := List.getElem?_eq_some_iff.mp hi
  rw [← List.take_succ_eq_append_getElem hlt]
  exact (List.pairwise_append.mp hs).1.sublist (List.take_sublist _ _)

theorem logsSize_le (hsn : sn ∈ s.snapshots) : sn.logsSize ≤ s.logs.length :=
  (List.pairwise_append.mp s.logs_ordered).2.2 _ (List.mem_map_of_mem hsn) _
    (List.mem_singleton_self _)

/-! ### Methods -/

def setWorld (w : World) (h : s.world.logs <+: w.logs) : StateDB :=
  { s with
    memdbs := s.memdbs.write s.memdb w.cacheDB.memdb
    maps := s.maps.write s.Suicided w.Suicided
    backend := w.cacheDB.backend
    logs := w.logs
    refund := w.refund
    memdbs_separate := s.memdbs_separate.write _
    maps_separate := s.maps_separate.write _
    logs_ordered := logs_ordered_append h.length_le s.logs_ordered }

def apply (keccak256 : Bytes → Hash) (s : StateDB) (op : Op) : Outcome StateDB :=
  match h : op.run keccak256 s.world with
  | .ok w => .ok (s.setWorld w (op.run_framed keccak256 s.world w h).logs)
  | .err e => .err e
  | .panic p => .panic p

def query {α : Type} (s : StateDB) (q : Query α) : Outcome (α × StateDB) :=
  match h : q.run s.world with
  | .ok r => .ok (r.1, s.setWorld r.2 (Framed.of_view (q.view s.world r h)).logs)
  | .err e => .err e
  | .panic p => .panic p

/-- Push copies of what the live pointers point to; the answer is the index of the snapshot. -/
def snapshot : ℤ × StateDB :=
  let changes := (s.memdbs.get s.memdb).deepClone
  let suicided := s.maps.get s.Suicided
  let sn : Snapshot :=
    { changes := s.memdbs.next
      suicided := s.maps.next
      logsSize := s.logs.length
      refund := s.refund }
  (s.snapshots.length, { s with
      memdbs := s.memdbs.alloc changes
      maps := s.maps.alloc suicided
      snapshots := s.snapshots ++ [sn]
      memdbs_separate := by
        rw [List.map_append]
        exact s.memdbs_separate.alloc changes
      maps_separate := by
        rw [List.map_append]
        exact s.maps_separate.alloc suicided
      logs_ordered := by
        rw [List.map_append, List.map_singleton]
        exact logs_ordered_push s.logs_ordered })

def restoreTo (idx : ℕ) (sn : Snapshot) (h : s.snapshots[idx]? = some sn) : StateDB :=
  { s with
    snapshots := s.snapshots.take idx
    memdb := sn.changes
    Suicided := sn.suicided
    refund := sn.refund
    logs := s.logs.take sn.logsSize
    memdbs_separate := by
      rw [List.map_take]
      exact s.memdbs_separate.restore (by rw [List.getElem?_map, h, Option.map_some])
    maps_separate := by
      rw [List.map_take]
      exact s.maps_separate.restore (by rw [List.getElem?_map, h, Option.map_some])
    logs_ordered := by
      rw [List.map_take, List.length_take_of_le (s.logsSize_le (List.mem_of_getElem? h))]
      exact logs_ordered_take s.logs_ordered (by rw [List.getElem?_map, h, Option.map_some]) }

def revertToSnapshot (idx : ℤ) : Outcome StateDB :=
  if idx + 1 > s.snapshots.length then .panic "can not to revert snapshot"
  else if idx < 0 then .panic "runtime error: index out of range"
  else
    match h : s.snapshots[idx.toNat]? with
    | some sn => .ok (s.restoreTo idx.toNat sn h)
    | none => .panic "runtime error: index out of range"

/-! ## The object as a view with checkpoints -/

def savedView (sn : Snapshot) : View :=
  { memdb := s.memdbs.get sn.changes
    overlay := s.backend.memdb
    store := s.backend.store
    Suicided := s.maps.get sn.suicided
    logs := s.logs.take sn.logsSize
    refund := sn.refund }

def abs : Checkpointed View :=
  { current := s.world.view, saved := s.snapshots.map s.savedView }

theorem world_setWorld (w : World) (h : s.world.logs <+: w.logs) : (s.setWorld w h).world = w := by
  rw [world, setWorld, Heap.get_write_self, Heap.get_write_self]

theorem abs_setWorld {w : World} (h : Framed s.world w) :
    (s.setWorld w h.logs).abs = { s.abs with current := w.view } := by
  rw [abs, world_setWorld, abs]
  congr 1
  refine List.map_congr_left fun sn hsn => ?_
  have hlogs : w.logs.take sn.logsSize = s.logs.take sn.logsSize := by
    obtain ⟨rest, hrest⟩ := h.logs
    rw [← hrest]
    show (s.logs ++ rest).take sn.logsSize = _
    exact List.take_append_of_le_length (s.logsSize_le hsn)
  have hchanges := s.memdbs_separate.get_write w.cacheDB.memdb (List.mem_map_of_mem hsn)
  have hsuicided := s.maps_separate.get_write w.Suicided (List.mem_map_of_mem hsn)
  have hoverlay : w.cacheDB.backend.memdb = s.backend.memdb := h.overlay
  have hstore : w.cacheDB.backend.store = s.backend.store := h.store
  rw [savedView, setWorld, savedView, hlogs, hchanges, hsuicided, hoverlay, hstore]

theorem abs_query {α : Type} {s s' : StateDB} {q : Query α} {a : α} (h : s.query q = .ok (a, s')) : s'.abs = s.abs := by
  rw [query] at h
  split at h
  · next r hr =>
    cases h
    have hview : r.2.view = s.world.view := q.view s.world r hr
    rw [abs_setWorld s (Framed.of_view hview), hview]
    rfl
  · cases h
  · cases h

theorem abs_snapshot : s.snapshot.2.abs = s.abs.save := by
  have hlive : s.snapshot.2.world = s.world := by
    rw [world, snapshot, s.memdbs_separate.get_alloc _ (List.mem_cons_self ..),
      s.maps_separate.get_alloc _ (List.mem_cons_self ..), world]
  have hold : ∀ sn ∈ s.snapshots, s.snapshot.2.savedView sn = s.savedView sn := by
    intro sn hsn
    rw [savedView, snapshot, s.memdbs_separate.get_alloc _ (List.mem_cons_of_mem _ (List.mem_map_of_mem hsn)),
      s.maps_separate.get_alloc _ (List.mem_cons_of_mem _ (List.mem_map_of_mem hsn)), savedView]
  rw [abs, hlive, Checkpointed.save, abs]
  congr 1
  show (s.snapshots ++ [_]).map s.snapshot.2.savedView = _
  rw [List.map_append, List.map_congr_left hold, List.map_singleton, savedView, snapshot,
    Heap.get_alloc_self, Heap.get_alloc_self, List.take_length]
  rfl

theorem abs_restoreTo {idx : ℕ} (h : s.snapshots[idx]? = some sn) :
    (s.restoreTo idx sn h).abs = { current := s.savedView sn, saved := s.abs.saved.take idx } := by
  rw [abs, abs, ← List.map_take]
  congr 1
  refine List.map_congr_left fun old hold => ?_
  have hle : old.logsSize ≤ sn.logsSize := by
    have hs := logs_ordered_take (k := sn.logsSize) (i := idx) s.logs_ordered
      (by rw [List.getElem?_map, h, Option.map_some])
    rw [← List.map_take] at hs
    exact (List.pairwise_append.mp hs).2.2 _ (List.mem_map_of_mem hold) _ (List.mem_singleton_self _)
  rw [savedView, restoreTo, savedView, List.take_take, min_eq_left hle]

end StateDB
end Web3.Storage
