import Web3.Foundations.Cursors
import Web3.Storage.Table

/-! # Iterators over a table

An iterator holds the offset of a record, and records never move, so it survives writes: what it has
left is decided by its current key and by the table at the time of the next step. Forward steps see
the keys in range in increasing order. -/

namespace Web3.Storage.MemDB

variable {p : MemDB} {L A B : List ℕ} {x : ℕ} {k key value : Bytes} {kvs : List (Bytes × Bytes)}

/-! ## Nodes and keys -/

def HasNode (p : MemDB) (x : ℕ) (k : Bytes) : Prop := ∃ L, Represents p L ∧ x ∈ L ∧ p.keyOf x = k

theorem HasNode.put (hx : p.HasNode x k) (rnd : Rand) (key value : Bytes) : (p.put rnd key value).HasNode x k := by
  obtain ⟨L, h, hmem, rfl⟩ := hx
  obtain ⟨L', hu⟩ := exists_updated h rnd key value
  exact ⟨L', hu.represents, hu.nodes hmem, hu.keyOf x hmem⟩

/-- `x` is the node of the first of the last entries `kvs` of the table, `0` if there is none. -/
structure Points (p : MemDB) (x : ℕ) (kvs : List (Bytes × Bytes)) : Prop where
  suffix : kvs <:+ p.forEach
  node : ∀ kv ∈ kvs.head?, x ≠ 0 ∧ p.HasNode x kv.1 ∧ p.valOf x = kv.2
  nil : kvs = [] → x = 0

theorem points_headD (h : Represents p (A ++ B)) : p.Points (B.headD 0) (p.entries B) := by
  refine ⟨⟨p.entries A, by rw [forEach_eq h, entries_append]⟩, ?_, ?_⟩
  · cases B with
    | nil => simp [entries]
    | cons x B =>
      rintro kv ⟨⟩
      exact ⟨h.ne_zero (by simp), ⟨_, h, by simp, rfl⟩, rfl⟩
  · cases B with
    | nil => simp
    | cons x B => simp [entries]

theorem HasNode.next (hx : p.HasNode x k) : p.Points (p.next 0 x) (above k p.forEach) := by
  obtain ⟨L, h, hmem, rfl⟩ := hx
  obtain ⟨pre, rest, rfl⟩ := List.append_of_mem hmem
  have hpos := (h.heights x (by simp)).1
  have hnext := h.next_eq (0 :: pre) rest x (by simp) (l := 0) (by simp [tMaxHeight]) (by omega)
  rw [h.filter_onLevel_zero (fun y hy => by simp [hy])] at hnext
  have hsorted := entries_sorted h
  rw [entries_append, entries_cons] at hsorted
  have habove : above (p.keyOf x) p.forEach = p.entries rest := by
    rw [forEach_eq h, entries_append, entries_cons, hsorted.above_eq]
  rw [hnext, habove]
  rw [List.append_cons] at h
  exact points_headD h

theorem Valid.points_first (hv : p.Valid) : p.Points (p.next 0 0) p.forEach := by
  obtain ⟨L, h⟩ := hv
  have hnext := h.next_eq [] L 0 rfl (l := 0) (by simp [tMaxHeight])
    (by rw [h.head_height]; simp [tMaxHeight])
  rw [h.filter_onLevel_zero (fun y hy => hy)] at hnext
  rw [hnext, forEach_eq h]
  exact points_headD (A := []) h

theorem SplitAt.entries_before (hs : SplitAt p L key A B) : ∀ kv ∈ p.entries A, compare kv.1 key = .lt := by
  intro kv hkv
  obtain ⟨x, hx, rfl⟩ := List.mem_map.mp hkv
  exact hs.before x hx

theorem SplitAt.entries_behind (hs : SplitAt p L key A B) : ∀ kv ∈ p.entries B, compare kv.1 key ≠ .lt := by
  intro kv hkv
  obtain ⟨x, hx, rfl⟩ := List.mem_map.mp hkv
  exact hs.behind x hx

theorem SplitAt.atOrAbove_eq (h : Represents p L) (hs : SplitAt p L key A B) :
    atOrAbove key p.forEach = p.entries B := by
  rw [forEach_eq h, hs.eq, entries_append]
  exact atOrAbove_append hs.entries_before hs.entries_behind

theorem Valid.points_findGE (hv : p.Valid) (key : Bytes) (prev : Bool) :
    p.Points (p.findGE key prev).1 (atOrAbove key p.forEach) := by
  obtain ⟨L, h⟩ := hv
  obtain ⟨A, B, hs⟩ := exists_splitAt h key
  obtain ⟨pn, hfind, -, -⟩ := findGE_eq h hs prev
  rw [hfind, hs.atOrAbove_eq h]
  exact points_headD (hs.eq ▸ h)

end Web3.Storage.MemDB

namespace Web3.Storage.DbIter
open MemDB

variable {p : MemDB} {i : DbIter} {x : ℕ} {kvs : List (Bytes × Bytes)}

def cursor : Cursor MemDB DbIter Bytes Bytes where
  first := fun p i => some (i.first p)
  next := fun p i => some (i.next p)
  key := key
  value := value
  error := err

def below (i : DbIter) (k : Bytes) : Bool := i.limit.all fun limit => compare k limit == .lt

def fromStart (i : DbIter) (k : Bytes) : Bool := i.start.all fun start => compare k start != .lt

def inRange (i : DbIter) (k : Bytes) : Bool := i.fromStart k && i.below k

/-- The iterator has the entries `kvs` left. It shows the current one as it was when it got there; those
behind are decided by the table as it is now. -/
structure Stands (p : MemDB) (i : DbIter) (kvs : List (Bytes × Bytes)) : Prop where
  valid : p.Valid
  live : i.released = false
  forward : i.forward = true
  err : i.err = none
  entry : (i.key, i.value) = kvs.headD default
  nil : kvs = [] → i.node = 0
  node : ∀ kv ∈ kvs.head?, i.node ≠ 0 ∧ p.HasNode i.node kv.1 ∧
    kvs.tail = (above kv.1 p.forEach).filter fun kv => i.below kv.1

theorem Stands.put (h : Stands p i kvs) (rnd : Rand) {key : Bytes} (value : Bytes)
    (hle : ∀ kv ∈ kvs.head?, compare kv.1 key ≠ .lt) : Stands (p.put rnd key value) i kvs := by
  obtain ⟨hvalid, hput⟩ := h.valid.put rnd key value
  refine { h with valid := hvalid, node := fun kv hkv => ?_ }
  obtain ⟨hne, hnode, htail⟩ := h.node kv hkv
  exact ⟨hne, hnode.put rnd key value, by rw [hput, above_upsert value (hle kv hkv), htail]⟩

variable {kv : Bytes × Bytes}

theorem above_of_suffix (hv : p.Valid) (h : kv :: kvs <:+ p.forEach) : above kv.1 p.forEach = kvs := by
  obtain ⟨as, has⟩ := h
  have hsorted := hv.sorted
  rw [← has] at hsorted ⊢
  exact hsorted.above_eq

theorem filter_below_cons (hsorted : KeysSorted (kv :: kvs)) (i : DbIter)
    (hbelow : i.below kv.1 = false) : (kv :: kvs).filter (fun kv => i.below kv.1) = [] := by
  cases hlimit : i.limit with
  | none => simp [below, hlimit] at hbelow
  | some limit =>
    simp only [below, hlimit, Option.all_some] at hbelow ⊢
    exact hsorted.lower_eq_nil (by simpa using hbelow)

theorem fill_found (hv : p.Valid) (hp : p.Points i.node kvs) (hlive : i.released = false)
    (hforward : i.forward = true) (herr : i.err = none) :
    Cursor.Found Stands p (fill p i false true) (kvs.filter fun kv => i.below kv.1) := by
  have hany : ∀ k, (i.limit.any fun limit => compare k limit != .lt) = !i.below k := by
    intro k
    cases hlimit : i.limit <;> simp [below, hlimit, bne]
  cases kvs with
  | nil =>
    rw [fill, if_neg (not_not.mpr (hp.nil rfl))]
    exact ⟨rfl, hv, hlive, hforward, herr, rfl, fun _ => hp.nil rfl, by simp⟩
  | cons kv kvs =>
    obtain ⟨hne, hnode, hval⟩ := hp.node kv rfl
    have hkey : p.keyOf i.node = kv.1 := by
      obtain ⟨-, -, -, hkey⟩ := hnode
      exact hkey
    rw [fill, if_pos hne, hany, hkey]
    cases hbelow : i.below kv.1 with
    | false =>
      have hsorted : KeysSorted (kv :: kvs) := hv.sorted.sublist hp.suffix.sublist
      rw [filter_below_cons hsorted i hbelow]
      exact ⟨rfl, hv, hlive, hforward, herr, rfl, fun _ => rfl, by simp⟩
    | true =>
      rw [List.filter_cons_of_pos (by simpa using hbelow)]
      refine ⟨rfl, hv, hlive, hforward, herr, ?_, by simp, ?_⟩
      · simp [hval]
      · rintro _ ⟨⟩
        exact ⟨hne, hnode, by rw [above_of_suffix hv hp.suffix]; rfl⟩

theorem unlessReleased_live (hlive : i.released = false) (call : DbIter → Bool × DbIter) :
    i.unlessReleased call = call i := by
  simp [unlessReleased, hlive]

theorem first_found (hv : p.Valid) (hlive : i.released = false) (herr : i.err = none) :
    Cursor.Found Stands p (i.first p) (p.forEach.filter fun kv => i.inRange kv.1) := by
  rw [first, unlessReleased_live hlive]
  cases hstart : i.start with
  | none =>
    have hrange : (fun kv : Bytes × Bytes => i.inRange kv.1) = fun kv => i.below kv.1 := by
      funext kv
      simp [inRange, fromStart, hstart]
    rw [hrange]
    exact fill_found (i := { i with forward := true, node := p.next 0 0 }) hv hv.points_first hlive
      rfl herr
  | some start =>
    have hrange : p.forEach.filter (fun kv => i.inRange kv.1) =
        (atOrAbove start p.forEach).filter fun kv => i.below kv.1 := by
      rw [atOrAbove, List.filter_filter]
      refine List.filter_congr fun kv _ => ?_
      simp [inRange, fromStart, hstart, Bool.and_comm]
    rw [hrange]
    exact fill_found (i := { i with forward := true, node := (p.findGE start false).1 }) hv
      (hv.points_findGE start false) hlive rfl herr

theorem cursor_lawful : cursor.Lawful Stands where
  entry := fun h => h.entry
  error := fun h => h.err
  next := by
    intro p i kvs h
    refine ⟨_, rfl, ?_⟩
    rw [next, unlessReleased_live h.live]
    cases kvs with
    | nil =>
      rw [if_pos (h.nil rfl), h.forward]
      exact ⟨rfl, h⟩
    | cons kv kvs =>
      obtain ⟨hne, hnode, htail⟩ := h.node kv rfl
      rw [if_neg hne, htail]
      exact fill_found (i := { i with forward := true, node := p.next 0 i.node }) h.valid
        hnode.next h.live rfl h.err

/-! ## Ranges of keys with a common start -/

/-- The least key above all that start with the given bytes, if there is one. -/
def prefixLimit : Bytes → Option Bytes
  | [] => none
  | c :: cs =>
    match prefixLimit cs with
    | some limit => some (c :: limit)
    | none => if c < 0xff then some [c + 1] else none

def prefixRange (pre : Bytes) : Range := { Start := some pre, Limit := prefixLimit pre }

theorem isPrefix_iff : ∀ pre k : Bytes,
    pre <+: k ↔ compare k pre ≠ .lt ∧ (prefixLimit pre).all (fun limit => compare k limit == .lt) = true
  | [], k => by cases k <;> simp [prefixLimit]
  | c :: cs, [] => by simp
  | c :: cs, d :: k => by
    have ih := isPrefix_iff cs k
    rw [List.cons_prefix_cons, ih, prefixLimit, List.compare_cons_cons]
    cases hcmp : compare d c with
    | lt =>
      have hne : c ≠ d := by
        rintro rfl
        simp at hcmp
      simp [hne]
    | eq =>
      obtain rfl := Std.LawfulEqCmp.compare_eq_iff_eq.mp hcmp
      cases hlimit : prefixLimit cs with
      | some limit => simp [List.compare_cons_cons]
      | none =>
        by_cases hlt : d < 0xff
        · have hsucc : compare d (d + 1) = .lt := by
            rw [Std.compare_eq_lt, UInt8.lt_iff_toNat_lt, UInt8.toNat_add]
            have : d.toNat < 255 := hlt
            simp
            omega
          simp [hlt, List.compare_cons_cons, hsucc]
        · simp [hlt]
    | gt =>
      have hlt : c < d := Std.compare_eq_gt.mp hcmp
      have hne : c ≠ d := fun h => absurd hcmp (by simp [h])
      cases hlimit : prefixLimit cs with
      | some limit => simp [List.compare_cons_cons, hcmp, hne]
      | none =>
        -- a first byte above `c` is at or above `c + 1`
        have hc : c < 0xff := by
          have := d.toNat_lt
          have : c.toNat < d.toNat := hlt
          show c.toNat < 255
          omega
        have hge : compare d (c + 1) ≠ .lt := by
          rw [ne_eq, Std.compare_eq_lt, UInt8.lt_iff_toNat_lt, UInt8.toNat_add]
          have : c.toNat < d.toNat := hlt
          simp
          omega
        rw [if_pos hc]
        simp only [hne, false_and, Option.all_some, List.compare_cons_cons, false_iff, not_and]
        intro _
        cases h : compare d (c + 1) with
        | lt => exact absurd h hge
        | eq => cases k <;> simp
        | gt => simp

theorem inRange_prefix (pre k : Bytes) : (newIterator (some (prefixRange pre))).inRange k = true ↔ pre <+: k := by
  rw [isPrefix_iff, inRange, Bool.and_eq_true]
  simp [fromStart, below, start, limit, newIterator, prefixRange]

end Web3.Storage.DbIter
