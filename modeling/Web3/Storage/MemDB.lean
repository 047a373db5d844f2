import Web3.Foundations.Words

/-! # The in-memory key/value table

`evm/storage/overlaydb/memdb.go`: a skip list whose nodes are variable-length records in one flat
array of integers and whose keys and values are ranges of one byte buffer.

A record at `node` has the offset of its key in `kvData`, the length of the key, the length of the
value, its height, and one link for each level below its height. The record at `0` is the head of
every level, and the link `0` ends one. `rnd` is a pointer that clones of a table share, so the
generator is not part of a table: an operation that may insert gets the values that `rnd.Int()`
returns from then on. Reading an array outside its bounds gives `0` here; the tables of
`Web3.Storage.SkipList` never do it. -/

namespace Web3.Storage

/-- The values that the generator's `Int()` returns, in order. -/
abbrev Rand := ℕ → ℕ

def tMaxHeight : ℕ := 12

def nKV : ℕ := 0
def nKey : ℕ := 1
def nVal : ℕ := 2
def nHeight : ℕ := 3
def nNext : ℕ := 4

structure MemDB where
  kvData : Bytes
  nodeData : List ℕ
  prevNode : List ℕ
  maxHeight : ℕ
  n : ℕ
  kvSize : ℤ
  deriving DecidableEq, Repr

/-- The loop of `randHeight`, with `k` more heights to try above `h`. -/
def randHeightFrom (rnd : Rand) : ℕ → ℕ → ℕ
  | 0, h => h
  | k + 1, h => if rnd (h - 1) % 4 = 0 then randHeightFrom rnd k (h + 1) else h

def randHeight (rnd : Rand) : ℕ := randHeightFrom rnd (tMaxHeight - 1) 1

namespace MemDB

variable (p : MemDB)

def nodeAt (i : ℕ) : ℕ := p.nodeData.getD i 0

def next (h node : ℕ) : ℕ := p.nodeAt (node + nNext + h)

def keyOf (node : ℕ) : Bytes :=
  (p.kvData.drop (p.nodeAt node)).take (p.nodeAt (node + nKey))

/-- The value of a node: `p.kvData[m : m+p.nodeData[node+nVal]]` behind its key. -/
def valOf (node : ℕ) : Bytes :=
  (p.kvData.drop (p.nodeAt node + p.nodeAt (node + nKey))).take (p.nodeAt (node + nVal))

/-- The loop of `findGE` at a node and a level; `none` when the steps run out. -/
def findGELoop (p : MemDB) (key : Bytes) (prev : Bool) : ℕ → ℕ → ℕ → List ℕ → Option (ℕ × Bool × List ℕ)
  | 0, _, _, _ => none
  | fuel + 1, node, h, prevNode =>
    let next := p.next h node
    let cmp := if next = 0 then .gt else compare (p.keyOf next) key
    -- keep searching in this list
    if cmp = .lt then findGELoop p key prev fuel next h prevNode
    else if !prev && cmp == .eq then some (next, true, prevNode)
    else
      let prevNode := if prev then prevNode.set h node else prevNode
      match h with
      | 0 => some (next, cmp == .eq, prevNode)
      | h + 1 => findGELoop p key prev fuel node h prevNode

/-- The first node with a key at or above `key` (`0` if there is none), and whether its key is
`key`. With `prev`, `prevNode` gets the last node before it on every level. -/
def findGE (key : Bytes) (prev : Bool) : ℕ × Bool × MemDB :=
  match p.findGELoop key prev (p.nodeData.length + p.maxHeight) 0 (p.maxHeight - 1) p.prevNode with
  | some (node, exact, prevNode) => (node, exact, { p with prevNode := prevNode })
  | none => (0, false, p)

/-- The loop of `Put` that links a new node in: for each position `m` of a link to the node, the old
link is appended to the record of the node. -/
def spliceLoop (node : ℕ) : List ℕ → List ℕ → List ℕ
  | [], nodeData => nodeData
  | m :: ms, nodeData => spliceLoop node ms ((nodeData ++ [nodeData.getD m 0]).set m node)

def linkPositions (prevNode : List ℕ) (h : ℕ) : List ℕ :=
  (List.range h).map fun i => prevNode.getD i 0 + nNext + i

def overwrite (node : ℕ) (key value : Bytes) : MemDB :=
  let p : MemDB :=
    if value.length ≠ 0 then
      { p with
        kvData := p.kvData ++ key ++ value
        nodeData := p.nodeData.set node p.kvData.length }
    else p
  let m := p.nodeAt (node + nVal)
  { p with
    nodeData := p.nodeData.set (node + nVal) value.length
    kvSize := p.kvSize + (value.length - m) }

/-- Room for a node of height `h`: on new levels it comes behind the head. -/
def raise (h : ℕ) : MemDB :=
  if h > p.maxHeight then
    { p with
      prevNode := (List.range' p.maxHeight (h - p.maxHeight)).foldl (fun pn i => pn.set i 0) p.prevNode
      maxHeight := h }
  else p

def insert (h : ℕ) (key value : Bytes) : MemDB :=
  let p := p.raise h
  let kvOffset := p.kvData.length
  let node := p.nodeData.length
  { p with
    kvData := p.kvData ++ key ++ value
    nodeData := spliceLoop node (linkPositions p.prevNode h)
      (p.nodeData ++ [kvOffset, key.length, value.length, h])
    kvSize := p.kvSize + (key.length + value.length)
    n := p.n + 1 }

def put (rnd : Rand) (key value : Bytes) : MemDB :=
  match p.findGE key true with
  | (node, true, p) => p.overwrite node key value
  | (_, false, p) => p.insert (randHeight rnd) key value

def delete (rnd : Rand) (key : Bytes) : MemDB := p.put rnd key []

/-- The value of a key, and whether the key is unknown. A deleted key has an empty value. -/
def get (key : Bytes) : Bytes × Bool :=
  match p.findGE key false with
  | (node, true, _) =>
    let valen := p.nodeAt (node + nVal)
    if valen ≠ 0 then (p.valOf node, false) else ([], false)
  | (_, false, _) => ([], true)

/-- The pairs that `ForEach` calls its function on, from `node` on. -/
def forEachLoop (p : MemDB) : ℕ → ℕ → List (Bytes × Bytes)
  | 0, _ => []
  | fuel + 1, node =>
    if node = 0 then [] else (p.keyOf node, p.valOf node) :: forEachLoop p fuel (p.next 0 node)

def forEach : List (Bytes × Bytes) := p.forEachLoop p.nodeData.length (p.next 0 0)

def len : ℕ := p.n

def size : ℤ := p.kvSize

def deepClone : MemDB :=
  { kvData := [] ++ p.kvData
    nodeData := [] ++ p.nodeData
    prevNode := p.prevNode
    maxHeight := p.maxHeight
    n := p.n
    kvSize := p.kvSize }

end MemDB

def newMemDB : MemDB :=
  { kvData := []
    nodeData := (List.replicate (4 + tMaxHeight) 0).set nHeight tMaxHeight
    prevNode := List.replicate tMaxHeight 0
    maxHeight := 1
    n := 0
    kvSize := 0 }

/-- The head record is written anew, in place, and the rest is cut off. -/
def MemDB.reset (p : MemDB) : MemDB :=
  { kvData := p.kvData.take 0
    nodeData := (List.range tMaxHeight).foldl (fun nd i => nd.set (nNext + i) 0)
      (((((p.nodeData.take (nNext + tMaxHeight)).set nKV 0).set nKey 0).set nVal 0).set nHeight tMaxHeight)
    prevNode := (List.range tMaxHeight).foldl (fun pn i => pn.set i 0) p.prevNode
    maxHeight := 1
    n := 0
    kvSize := 0 }

/-! ## Iterators

`dbIter`. An iterator holds a pointer to its table, so each method gets the table as it is at the time
of the call. A nil key or value is the empty one here. -/

/-- `util.Range`: the keys from `Start` on and below `Limit`; `none` is nil. -/
structure Range where
  Start : Option Bytes
  Limit : Option Bytes
  deriving DecidableEq, Repr

def errIterReleased : String := "leveldb/memdb: iterator released"

structure DbIter where
  slice : Option Range
  node : ℕ
  forward : Bool
  key : Bytes
  value : Bytes
  err : Option String
  released : Bool
  deriving DecidableEq, Repr

def MemDB.newIterator (slice : Option Range) : DbIter :=
  { slice, node := 0, forward := false, key := [], value := [], err := none, released := false }

namespace DbIter

def start (i : DbIter) : Option Bytes := i.slice.bind Range.Start

def limit (i : DbIter) : Option Bytes := i.slice.bind Range.Limit

/-- The key and the value of the node, unless it is outside the range. -/
def fill (p : MemDB) (i : DbIter) (checkStart checkLimit : Bool) : Bool × DbIter :=
  let key := p.keyOf i.node
  if i.node ≠ 0 then
    if (checkLimit && i.limit.any fun limit => compare key limit != .lt) ||
        (checkStart && i.start.any fun start => compare key start == .lt) then
      (false, { i with node := 0, key := [], value := [] })
    else (true, { i with key := key, value := p.valOf i.node })
  else (false, { i with key := [], value := [] })

def unlessReleased (i : DbIter) (call : DbIter → Bool × DbIter) : Bool × DbIter :=
  if i.released then (false, { i with err := some errIterReleased }) else call i

def first (p : MemDB) (i : DbIter) : Bool × DbIter :=
  i.unlessReleased fun i =>
    let node := match i.start with
      | some start => (p.findGE start false).1
      | none => p.next 0 0
    fill p { i with forward := true, node := node } false true

def next (p : MemDB) (i : DbIter) : Bool × DbIter :=
  i.unlessReleased fun i =>
    if i.node = 0 then
      if !i.forward then i.first p else (false, i)
    else fill p { i with forward := true, node := p.next 0 i.node } false true

end DbIter

end Web3.Storage
