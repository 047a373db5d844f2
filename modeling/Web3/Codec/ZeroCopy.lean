import Web3.Storage.Records

/-! # Zero-copy sinks and sources

`ZeroCopySink` and `ZeroCopySource` of `utils/codec` with their buffers. A sink is a slice of an array: what lies behind
the slice is overwritten later, so a writer reserves bytes that have old contents, and `WriteVarUint` reserves nine and
gives back those it does not need. A source is a slice and a position in it. The operations are compared with the lists
of bytes that are written and unread. -/

namespace Web3.Codec
open Storage

/-! ## Sinks -/

/-- `buf`, and the rest of its array. -/
structure ZeroCopySink where
  buf : Bytes
  spare : Bytes

namespace ZeroCopySink

def cap (self : ZeroCopySink) : ℕ := self.buf.length + self.spare.length

def maxInt : ℕ := 2 ^ 63 - 1

def new : ZeroCopySink := { buf := [], spare := List.replicate 512 0 }

variable (self : ZeroCopySink)

def tryGrowByReslice (n : ℕ) : Option (ℕ × ZeroCopySink) :=
  let l := self.buf.length
  if n ≤ self.cap - l then some (l, { buf := self.buf ++ self.spare.take n, spare := self.spare.drop n }) else none

def grow (n : ℕ) : Outcome (ℕ × ZeroCopySink) :=
  match self.tryGrowByReslice n with
  | some r => .ok r
  | none =>
    let l := self.buf.length
    let c := self.cap
    if maxInt < c + c + n then .panic "bytes.Buffer: too large"
    else
      let array := self.buf ++ List.replicate (2 * c + n - l) 0
      .ok (l, { buf := array.take (l + n), spare := array.drop (l + n) })

def nextBytes (n : ℕ) : Outcome (ℕ × ZeroCopySink) :=
  match self.tryGrowByReslice n with
  | some r => .ok r
  | none => self.grow n

def put (m : ℕ) (p : Bytes) : ZeroCopySink :=
  { self with buf := self.buf.take m ++ p ++ self.buf.drop (m + p.length) }

/-- What is taken off the end of the slice stays in the array. -/
def backUp (n : ℕ) : ZeroCopySink :=
  let l := self.buf.length - n
  { buf := self.buf.take l, spare := self.buf.drop l ++ self.spare }

def writeBytes (p : Bytes) : Outcome ZeroCopySink := do
  let (m, self) ← self.nextBytes p.length
  return self.put m p

def writeUint64 (data : UInt64) : Outcome ZeroCopySink := do
  let (m, self) ← self.nextBytes 8
  return self.put m (leBytes 8 data.toNat)

/-- The first byte and the number behind it, from index `m` on, and how many bytes they are. -/
def putVarUint (m data : ℕ) : ℕ × ZeroCopySink :=
  if data < 0xFD then (1, self.put m [UInt8.ofNat data])
  else if data ≤ 0xFFFF then (3, (self.put m [0xFD]).put (m + 1) (leBytes 2 data))
  else if data ≤ 0xFFFFFFFF then (5, (self.put m [0xFE]).put (m + 1) (leBytes 4 data))
  else (9, (self.put m [0xFF]).put (m + 1) (leBytes 8 data))

def writeVarUint (data : ℕ) : Outcome (ℕ × ZeroCopySink) := do
  let (m, self) ← self.nextBytes 9
  let (size, self) := self.putVarUint m data
  return (size, self.backUp (9 - size))

def writeVarBytes (data : Bytes) : Outcome (ℕ × ZeroCopySink) := do
  let l := data.length
  let (size, self) ← self.writeVarUint l
  let self ← self.writeBytes data
  return (size + l, self)

def writeHash (hash : Hash) : Outcome ZeroCopySink := self.writeBytes hash.1

/-! ### What is written -/

/-- The bytes `bs` stand behind those of `sink`, in an array that is not larger than it may get for `n` bytes. -/
structure Appended (sink : ZeroCopySink) (bs : Bytes) (n : ℕ) (sink' : ZeroCopySink) : Prop where
  buf : sink'.buf = sink.buf ++ bs
  cap : sink'.cap ≤ 2 * sink.cap + n

variable {sink sink' : ZeroCopySink} {n : ℕ} {junk : Bytes}

theorem tryGrowByReslice_eq_some {r : ℕ × ZeroCopySink} (h : sink.tryGrowByReslice n = some r) :
    ∃ junk, junk.length = n ∧ r.1 = sink.buf.length ∧ Appended sink junk n r.2 := by
  unfold tryGrowByReslice at h
  dsimp only at h
  split at h
  · next hroom =>
    cases h
    have hspare : n ≤ sink.spare.length := by
      rw [cap] at hroom
      omega
    refine ⟨sink.spare.take n, List.length_take_of_le hspare, rfl, rfl, ?_⟩
    simp only [cap, List.length_append, List.length_take, List.length_drop]
    omega
  · cases h

theorem nextBytes_eq_ok (h : 2 * sink.cap + n ≤ maxInt) :
    ∃ sink' junk, sink.nextBytes n = .ok (sink.buf.length, sink') ∧ junk.length = n ∧ Appended sink junk n sink' := by
  unfold nextBytes
  cases hroom : sink.tryGrowByReslice n with
  | some r =>
    obtain ⟨junk, hlen, hindex, happended⟩ := tryGrowByReslice_eq_some hroom
    exact ⟨r.2, junk, by rw [← hindex], hlen, happended⟩
  | none =>
    have hcap : sink.buf.length ≤ sink.cap := Nat.le_add_right _ _
    have hmin : min (sink.buf.length + n - sink.buf.length) (2 * sink.cap + n - sink.buf.length) = n := by omega
    dsimp only
    rw [grow, hroom]
    dsimp only
    rw [if_neg (by omega)]
    refine ⟨_, List.replicate n 0, rfl, List.length_replicate, ?_, ?_⟩
    · dsimp only
      rw [List.take_append, List.take_of_length_le (by omega), List.take_replicate, hmin]
    · simp only [cap, List.length_take, List.length_drop, List.length_append, List.length_replicate] at hcap ⊢
      omega

theorem Appended.put (bs p : Bytes) (h : Appended sink (bs ++ junk) n sink') (hlen : p.length ≤ junk.length) :
    Appended sink (bs ++ p ++ junk.drop p.length) n (sink'.put (sink.buf.length + bs.length) p) := by
  have hbuf : (sink'.put (sink.buf.length + bs.length) p).buf = sink.buf ++ (bs ++ p ++ junk.drop p.length) := by
    have htake : (sink.buf ++ (bs ++ junk)).take (sink.buf.length + bs.length) = sink.buf ++ bs := by
      rw [← List.append_assoc, ← List.length_append, List.take_left]
    have hdrop : (sink.buf ++ (bs ++ junk)).drop (sink.buf.length + bs.length + p.length) = junk.drop p.length := by
      rw [← List.drop_drop, ← List.append_assoc, ← List.length_append, List.drop_left]
    rw [ZeroCopySink.put, h.buf]
    dsimp only
    rw [htake, hdrop, List.append_assoc, List.append_assoc, List.append_assoc]
  have hsame : (sink'.put (sink.buf.length + bs.length) p).buf.length = sink'.buf.length := by
    rw [hbuf, h.buf]
    simp only [List.length_append, List.length_drop]
    omega
  refine ⟨hbuf, ?_⟩
  have hcap := h.cap
  rw [ZeroCopySink.cap, hsame]
  exact hcap

theorem Appended.backUp {bs : Bytes} (h : Appended sink (bs ++ junk) n sink') :
    Appended sink bs n (sink'.backUp junk.length) := by
  have hlen : sink'.buf.length - junk.length = (sink.buf ++ bs).length := by
    rw [h.buf, ← List.append_assoc, List.length_append, Nat.add_sub_cancel]
  constructor
  · rw [ZeroCopySink.backUp]
    dsimp only
    rw [hlen, h.buf, ← List.append_assoc, List.take_left]
  · have hcap := h.cap
    rw [ZeroCopySink.cap] at hcap
    rw [ZeroCopySink.cap, ZeroCopySink.backUp]
    simp only [List.length_append, List.length_take, List.length_drop]
    omega

theorem writeBytes_eq_ok (sink : ZeroCopySink) (p : Bytes) (h : 2 * sink.cap + p.length ≤ maxInt) :
    ∃ sink', sink.writeBytes p = .ok sink' ∧ Appended sink p p.length sink' := by
  obtain ⟨sink', junk, hnext, hlen, happended⟩ := nextBytes_eq_ok h
  have hput := Appended.put [] p happended hlen.ge
  rw [← hlen, List.drop_length, List.append_nil, hlen] at hput
  refine ⟨_, ?_, hput⟩
  rw [writeBytes, hnext]
  rfl

theorem writeUint64_eq_ok (sink : ZeroCopySink) (data : UInt64) (h : 2 * sink.cap + 8 ≤ maxInt) :
    ∃ sink', sink.writeUint64 data = .ok sink' ∧ Appended sink (leBytes 8 data.toNat) 8 sink' :=
  writeBytes_eq_ok sink (leBytes 8 data.toNat) h

theorem Appended.putVarUint (data : ℕ) (h : Appended sink junk n sink') (hjunk : junk.length = 9) :
    ∃ rest, rest.length = 9 - (sink'.putVarUint sink.buf.length data).1 ∧
      (sink'.putVarUint sink.buf.length data).1 = (varUintBytes data).length ∧
      Appended sink (varUintBytes data ++ rest) n (sink'.putVarUint sink.buf.length data).2 := by
  have hmarked {marker : UInt8} {k : ℕ} (hk : k ≤ 8) : Appended sink (marker :: leBytes k data ++ junk.drop (k + 1)) n
        ((sink'.put sink.buf.length [marker]).put (sink.buf.length + 1) (leBytes k data)) := by
    have hfirst := Appended.put [] [marker] h (by simp [hjunk])
    have hsecond := Appended.put _ (leBytes k data) hfirst (by simp [hjunk]; omega)
    simpa using hsecond
  unfold ZeroCopySink.putVarUint varUintBytes
  split_ifs with h1 h2 h3
  · have hfirst := Appended.put [] [UInt8.ofNat data] h (by simp [hjunk])
    exact ⟨junk.drop 1, by simp [hjunk], rfl, by simpa using hfirst⟩
  · exact ⟨junk.drop 3, by simp [hjunk], by simp, hmarked (by norm_num)⟩
  · exact ⟨junk.drop 5, by simp [hjunk], by simp, hmarked (by norm_num)⟩
  · exact ⟨junk.drop 9, by simp [hjunk], by simp, hmarked (by norm_num)⟩

theorem writeVarUint_eq_ok (sink : ZeroCopySink) (data : ℕ) (h : 2 * sink.cap + 9 ≤ maxInt) :
    ∃ sink', sink.writeVarUint data = .ok ((varUintBytes data).length, sink') ∧
      Appended sink (varUintBytes data) 9 sink' := by
  obtain ⟨sink', junk, hnext, hlen, happended⟩ := nextBytes_eq_ok h
  obtain ⟨rest, hrest, hsize, hput⟩ := happended.putVarUint data hlen
  refine ⟨_, ?_, hput.backUp⟩
  rw [writeVarUint, hnext, Outcome.ok_bind, hrest, ← hsize]
  rfl

theorem writeVarBytes_eq_ok (sink : ZeroCopySink) (data : Bytes) (h : 4 * sink.cap + 18 + data.length ≤ maxInt) :
    ∃ sink', sink.writeVarBytes data = .ok ((varBytes data).length, sink') ∧
      sink'.buf = sink.buf ++ varBytes data ∧ sink'.cap ≤ 4 * sink.cap + 18 + data.length := by
  obtain ⟨first, hfirst, hnumber⟩ := writeVarUint_eq_ok sink data.length (by omega)
  have hcap := hnumber.cap
  obtain ⟨second, hsecond, hdata⟩ := writeBytes_eq_ok first data (by omega)
  refine ⟨second, ?_, ?_, hdata.cap.trans (by omega)⟩
  · rw [writeVarBytes, hfirst, varBytes, List.length_append]
    dsimp only
    rw [Outcome.ok_bind]
    dsimp only
    rw [hsecond]
    rfl
  · rw [hdata.buf, hnumber.buf, varBytes, List.append_assoc]

end ZeroCopySink
/-! ## Sources -/

structure ZeroCopySource where
  s : Bytes
  off : ℕ
  slice : s.length < 2 ^ 63
  inside : off ≤ s.length

def safeAdd (x y : ℕ) : ℕ × Bool := ((x + y) % 2 ^ 64, y > 2 ^ 64 - 1 - x)

namespace ZeroCopySource
open Storage.Source (VarResult getVarUintSize)

def new (b : Bytes) (h : b.length < 2 ^ 63) : ZeroCopySource := { s := b, off := 0, slice := h, inside := Nat.zero_le _ }

variable (self : ZeroCopySource)

def unread : Storage.Source := self.s.drop self.off

def nextEnd (n : ℕ) : ℕ × Bool :=
  let m := self.s.length
  let (e, overflow) := safeAdd self.off n
  if overflow || e > m then (m, true) else (e, false)

theorem nextEnd_le (n : ℕ) : (self.nextEnd n).1 ≤ self.s.length := by
  unfold nextEnd
  dsimp only
  split
  · exact le_rfl
  · next h =>
    simp only [Bool.or_eq_true, decide_eq_true_eq, not_or, not_lt] at h
    exact h.2

def nextBytes (n : ℕ) : Bytes × Bool × ZeroCopySource :=
  let e := self.nextEnd n
  ((self.s.take e.1).drop self.off, e.2, { self with off := e.1, inside := self.nextEnd_le n })

def nextByte : UInt8 × Bool × ZeroCopySource :=
  if h : self.off < self.s.length then (self.s[self.off], false, { self with off := self.off + 1, inside := h })
  else (0, true, self)

def nextUint (k : ℕ) (self : ZeroCopySource) : ℕ × Bool × ZeroCopySource :=
  match self.nextBytes k with
  | (_, true, self) => (0, true, self)
  | (buf, false, self) => (ofLeBytes buf, false, self)

def nextVarUintOf (k : ℕ) (self : ZeroCopySource) : VarResult ℕ × ZeroCopySource :=
  match nextUint k self with
  | (_, true, self) => (⟨0, 0, false, true⟩, self)
  | (data, false, self) => (⟨data, k + 1, k + 1 != getVarUintSize data, false⟩, self)

variable (self : ZeroCopySource)

def nextVarUint : VarResult ℕ × ZeroCopySource :=
  match self.nextByte with
  | (_, true, self) => (⟨0, 0, false, true⟩, self)
  | (0xFD, false, self) => nextVarUintOf 2 self
  | (0xFE, false, self) => nextVarUintOf 4 self
  | (0xFF, false, self) => nextVarUintOf 8 self
  | (fb, false, self) => (⟨fb.toNat, 1, 1 != getVarUintSize fb.toNat, false⟩, self)

def nextVarBytes : VarResult Bytes × ZeroCopySource :=
  match self.nextVarUint with
  | (r, self) =>
    let size := (r.size + r.data) % 2 ^ 64
    if r.data > 0 then
      match self.nextBytes r.data with
      | (data, eof, self) => (⟨data, size, r.irregular, eof⟩, self)
    else (⟨[], size, r.irregular, r.eof⟩, self)

def readVarBytes : Outcome Bytes × ZeroCopySource :=
  match self.nextVarBytes with
  | (r, self) =>
    if r.irregular then (.err "irregular data", self)
    else if r.eof then (.err "unexpected EOF", self)
    else (.ok r.data, self)

def nextHash : Hash × Bool × ZeroCopySource :=
  match self.nextBytes 32 with
  | (_, true, self) => (Hash.zero, true, self)
  | (buf, false, self) => (bytesToHash buf, false, self)

/-! ### What is read

Each reader gives what the reader of the unread bytes gives, and leaves the slice as it is. -/

/-- The results agree, and what is left of the source is what is left of its unread bytes. -/
def Agrees {α : Type} (source : ZeroCopySource) (x : α × ZeroCopySource) (y : α × Storage.Source) : Prop :=
  x.1 = y.1 ∧ x.2.unread = y.2 ∧ x.2.s = source.s

def AgreesEof {α : Type} (source : ZeroCopySource) (x : α × Bool × ZeroCopySource) (y : α × Bool × Storage.Source) : Prop :=
  x.1 = y.1 ∧ x.2.1 = y.2.1 ∧ x.2.2.unread = y.2.2 ∧ x.2.2.s = source.s

variable (source : ZeroCopySource)

theorem length_unread : source.unread.length = source.s.length - source.off := List.length_drop

theorem nextEnd_eq (n : ℕ) :
    source.nextEnd n = (min (source.off + n) source.s.length, decide (n > source.unread.length)) := by
  have hslice := source.slice
  have hinside := source.inside
  rw [length_unread]
  unfold nextEnd safeAdd
  dsimp only
  by_cases heof : n > source.s.length - source.off
  · have hcond : (decide (n > 2 ^ 64 - 1 - source.off) || decide ((source.off + n) % 2 ^ 64 > source.s.length)) = true := by
      rw [Bool.or_eq_true, decide_eq_true_eq, decide_eq_true_eq]
      omega
    rw [if_pos hcond, min_eq_right (by omega), decide_eq_true heof]
  · have hcond : ¬(decide (n > 2 ^ 64 - 1 - source.off) || decide ((source.off + n) % 2 ^ 64 > source.s.length)) = true := by
      rw [Bool.or_eq_true, decide_eq_true_eq, decide_eq_true_eq]
      omega
    rw [if_neg hcond, min_eq_left (by omega), decide_eq_false heof, Nat.mod_eq_of_lt (by omega)]

theorem nextBytes_agrees (n : ℕ) : AgreesEof source (source.nextBytes n) (Source.nextBytes source.unread n) := by
  have hinside := source.inside
  unfold nextBytes Source.nextBytes
  refine ⟨?_, ?_, ?_, rfl⟩
  · dsimp only
    rw [nextEnd_eq, unread, List.drop_take, List.take_eq_take_iff, List.length_drop]
    omega
  · dsimp only
    rw [nextEnd_eq]
  · dsimp only [unread]
    rw [nextEnd_eq, List.drop_drop]
    by_cases hle : source.off + n ≤ source.s.length
    · rw [min_eq_left hle]
    · rw [min_eq_right (by omega), List.drop_length, List.drop_of_length_le (by omega)]

theorem nextByte_agrees : AgreesEof source source.nextByte (Source.nextByte source.unread) := by
  unfold nextByte
  split
  · next h =>
    have hunread : source.unread = source.s[source.off] :: source.s.drop (source.off + 1) :=
      List.drop_eq_getElem_cons h
    rw [hunread]
    exact ⟨rfl, rfl, rfl, rfl⟩
  · next h =>
    have hunread : source.unread = [] := List.drop_of_length_le (by omega)
    rw [hunread]
    exact ⟨rfl, rfl, hunread, rfl⟩

theorem nextUint_agrees (k : ℕ) : AgreesEof source (source.nextUint k) (Source.nextUint k source.unread) := by
  have h := source.nextBytes_agrees k
  unfold nextUint Source.nextUint
  generalize source.nextBytes k = x at h
  generalize Source.nextBytes source.unread k = y at h
  obtain ⟨buf, eof, source'⟩ := x
  obtain ⟨buf', eof', rest⟩ := y
  obtain ⟨rfl, rfl, hrest, hs⟩ := h
  cases eof with
  | true | false => exact ⟨rfl, rfl, hrest, hs⟩

theorem nextHash_agrees : AgreesEof source source.nextHash (Source.nextHash source.unread) := by
  have h := source.nextBytes_agrees 32
  unfold nextHash Source.nextHash
  generalize source.nextBytes 32 = x at h
  generalize Source.nextBytes source.unread 32 = y at h
  obtain ⟨buf, eof, source'⟩ := x
  obtain ⟨buf', eof', rest⟩ := y
  obtain ⟨rfl, rfl, hrest, hs⟩ := h
  cases eof with
  | true | false => exact ⟨rfl, rfl, hrest, hs⟩

theorem nextVarUintOf_agrees (k : ℕ) :
    Agrees source (source.nextVarUintOf k) (Source.nextVarUintOf k source.unread) := by
  have h := source.nextUint_agrees k
  unfold nextVarUintOf Source.nextVarUintOf
  generalize source.nextUint k = x at h
  generalize Source.nextUint k source.unread = y at h
  obtain ⟨data, eof, source'⟩ := x
  obtain ⟨data', eof', rest⟩ := y
  obtain ⟨rfl, rfl, hrest, hs⟩ := h
  cases eof with
  | true | false => exact ⟨rfl, hrest, hs⟩

theorem nextVarUint_agrees : Agrees source source.nextVarUint (Source.nextVarUint source.unread) := by
  have h := source.nextByte_agrees
  unfold nextVarUint Source.nextVarUint
  generalize source.nextByte = x at h
  generalize Source.nextByte source.unread = y at h
  obtain ⟨fb, eof, source'⟩ := x
  obtain ⟨fb', eof', rest⟩ := y
  obtain ⟨rfl, rfl, hrest, hs⟩ := h
  have htail (k : ℕ) : Agrees source (source'.nextVarUintOf k) (Source.nextVarUintOf k rest) := by
    have hk := source'.nextVarUintOf_agrees k
    rw [hrest] at hk
    exact ⟨hk.1, hk.2.1, hk.2.2.trans hs⟩
  cases eof with
  | true => exact ⟨rfl, hrest, hs⟩
  | false =>
    dsimp only
    split
    · next heq => cases heq
    · next heq =>
      cases heq
      exact htail 2
    · next heq =>
      cases heq
      exact htail 4
    · next heq =>
      cases heq
      exact htail 8
    · next hFD hFE hFF heq =>
      -- no marker on the other side either
      cases heq
      split
      · next heq => cases heq
      · next heq =>
        cases heq
        exact (hFD rfl).elim
      · next heq =>
        cases heq
        exact (hFE rfl).elim
      · next heq =>
        cases heq
        exact (hFF rfl).elim
      · next heq =>
        cases heq
        exact ⟨rfl, hrest, hs⟩

theorem nextVarBytes_agrees : (source.nextVarBytes.1.data = (Source.nextVarBytes source.unread).1.data ∧
      source.nextVarBytes.1.irregular = (Source.nextVarBytes source.unread).1.irregular ∧
      source.nextVarBytes.1.eof = (Source.nextVarBytes source.unread).1.eof) ∧
    source.nextVarBytes.2.unread = (Source.nextVarBytes source.unread).2 ∧
    source.nextVarBytes.2.s = source.s := by
  have h := source.nextVarUint_agrees
  unfold nextVarBytes Source.nextVarBytes
  generalize source.nextVarUint = x at h
  generalize Source.nextVarUint source.unread = y at h
  obtain ⟨r, source'⟩ := x
  obtain ⟨r', rest⟩ := y
  obtain ⟨rfl, hrest, hs⟩ := h
  dsimp only at hrest hs ⊢
  split
  · have hbytes := source'.nextBytes_agrees r.data
    rw [hrest] at hbytes
    obtain ⟨hdata, heof, hunread, hs'⟩ := hbytes
    exact ⟨⟨hdata, rfl, heof⟩, hunread, hs'.trans hs⟩
  · exact ⟨⟨rfl, rfl, rfl⟩, hrest, hs⟩

theorem readVarBytes_agrees : Agrees source source.readVarBytes (Source.readVarBytes source.unread) := by
  have h := source.nextVarBytes_agrees
  unfold readVarBytes Source.readVarBytes
  generalize source.nextVarBytes = x at h
  generalize Source.nextVarBytes source.unread = y at h
  obtain ⟨⟨data, size, irregular, eof⟩, source'⟩ := x
  obtain ⟨⟨data', size', irregular', eof'⟩, rest⟩ := y
  obtain ⟨⟨rfl, rfl, rfl⟩, hrest, hs⟩ := h
  dsimp only
  split
  · exact ⟨rfl, hrest, hs⟩
  · split
    · exact ⟨rfl, hrest, hs⟩
    · exact ⟨rfl, hrest, hs⟩

end ZeroCopySource

end Web3.Codec
