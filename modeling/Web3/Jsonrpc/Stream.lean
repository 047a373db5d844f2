import Mathlib.Data.Finset.Insert
import Mathlib.Logic.Function.Basic
import Web3.Primitives

/-! # The websocket stream

`stream` of `websocket.go` as a system that takes atomic steps: the callers of `Call` and `Subscribe`, the
server, the reader `listen`, the goroutines it starts for every message, and the timers. A section under a
lock is one step, and so is an operation on a channel. The channel of a call has no buffer, so that a
send in a `select` with a default goes through only if the caller already waits (`resume`).

Requests and results are opaque; `decode` is `json.Unmarshal` into a string. The sequence number does not
wrap. Some fields record what has happened and are read by no step. -/

namespace Web3.Jsonrpc
open Function (update)

/-! ## Messages -/

structure ErrorObject where
  Code : ℤ
  Message : String
  Data : Option Bytes
  deriving DecidableEq

structure Response where
  ID : ℕ
  Result : Bytes
  Error : Option ErrorObject
  deriving DecidableEq

structure Subscription where
  ID : String
  Result : Bytes
  deriving DecidableEq

inductive CallError where
  | errTimeout
  | response (e : ErrorObject)
  deriving DecidableEq

structure AckMessage where
  buf : Bytes
  err : Option CallError
  deriving DecidableEq

def Response.ack (r : Response) : AckMessage :=
  match r.Error with
  | some e => { buf := [], err := some (.response e) }
  | none => { buf := r.Result, err := none }

def timeoutAck : AckMessage := { buf := [], err := some .errTimeout }

theorem Response.ack_ne_timeout (r : Response) : r.ack ≠ timeoutAck := by
  unfold Response.ack timeoutAck
  cases r.Error <;> simp

/-- What `listen` reads; `malformed` is also a failed read. -/
inductive Message where
  | response (r : Response)
  | subscription (sub : Subscription)
  | other
  | malformed
  deriving DecidableEq

/-! ## The state -/

inductive Phase where
  | absent | numbered | registered | armed | written | waiting
  | returned (msg : AckMessage)
  | failed
  deriving DecidableEq

def Phase.sent : Phase → Bool
  | written | waiting | returned _ => true
  | _ => false

def Phase.over : Phase → Bool
  | returned _ | failed => true
  | _ => false

inductive Timer where
  | off | running | fired
  deriving DecidableEq

inductive Routine where
  | handleMsg (r : Response)
  -- the send of a callback, or of the timer
  | ack (n : ℕ) (msg : AckMessage)
  -- whether the message came before the subscription was cancelled
  | handleSubscription (live : Bool) (sub : Subscription)
  -- the callback that the `Subscribe` with call `n` was given
  | callback (n : ℕ) (sub : Subscription)
  deriving DecidableEq

structure Stream where
  seq : ℕ
  phase : ℕ → Phase
  timer : ℕ → Timer
  handler : Finset ℕ
  subs : String → Option ℕ
  -- held by the call of an `unsubscribe`
  subsLock : Option ℕ
  listening : Bool
  wire : List Message
  -- in the order in which they were started
  routines : List Routine
  -- calls made by `Subscribe`, and those whose callback has been set
  subscribes : Finset ℕ
  subscribed : Finset ℕ
  -- what has happened
  answers : List Response
  handled : List Response
  cancelled : Finset String
  arrived : List Subscription
  invoked : List (ℕ × Subscription)

def newStream : Stream where
  seq := 0
  phase _ := .absent
  timer _ := .off
  handler := ∅
  subs _ := none
  subsLock := none
  listening := true
  wire := []
  routines := []
  subscribes := ∅
  subscribed := ∅
  answers := []
  handled := []
  cancelled := ∅
  arrived := []
  invoked := []

inductive Action where
  /-- The next number for a call, made by `Subscribe` or not. -/
  | call (subscribe : Bool)
  | setHandler (n : ℕ)
  | startTimer (n : ℕ)
  | write (n : ℕ)
  /-- The request cannot be encoded or written. -/
  | fail (n : ℕ)
  /-- The caller goes into its receive. -/
  | wait (n : ℕ)
  /-- The server sends a message. -/
  | send (m : Message)
  | listen
  /-- The timer's function, up to its send. -/
  | expire (n : ℕ)
  /-- The next section of a goroutine. -/
  | run (i : ℕ)
  | setSubscription (n : ℕ)
  /-- `unsubscribe` up to its call. -/
  | unsubscribe (n : ℕ)
  /-- The end of `unsubscribe`. -/
  | unlock

namespace Stream
variable (decode : Bytes → Option String)

variable (s : Stream)

/-- The identifier that a call of `eth_subscribe` has been answered with. -/
def openedBy (r : Response) : Option String :=
  if r.ID ∈ s.subscribes ∧ r.Error = none then decode r.Result else none

/-- The server answers each request once, gives every subscription an identifier of its own, and
notifies of open subscriptions only. -/
def MaySend : Message → Prop
  | .response r => (s.phase r.ID).sent ∧ ∀ r' ∈ s.answers,
      r'.ID ≠ r.ID ∧ (s.openedBy decode r ≠ none → s.openedBy decode r' ≠ s.openedBy decode r)
  | .subscription sub => ∃ r ∈ s.answers, s.openedBy decode r = some sub.ID
  | .other => True
  | .malformed => True

instance (s : Stream) : (m : Message) → Decidable (s.MaySend decode m)
  | .response _ => inferInstanceAs (Decidable (_ ∧ _))
  | .subscription sub => inferInstanceAs (Decidable (∃ r ∈ s.answers, s.openedBy decode r = some sub.ID))
  | .other | .malformed => inferInstanceAs (Decidable True)

/-- One turn of the loop of `listen`, which starts a goroutine for every message. -/
def receive : Message → Stream
  | .response r => { s with routines := s.routines ++ [.handleMsg r] }
  | .subscription sub =>
    if sub.ID ∈ s.cancelled then { s with routines := s.routines ++ [.handleSubscription false sub] }
    else { s with routines := s.routines ++ [.handleSubscription true sub], arrived := s.arrived ++ [sub] }
  | .other => s
  | .malformed => { s with listening := false }

def resume (before after : List Routine) : Routine → Option Stream
  | .handleMsg r =>
    let handled := if s.timer r.ID = .fired then s.handled else s.handled ++ [r]
    if r.ID ∈ s.handler then
      some { s with handler := s.handler.erase r.ID, handled, routines := before ++ .ack r.ID r.ack :: after }
    else some { s with handled, routines := before ++ after }
  | .ack n msg =>
    -- the default of the select drops the message
    if s.phase n = .waiting then
      some { s with phase := update s.phase n (.returned msg), routines := before ++ after }
    else some { s with routines := before ++ after }
  | .handleSubscription _ sub =>
    if s.subsLock = none then
      match s.subs sub.ID with
      | some n => some { s with routines := before ++ .callback n sub :: after }
      | none => some { s with routines := before ++ after }
    else none
  | .callback n sub => some { s with invoked := s.invoked ++ [(n, sub)], routines := before ++ after }

def advance (n : ℕ) (p q : Phase) : Option Stream :=
  if s.phase n = p then some { s with phase := update s.phase n q } else none

def begin : Stream :=
  { s with seq := s.seq + 1, phase := update s.phase (s.seq + 1) .numbered }

def subscription (n : ℕ) : Option String :=
  match s.phase n with
  | .returned { buf, err := none } => if n ∈ s.subscribes then decode buf else none
  | _ => none

def step : Action → Option Stream
  | .call subscribe =>
    some { s.begin with subscribes := if subscribe then insert (s.seq + 1) s.subscribes else s.subscribes }
  | .setHandler n => (s.advance n .numbered .registered).map fun s => { s with handler := insert n s.handler }
  | .startTimer n =>
    (s.advance n .registered .armed).map fun s => { s with timer := update s.timer n .running }
  | .write n => s.advance n .armed .written
  | .fail n => (s.advance n .numbered .failed).or (s.advance n .armed .failed)
  | .wait n => s.advance n .written .waiting
  | .send m =>
    if s.MaySend decode m then
      some { s with
        wire := s.wire ++ [m]
        answers := match m with
          | .response r => s.answers ++ [r]
          | _ => s.answers }
    else none
  | .listen =>
    match s.wire with
    | m :: wire => if s.listening then some ({ s with wire }.receive m) else none
    | [] => none
  | .expire n =>
    if s.timer n = .running then
      some { s with
        handler := s.handler.erase n
        timer := update s.timer n .fired
        routines := s.routines ++ [.ack n timeoutAck] }
    else none
  | .run i => s.routines[i]?.bind (s.resume (s.routines.take i) (s.routines.drop (i + 1)))
  | .setSubscription n =>
    match s.subscription decode n with
    | some id =>
      if n ∈ s.subscribed ∨ s.subsLock ≠ none then none
      else some { s with subs := update s.subs id (some n), subscribed := insert n s.subscribed }
    | none => none
  | .unsubscribe n =>
    match s.subscription decode n with
    | some id =>
      if n ∉ s.subscribed ∨ s.subsLock ≠ none then none
      else if s.subs id = none then some s
      else some { s.begin with
        subs := update s.subs id none
        cancelled := insert id s.cancelled
        subsLock := some (s.seq + 1) }
    | none => none
  | .unlock =>
    match s.subsLock with
    | some n => if (s.phase n).over then some { s with subsLock := none } else none
    | none => none

/-! ## What a step can do -/

inductive Took (s : Stream) : Action → Stream → Prop
  | call (subscribe : Bool) : Took s (.call subscribe)
      { s.begin with subscribes := if subscribe then insert (s.seq + 1) s.subscribes else s.subscribes }
  | setHandler {n : ℕ} (h : s.phase n = .numbered) : Took s (.setHandler n)
      { s with phase := update s.phase n .registered, handler := insert n s.handler }
  | startTimer {n : ℕ} (h : s.phase n = .registered) : Took s (.startTimer n)
      { s with phase := update s.phase n .armed, timer := update s.timer n .running }
  | write {n : ℕ} (h : s.phase n = .armed) : Took s (.write n)
      { s with phase := update s.phase n .written }
  | fail {n : ℕ} (h : s.phase n = .numbered ∨ s.phase n = .armed) : Took s (.fail n)
      { s with phase := update s.phase n .failed }
  | wait {n : ℕ} (h : s.phase n = .written) : Took s (.wait n)
      { s with phase := update s.phase n .waiting }
  | answer {r : Response} (h : s.MaySend decode (.response r)) : Took s (.send (.response r))
      { s with wire := s.wire ++ [.response r], answers := s.answers ++ [r] }
  | notify {m : Message} (h : s.MaySend decode m) (hm : ∀ r, m ≠ .response r) : Took s (.send m)
      { s with wire := s.wire ++ [m] }
  | listen {m : Message} {wire : List Message} (h : s.wire = m :: wire) (hlistening : s.listening) :
      Took s .listen ({ s with wire }.receive m)
  | expire {n : ℕ} (h : s.timer n = .running) : Took s (.expire n)
      { s with
        handler := s.handler.erase n
        timer := update s.timer n .fired
        routines := s.routines ++ [.ack n timeoutAck] }
  | found {before after : List Routine} {r : Response} (hx : s.routines = before ++ .handleMsg r :: after)
      (h : r.ID ∈ s.handler) : Took s (.run before.length)
      { s with
        handler := s.handler.erase r.ID
        handled := if s.timer r.ID = .fired then s.handled else s.handled ++ [r]
        routines := before ++ .ack r.ID r.ack :: after }
  | missed {before after : List Routine} {r : Response} (hx : s.routines = before ++ .handleMsg r :: after)
      (h : r.ID ∉ s.handler) : Took s (.run before.length)
      { s with
        handled := if s.timer r.ID = .fired then s.handled else s.handled ++ [r]
        routines := before ++ after }
  | deliver {before after : List Routine} {n : ℕ} {msg : AckMessage} (hx : s.routines = before ++ .ack n msg :: after)
      (h : s.phase n = .waiting) : Took s (.run before.length)
      { s with phase := update s.phase n (.returned msg), routines := before ++ after }
  | drop {before after : List Routine} {n : ℕ} {msg : AckMessage} (hx : s.routines = before ++ .ack n msg :: after)
      (h : s.phase n ≠ .waiting) : Took s (.run before.length) { s with routines := before ++ after }
  | lookUp {before after : List Routine} {live : Bool} {sub : Subscription} {n : ℕ}
      (hx : s.routines = before ++ .handleSubscription live sub :: after) (hlock : s.subsLock = none)
      (h : s.subs sub.ID = some n) : Took s (.run before.length)
      { s with routines := before ++ .callback n sub :: after }
  | ignore {before after : List Routine} {live : Bool} {sub : Subscription}
      (hx : s.routines = before ++ .handleSubscription live sub :: after) (hlock : s.subsLock = none)
      (h : s.subs sub.ID = none) : Took s (.run before.length) { s with routines := before ++ after }
  | callBack {before after : List Routine} {n : ℕ} {sub : Subscription}
      (hx : s.routines = before ++ .callback n sub :: after) : Took s (.run before.length)
      { s with invoked := s.invoked ++ [(n, sub)], routines := before ++ after }
  | setSubscription {n : ℕ} {id : String} (h : s.subscription decode n = some id) (hnew : n ∉ s.subscribed)
      (hlock : s.subsLock = none) : Took s (.setSubscription n)
      { s with subs := update s.subs id (some n), subscribed := insert n s.subscribed }
  | notFound {n : ℕ} {id : String} (h : s.subscription decode n = some id) (hset : n ∈ s.subscribed)
      (hnone : s.subs id = none) : Took s (.unsubscribe n) s
  | unsubscribe {n : ℕ} {id : String} (h : s.subscription decode n = some id) (hset : n ∈ s.subscribed)
      (hlock : s.subsLock = none) (hsome : s.subs id ≠ none) : Took s (.unsubscribe n)
      { s.begin with
        subs := update s.subs id none
        cancelled := insert id s.cancelled
        subsLock := some (s.seq + 1) }
  | unlock {n : ℕ} (hlock : s.subsLock = some n) (h : (s.phase n).over) : Took s .unlock { s with subsLock := none }

variable {decode} {s s' : Stream}

theorem advance_eq_some {n : ℕ} {p q : Phase} :
    s.advance n p q = some s' ↔ s.phase n = p ∧ { s with phase := update s.phase n q } = s' := by
  simp [advance]

theorem took_of_resume {before after : List Routine} {x : Routine} (hx : s.routines = before ++ x :: after)
    (h : s.resume before after x = some s') : Took decode s (.run before.length) s' := by
  cases x with
  | handleMsg r =>
    simp only [resume] at h
    split at h
    next hr =>
      cases h
      exact .found hx hr
    next hr =>
      cases h
      exact .missed hx hr
  | ack n msg =>
    simp only [resume] at h
    split at h
    next hn =>
      cases h
      exact .deliver hx hn
    next hn =>
      cases h
      exact .drop hx hn
  | handleSubscription live sub =>
    simp only [resume] at h
    split at h
    next hlock =>
      split at h
      next n hn =>
        cases h
        exact .lookUp hx hlock hn
      next hn =>
        cases h
        exact .ignore hx hlock hn
    · cases h
  | callback n sub =>
    cases h
    exact .callBack hx

/-- **A step is one of these.** -/
theorem took_of_step {a : Action} (h : s.step decode a = some s') : Took decode s a s' := by
  cases a with
  | call subscribe =>
    cases h
    exact .call subscribe
  | setHandler n =>
    obtain ⟨t, ht, rfl⟩ := Option.map_eq_some_iff.mp h
    obtain ⟨hn, rfl⟩ := advance_eq_some.mp ht
    exact .setHandler hn
  | startTimer n =>
    obtain ⟨t, ht, rfl⟩ := Option.map_eq_some_iff.mp h
    obtain ⟨hn, rfl⟩ := advance_eq_some.mp ht
    exact .startTimer hn
  | write n =>
    obtain ⟨hn, rfl⟩ := advance_eq_some.mp h
    exact .write hn
  | fail n =>
    rcases Option.or_eq_some_iff.mp h with h | ⟨-, h⟩
    · obtain ⟨hn, rfl⟩ := advance_eq_some.mp h
      exact .fail (.inl hn)
    · obtain ⟨hn, rfl⟩ := advance_eq_some.mp h
      exact .fail (.inr hn)
  | wait n =>
    obtain ⟨hn, rfl⟩ := advance_eq_some.mp h
    exact .wait hn
  | send m =>
    simp only [step, Option.ite_none_right_eq_some, Option.some.injEq] at h
    obtain ⟨hmay, rfl⟩ := h
    cases m with
    | response r => exact .answer hmay
    | subscription | other | malformed => exact .notify hmay nofun
  | listen =>
    simp only [step] at h
    split at h
    next m wire hwire =>
      split at h
      next hlistening =>
        cases h
        exact .listen hwire hlistening
      · cases h
    · cases h
  | expire n =>
    simp only [step, Option.ite_none_right_eq_some, Option.some.injEq] at h
    obtain ⟨hn, rfl⟩ := h
    exact .expire hn
  | run i =>
    obtain ⟨x, hx, hresume⟩ := Option.bind_eq_some_iff.mp h
    obtain ⟨hi, rfl⟩ := List.getElem?_eq_some_iff.mp hx
    have htook : Took decode s (.run (s.routines.take i).length) s' := took_of_resume (by simp) hresume
    rwa [List.length_take_of_le hi.le] at htook
  | setSubscription n =>
    simp only [step] at h
    split at h
    next id hid =>
      split at h
      · cases h
      next hnot =>
        cases h
        rw [not_or, not_not] at hnot
        exact .setSubscription hid hnot.1 hnot.2
    · cases h
  | unsubscribe n =>
    simp only [step] at h
    split at h
    next id hid =>
      split at h
      · cases h
      next hnot =>
        rw [not_or, not_not, not_not] at hnot
        split at h
        next hnone =>
          cases h
          exact .notFound hid hnot.1 hnone
        next hsome =>
          cases h
          exact .unsubscribe hid hnot.1 hnot.2 hsome
    · cases h
  | unlock =>
    simp only [step] at h
    split at h
    next n hlock =>
      split at h
      next hover =>
        cases h
        exact .unlock hlock hover
      · cases h
    · cases h

end Stream
end Web3.Jsonrpc
