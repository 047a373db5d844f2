import Web3.Foundations.Transitions
import Web3.Jsonrpc.Stream

/-! # Answers to calls

`Traced` says where the response of a call can be, in every state of the stream: on the wire, in a
goroutine, or handled. It holds after every step, and it does not say that a handled response reaches its
caller. A caller goes into its receive only after it has written the request, and a callback that runs
before gives its message to nobody (`answer_lost`). With sends that wait for their receivers nothing is
lost (`answered_of_timely`). -/

namespace Web3.Jsonrpc
open Function (update update_apply update_of_ne update_self)

def Phase.rank : Phase → ℕ
  | absent => 0
  | numbered => 1
  | registered => 2
  | armed => 3
  | written => 4
  | waiting => 5
  | returned _ => 6
  | failed => 7

variable {p : Phase}

theorem Phase.rank_of_sent (h : p.sent) : 4 ≤ p.rank ∧ p.rank ≤ 6 := by
  cases p <;> simp_all [sent, rank]

def Message.response? : Message → Option Response
  | response r => some r
  | _ => none

def Routine.response? : Routine → Option Response
  | handleMsg r => some r
  | _ => none

namespace Stream
variable {decode : Bytes → Option String} {s s' : Stream}

def transit (s : Stream) : List Response :=
  s.wire.filterMap Message.response? ++ s.routines.filterMap Routine.response?

/-- Where responses and timeouts can be, in every state. -/
structure Traced (s : Stream) : Prop where
  fresh : ∀ n, s.seq < n → s.phase n = .absent
  timer : ∀ n, s.timer n ≠ .off → 3 ≤ (s.phase n).rank
  expired : ∀ n, s.timer n = .fired → n ∉ s.handler
  sent : ∀ r ∈ s.answers, (s.phase r.ID).sent
  known : ∀ r, r ∈ s.handled ∨ r ∈ s.transit → r ∈ s.answers
  once : ∀ n, s.handled.countP (·.ID = n) + s.transit.countP (·.ID = n) ≤ 1
  present : ∀ n, 2 ≤ (s.phase n).rank → (s.phase n).rank ≤ 6 → s.timer n ≠ .fired →
    (∀ r ∈ s.handled, r.ID ≠ n) → n ∈ s.handler
  acks : ∀ n msg, .ack n msg ∈ s.routines →
    (∃ r ∈ s.handled, r.ID = n ∧ msg = r.ack) ∨ msg = timeoutAck ∧ s.timer n = .fired
  returned : ∀ n msg, s.phase n = .returned msg →
    (∃ r ∈ s.answers, r.ID = n ∧ msg = r.ack) ∨ msg = timeoutAck ∧ s.timer n = .fired

/-- The calls, their timers and handlers, and their answers are as before. -/
structure SameCalls (s s' : Stream) : Prop where
  seq : s'.seq = s.seq
  phase : s'.phase = s.phase
  timer : s'.timer = s.timer
  handler : s'.handler = s.handler
  answers : s'.answers = s.answers
  handled : s'.handled = s.handled

variable {n : ℕ} {before after : List Routine} {msg : AckMessage}

theorem receive_spec (s : Stream) (m : Message) : ∃ new, (s.receive m).routines = s.routines ++ new ∧
    new.filterMap Routine.response? = m.response?.toList ∧ (∀ y ∈ new, ∀ n msg, y ≠ .ack n msg) ∧
    SameCalls s (s.receive m) ∧ (s.receive m).wire = s.wire := by
  cases m with
  | response r => exact ⟨[.handleMsg r], rfl, rfl, by simp, ⟨rfl, rfl, rfl, rfl, rfl, rfl⟩, rfl⟩
  | subscription sub =>
    simp only [receive]
    split
    · exact ⟨[.handleSubscription false sub], rfl, rfl, by simp, ⟨rfl, rfl, rfl, rfl, rfl, rfl⟩, rfl⟩
    · exact ⟨[.handleSubscription true sub], rfl, rfl, by simp, ⟨rfl, rfl, rfl, rfl, rfl, rfl⟩, rfl⟩
  | other | malformed => exact ⟨[], (List.append_nil _).symm, rfl, by simp, ⟨rfl, rfl, rfl, rfl, rfl, rfl⟩, rfl⟩

namespace Traced

section
variable (h : Traced s)
include h

theorem le_seq (hn : s.phase n ≠ .absent) : n ≤ s.seq := by
  by_contra hlt
  exact hn (h.fresh n (by omega))

theorem advance {q : Phase} (hp : s.phase n = p) (hle : p.rank ≤ q.rank)
    (hpos : 0 < p.rank) (hreturned : q.rank ≠ 6) (hsent : p.sent → q.sent)
    (hset : q.rank ≤ 6 → 2 ≤ p.rank) : Traced { s with phase := update s.phase n q } where
  fresh m hm := by
    have hn : n ≤ s.seq := h.le_seq fun h0 => by rw [← hp, h0] at hpos; exact absurd rfl hpos.ne
    grind [update_apply, h.fresh m]
  timer m hm := by
    have := h.timer m hm
    grind [update_apply]
  expired := h.expired
  sent r hr := by grind [update_apply, h.sent r hr]
  known := h.known
  once := h.once
  present m := by grind [update_apply, h.present m]
  acks := h.acks
  returned m msg hm := by
    have := h.returned m msg
    grind [update_apply, Phase.rank]

theorem begin : Traced s.begin where
  fresh m hm := by
    unfold Stream.begin at hm ⊢
    grind [update_apply, h.fresh m]
  timer m hm := by
    have := h.timer m hm
    have := h.fresh (s.seq + 1) (Nat.lt_succ_self _)
    unfold Stream.begin
    grind [update_apply, Phase.rank]
  expired := h.expired
  sent r hr := by
    have := h.sent r hr
    have := h.fresh (s.seq + 1) (Nat.lt_succ_self _)
    unfold Stream.begin
    grind [update_apply, Phase.sent]
  known := h.known
  once := h.once
  present m := by
    unfold Stream.begin
    grind [update_apply, h.present m, Phase.rank]
  acks := h.acks
  returned m msg hm := by
    have := h.returned m msg
    unfold Stream.begin at hm ⊢
    grind [update_apply]

theorem setHandler (hn : s.phase n = .numbered) :
    Traced { s with phase := update s.phase n .registered, handler := insert n s.handler } where
  fresh m hm := by
    have := h.le_seq (n := n) (by simp [hn])
    grind [update_apply, h.fresh m]
  timer m hm := by
    have := h.timer m hm
    grind [update_apply, Phase.rank]
  expired m hm := by
    have := h.timer m
    have := h.expired m hm
    grind [Phase.rank]
  sent r hr := by grind [update_apply, h.sent r hr, Phase.sent]
  known := h.known
  once := h.once
  present m := by grind [update_apply, h.present m]
  acks := h.acks
  returned m msg hm := by
    have := h.returned m msg
    grind [update_apply]

theorem startTimer (hn : s.phase n = .registered) :
    Traced { s with phase := update s.phase n .armed, timer := update s.timer n .running } where
  fresh m hm := by
    have := h.le_seq (n := n) (by simp [hn])
    grind [update_apply, h.fresh m]
  timer m := by
    have := h.timer m
    grind [update_apply, Phase.rank]
  expired m := by
    have := h.expired m
    grind [update_apply]
  sent r hr := by grind [update_apply, h.sent r hr, Phase.sent]
  known := h.known
  once := h.once
  present m := by
    have := h.present m
    have := h.timer m
    grind [update_apply, Phase.rank]
  acks m msg hm := by
    have := h.acks m msg hm
    have := h.timer m
    grind [update_apply, Phase.rank]
  returned m msg := by
    have := h.returned m msg
    grind [update_apply]

theorem moved (hs : SameCalls s s') (hmem : ∀ r ∈ s'.transit, r ∈ s.transit)
    (hcount : ∀ n, s'.transit.countP (·.ID = n) ≤ s.transit.countP (·.ID = n))
    (hacks : ∀ n msg, .ack n msg ∈ s'.routines → .ack n msg ∈ s.routines) : Traced s' where
  fresh := by rw [hs.seq, hs.phase]; exact h.fresh
  timer := by rw [hs.timer, hs.phase]; exact h.timer
  expired := by rw [hs.timer, hs.handler]; exact h.expired
  sent := by rw [hs.answers, hs.phase]; exact h.sent
  known r hr := by
    rw [hs.handled] at hr
    rw [hs.answers]
    exact h.known r (hr.imp_right (hmem r))
  once n := by
    have := h.once n
    have := hcount n
    rw [hs.handled]
    omega
  present := by rw [hs.phase, hs.timer, hs.handled, hs.handler]; exact h.present
  acks n msg hn := by
    rw [hs.handled, hs.timer]
    exact h.acks n msg (hacks n msg hn)
  returned := by rw [hs.phase, hs.answers, hs.timer]; exact h.returned

end

variable {r : Response}

section
variable (h : Traced s)
include h

theorem send_response (hr : (s.phase r.ID).sent) (hnew : ∀ r' ∈ s.answers, r'.ID ≠ r.ID) :
    Traced { s with wire := s.wire ++ [.response r], answers := s.answers ++ [r] } where
  fresh := h.fresh
  timer := h.timer
  expired := h.expired
  sent r' hr' := by
    rcases List.mem_append.mp hr' with hr' | hr'
    · exact h.sent r' hr'
    · rwa [List.mem_singleton.mp hr']
  known r' hr' := by
    have := h.known r'
    simp only [transit, List.filterMap_append, List.mem_append, List.filterMap_cons, Message.response?] at hr' this ⊢
    grind
  once n := by
    have hnone : ∀ l : List Response, (∀ r' ∈ l, r' ∈ s.answers) → l.countP (·.ID = r.ID) = 0 := by
      intro l hl
      rw [List.countP_eq_zero]
      intro r' hr'
      simpa using hnew r' (hl r' hr')
    have hhandled := hnone s.handled fun r' hr' => h.known r' (.inl hr')
    have htransit := hnone s.transit fun r' hr' => h.known r' (.inr hr')
    have := h.once n
    simp only [transit, List.filterMap_append, List.countP_append, List.filterMap_cons, Message.response?,
      List.filterMap_nil, List.countP_cons, List.countP_nil, decide_eq_true_eq] at this htransit ⊢
    split
    next hn =>
      subst hn
      omega
    next hn => omega
  present := h.present
  acks := h.acks
  returned n msg hn := by
    rcases h.returned n msg hn with ⟨r', hr', hid⟩ | htimeout
    · exact .inl ⟨r', List.mem_append_left _ hr', hid⟩
    · exact .inr htimeout

theorem expire (hn : s.timer n = .running) : Traced { s with
      handler := s.handler.erase n
      timer := update s.timer n .fired
      routines := s.routines ++ [.ack n timeoutAck] } where
  fresh := h.fresh
  timer m := by
    have := h.timer m
    grind [update_apply]
  expired m := by
    have := h.expired m
    grind [update_apply]
  sent := h.sent
  known r hr := by
    refine h.known r ?_
    simpa [transit, Routine.response?] using hr
  once m := by
    have := h.once m
    simp only [transit, List.filterMap_append, List.filterMap_cons, Routine.response?, List.filterMap_nil,
      List.append_nil] at this ⊢
    exact this
  present m := by
    have := h.present m
    grind [update_apply]
  acks m msg hm := by
    have := h.acks m msg
    grind [update_apply]
  returned m msg := by
    have := h.returned m msg
    grind [update_apply]

theorem listen {m : Message} {wire : List Message} (hwire : s.wire = m :: wire) :
    Traced ({ s with wire }.receive m) := by
  obtain ⟨new, hroutines, hnew, hacks, hsame, hwire'⟩ := receive_spec { s with wire } m
  have htransit : s.transit = m.response?.toList ++
      (wire.filterMap Message.response? ++ s.routines.filterMap Routine.response?) := by
    rw [transit, hwire, List.filterMap_cons]
    cases m.response? <;> rfl
  have htransit' : ({ s with wire }.receive m).transit = wire.filterMap Message.response? ++
      (s.routines.filterMap Routine.response? ++ m.response?.toList) := by
    rw [transit, hroutines, hwire', List.filterMap_append, hnew]
  refine h.moved ⟨hsame.seq, hsame.phase, hsame.timer, hsame.handler, hsame.answers, hsame.handled⟩
    (fun r hr => ?_) (fun n => ?_) fun n msg hn => ?_
  · rw [htransit'] at hr
    rw [htransit]
    simp only [List.mem_append] at hr ⊢
    tauto
  · rw [htransit, htransit']
    simp only [List.countP_append]
    omega
  · rw [hroutines] at hn
    exact (List.mem_append.mp hn).resolve_right fun hmem => hacks _ hmem n msg rfl

theorem ended {x : Routine} (hx : s.routines = before ++ x :: after)
    (new : List Routine) (hs : SameCalls s s') (hwire : s'.wire = s.wire)
    (hroutines : s'.routines = before ++ new ++ after)
    (hnew : ∀ y ∈ new, ∃ n sub, y = .callback n sub) : Traced s' := by
  have hnone : new.filterMap Routine.response? = [] := by
    rw [List.filterMap_eq_nil_iff]
    intro y hy
    obtain ⟨n, sub, rfl⟩ := hnew y hy
    rfl
  refine h.moved hs (fun r hr => ?_) (fun n => ?_) fun n msg hn => ?_
  · simp only [transit, hwire, hroutines, hx, List.filterMap_append, hnone, List.mem_append, List.filterMap_cons] at hr ⊢
    grind
  · simp only [transit, hwire, hroutines, hx, List.filterMap_append, hnone, List.countP_append, List.filterMap_cons]
    cases Routine.response? x with
    | none => simp
    | some r =>
      simp only [List.countP_cons, List.countP_nil]
      omega
  · rw [hroutines] at hn
    rw [hx]
    simp only [List.mem_append, List.mem_cons] at hn ⊢
    rcases hn with (hn | hn) | hn
    · exact .inl hn
    · obtain ⟨k, sub, hk⟩ := hnew _ hn
      cases hk
    · exact .inr (.inr hn)

theorem handler_of_transit (hr : r ∈ s.transit) (htimer : s.timer r.ID ≠ .fired) : r.ID ∈ s.handler := by
  have hrank := Phase.rank_of_sent (h.sent r (h.known r (.inr hr)))
  refine h.present r.ID (by omega) hrank.2 htimer fun r' hr' hid => ?_
  have hhandled : 0 < s.handled.countP (·.ID = r.ID) := List.countP_pos_iff.mpr ⟨r', hr', by simpa using hid⟩
  have htransit : 0 < s.transit.countP (·.ID = r.ID) := List.countP_pos_iff.mpr ⟨r, hr, by simp⟩
  have := h.once r.ID
  omega

theorem handleMsg (hx : s.routines = before ++ .handleMsg r :: after) :
    Traced { s with
      handler := s.handler.erase r.ID
      handled := s.handled ++ [r]
      routines := before ++ .ack r.ID r.ack :: after } where
  fresh := h.fresh
  timer := h.timer
  expired n hn := by
    have := h.expired n hn
    grind
  sent := h.sent
  known r' hr' := by
    have := h.known r'
    simp only [transit, hx, List.filterMap_append, List.mem_append, List.filterMap_cons, Routine.response?] at hr' this
    grind
  once n := by
    have := h.once n
    simp only [transit, hx, List.filterMap_append, List.countP_append, List.filterMap_cons, Routine.response?,
      List.countP_cons, List.countP_nil] at this ⊢
    omega
  present n hlow hhigh hn hnot := by
    have := h.present n hlow hhigh hn
    grind
  acks n msg hn := by
    have := h.acks n msg
    simp only [hx, List.mem_append, List.mem_cons] at hn this ⊢
    grind
  returned := h.returned

theorem received (hx : s.routines = before ++ .ack n msg :: after) (hn : s.phase n = .waiting) :
    Traced { s with phase := update s.phase n (.returned msg), routines := before ++ after } where
  fresh m hm := by
    have := h.le_seq (n := n) (by simp [hn])
    grind [update_apply, h.fresh m]
  timer m hm := by
    have := h.timer m hm
    grind [update_apply, Phase.rank]
  expired := h.expired
  sent r hr := by grind [update_apply, h.sent r hr, Phase.sent]
  known r hr := by
    have := h.known r
    simp only [transit, hx, List.filterMap_append, List.mem_append, List.filterMap_cons, Routine.response?] at hr this
    grind
  once m := by
    have := h.once m
    simpa only [transit, hx, List.filterMap_append, List.filterMap_cons, Routine.response?] using this
  present m := by
    have := h.present m
    grind [update_apply, Phase.rank]
  acks m msg' hm := by
    refine h.acks m msg' ?_
    rw [hx]
    simp only [List.mem_append, List.mem_cons] at hm ⊢
    tauto
  returned m msg' hm := by
    have hack := h.acks n msg (by simp [hx])
    have := h.returned m msg'
    have := h.known
    grind [update_apply]

theorem took {a : Action} (ha : Took decode s a s') : Traced s' := by
  cases ha with
  | call subscribe =>
    have hb := h.begin
    exact ⟨hb.fresh, hb.timer, hb.expired, hb.sent, hb.known, hb.once, hb.present, hb.acks, hb.returned⟩
  | setHandler hn => exact h.setHandler hn
  | startTimer hn => exact h.startTimer hn
  | write hn => exact h.advance hn (by decide) (by decide) (by decide) (by decide) (by decide)
  | fail hn =>
    rcases hn with hn | hn
    all_goals exact h.advance hn (by decide) (by decide) (by decide) (by decide) (by decide)
  | wait hn => exact h.advance hn (by decide) (by decide) (by decide) (by decide) (by decide)
  | answer hmay => exact h.send_response hmay.1 fun r' hr' => (hmay.2 r' hr').1
  | @notify m _ hm =>
    have hnone : m.response? = none := by
      cases m with
      | response r => exact absurd rfl (hm r)
      | _ => rfl
    refine h.moved ⟨rfl, rfl, rfl, rfl, rfl, rfl⟩ (fun r hr => ?_) (fun n => ?_) fun n msg hn => hn
    · simpa [transit, hnone] using hr
    · simp [transit, hnone]
  | listen hwire _ => exact h.listen hwire
  | expire hn => exact h.expire hn
  | @found _ _ r hx hr =>
    rw [if_neg fun htimer => h.expired _ htimer hr]
    exact h.handleMsg hx
  | @missed _ _ r hx hr =>
    have hfired : s.timer r.ID = .fired := by
      by_contra htimer
      exact hr (h.handler_of_transit (by simp [transit, hx, Routine.response?]) htimer)
    rw [if_pos hfired]
    exact h.ended hx [] ⟨rfl, rfl, rfl, rfl, rfl, rfl⟩ rfl (by simp) nofun
  | deliver hx hn => exact h.received hx hn
  | drop hx _ => exact h.ended hx [] ⟨rfl, rfl, rfl, rfl, rfl, rfl⟩ rfl (by simp) nofun
  | @lookUp _ _ _ sub n hx _ _ =>
    exact h.ended hx [.callback n sub] ⟨rfl, rfl, rfl, rfl, rfl, rfl⟩ rfl (by simp) (by simp)
  | ignore hx _ _ | callBack hx => exact h.ended hx [] ⟨rfl, rfl, rfl, rfl, rfl, rfl⟩ rfl (by simp) nofun
  | setSubscription _ _ _ =>
    exact ⟨h.fresh, h.timer, h.expired, h.sent, h.known, h.once, h.present, h.acks, h.returned⟩
  | notFound _ _ _ => exact h
  | unsubscribe _ _ _ _ =>
    have hb := h.begin
    exact ⟨hb.fresh, hb.timer, hb.expired, hb.sent, hb.known, hb.once, hb.present, hb.acks, hb.returned⟩
  | unlock _ _ => exact ⟨h.fresh, h.timer, h.expired, h.sent, h.known, h.once, h.present, h.acks, h.returned⟩

end

theorem newStream : Traced newStream where
  fresh _ _ := rfl
  timer _ hn := absurd rfl hn
  expired _ hn := by cases hn
  sent := nofun
  known _ hr := by simp [Jsonrpc.newStream, transit] at hr
  once _ := Nat.zero_le _
  present _ hlow := absurd hlow (by simp [Jsonrpc.newStream, Phase.rank])
  acks := nofun
  returned := nofun

theorem eq_of_handled (h : Traced s) {r' : Response} (hr : r ∈ s.handled) (hr' : r' ∈ s.handled)
    (hid : r'.ID = r.ID) : r' = r := by
  have honce := h.once r.ID
  have hle : (s.handled.filter (·.ID = r.ID)).length ≤ 1 := by
    rw [← List.countP_eq_length_filter]
    omega
  have hmem : r ∈ s.handled.filter (·.ID = r.ID) := List.mem_filter.mpr ⟨hr, by simp⟩
  have hmem' : r' ∈ s.handled.filter (·.ID = r.ID) := List.mem_filter.mpr ⟨hr', by simpa using hid⟩
  generalize s.handled.filter (·.ID = r.ID) = l at hle hmem hmem'
  match l with
  | [] => cases hmem
  | [x] => exact (List.mem_singleton.mp hmem').trans (List.mem_singleton.mp hmem).symm
  | _ :: _ :: l => simp at hle

end Traced

/-! ## Answers arrive -/

/-- What every call that is answered can expect. A response whose `handleMsg` has run before the
timer's function has been received, or is about to be sent. A call that returns does so with its own
response, or with a timeout if the timer's function has run before its response was handled. -/
def Answered (s : Stream) : Prop :=
  (∀ r ∈ s.handled, s.phase r.ID = .returned r.ack ∨ .ack r.ID r.ack ∈ s.routines) ∧
  ∀ n msg, s.phase n = .returned msg → (∃ r ∈ s.answers, r.ID = n ∧ msg = r.ack) ∨
    msg = timeoutAck ∧ s.timer n = .fired ∧ ∀ r ∈ s.handled, r.ID ≠ n

/-- The callback of a response runs when the caller already waits, and the send of the timer does not
reach a caller whose response has been taken from the handlers. -/
def TimelySend (s : Stream) : Routine → Prop
  | .ack n msg =>
    if msg = timeoutAck then s.phase n = .waiting → ∀ r ∈ s.handled, r.ID ≠ n else s.phase n = .waiting
  | .handleMsg _ | .handleSubscription _ _ | .callback _ _ => True

def Timely (s : Stream) : Action → Prop
  | .run i => ∀ x ∈ s.routines[i]?, s.TimelySend x
  | _ => True

instance (s : Stream) : DecidablePred s.TimelySend
  | .ack n msg => inferInstanceAs (Decidable (if msg = timeoutAck then
      s.phase n = .waiting → ∀ r ∈ s.handled, r.ID ≠ n else s.phase n = .waiting))
  | .handleMsg _ | .handleSubscription _ _ | .callback _ _ => inferInstanceAs (Decidable True)

instance (s : Stream) : DecidablePred s.Timely
  | .run i => inferInstanceAs (Decidable (∀ x ∈ s.routines[i]?, s.TimelySend x))
  | .call _ | .setHandler _ | .startTimer _ | .write _ | .fail _ | .wait _ | .send _ | .listen | .expire _
  | .setSubscription _ | .unsubscribe _ | .unlock => inferInstanceAs (Decidable True)

theorem Timely.ack (hx : s.routines = before ++ .ack n msg :: after)
    (h : s.Timely (.run before.length)) :
    if msg = timeoutAck then s.phase n = .waiting → ∀ r ∈ s.handled, r.ID ≠ n else s.phase n = .waiting :=
  h (.ack n msg) (by simp [hx])

structure Delivered (s : Stream) : Prop where
  flight : ∀ r ∈ s.handled, s.phase r.ID = .returned r.ack ∨ .ack r.ID r.ack ∈ s.routines
  timeouts : ∀ n, s.phase n = .returned timeoutAck → ∀ r ∈ s.handled, r.ID ≠ n

namespace Delivered

theorem quiet (h : Delivered s) (hphase : ∀ n msg, s'.phase n = .returned msg ↔ s.phase n = .returned msg)
    (hhandled : s'.handled = s.handled) (hacks : ∀ n msg, .ack n msg ∈ s.routines → .ack n msg ∈ s'.routines) :
    Delivered s' where
  flight r hr := by
    rw [hphase]
    exact (h.flight r (hhandled ▸ hr)).imp_right (hacks _ _)
  timeouts n hn r hr := h.timeouts n ((hphase n _).mp hn) r (hhandled ▸ hr)

theorem advance (h : Delivered s) {q : Phase} (hn : ∀ msg, s.phase n ≠ .returned msg)
    (hq : ∀ msg, q ≠ .returned msg) (hphase : s'.phase = update s.phase n q)
    (hhandled : s'.handled = s.handled) (hroutines : s'.routines = s.routines) : Delivered s' := by
  refine h.quiet (fun m msg => ?_) hhandled fun m msg hm => hroutines ▸ hm
  rw [hphase, update_apply]
  split
  next hmn =>
    subst hmn
    exact iff_of_false (hq msg) (hn msg)
  · exact Iff.rfl

variable {x : Routine}

theorem mem_of_ne {y : Routine} (hx : s.routines = before ++ x :: after) (hy : y ∈ s.routines)
    (hne : y ≠ x) (new : List Routine) : y ∈ before ++ new ++ after := by
  rw [hx, List.mem_append, List.mem_cons] at hy
  simp only [List.mem_append]
  tauto

theorem received (ht : Traced s) (h : Delivered s) (hx : s.routines = before ++ .ack n msg :: after)
    (hn : s.phase n = .waiting) (htimely : s.Timely (.run before.length)) :
    Delivered { s with phase := update s.phase n (.returned msg), routines := before ++ after } := by
  have hack := ht.acks n msg (by simp [hx])
  have hcond := htimely.ack hx
  constructor
  · intro r hr
    have hflight := h.flight r hr
    dsimp only
    by_cases hid : r.ID = n
    · refine .inl ?_
      subst hid
      rw [update_self]
      rcases hack with ⟨r', hr', hid', rfl⟩ | ⟨rfl, -⟩
      · rw [ht.eq_of_handled hr hr' hid']
      · rw [if_pos rfl] at hcond
        exact absurd rfl (hcond hn r hr)
    · rw [update_of_ne hid]
      refine hflight.imp_right fun hmem => ?_
      have hne : Routine.ack r.ID r.ack ≠ .ack n msg := fun he => hid (Routine.ack.inj he).1
      simpa using mem_of_ne hx hmem hne []
  · intro m hm r hr
    by_cases hmn : m = n
    · subst hmn
      dsimp only at hm
      rw [update_self] at hm
      cases hm
      rw [if_pos rfl] at hcond
      exact hcond hn r hr
    · dsimp only at hm
      rw [update_of_ne hmn] at hm
      exact h.timeouts m hm r hr

theorem handled (ht : Traced s) (h : Delivered s) {before after : List Routine} {r : Response}
    (hx : s.routines = before ++ .handleMsg r :: after) (htimer : s.timer r.ID ≠ .fired) :
    Delivered { s with
      handler := s.handler.erase r.ID
      handled := s.handled ++ [r]
      routines := before ++ .ack r.ID r.ack :: after } := by
  constructor
  · intro r' hr'
    rcases List.mem_append.mp hr' with hr' | hr'
    · refine (h.flight r' hr').imp_right fun hmem => ?_
      simpa using mem_of_ne hx hmem nofun [.ack r.ID r.ack]
    · rw [List.mem_singleton.mp hr']
      exact .inr (by simp)
  · intro n hn r' hr'
    rcases List.mem_append.mp hr' with hr' | hr'
    · exact h.timeouts n hn r' hr'
    · rw [List.mem_singleton.mp hr']
      rintro rfl
      -- only the timer makes a call return with a timeout
      rcases ht.returned _ _ hn with ⟨r₀, -, -, hack⟩ | ⟨-, hfired⟩
      · exact r₀.ack_ne_timeout hack.symm
      · exact htimer hfired

theorem resumed (h : Delivered s) (hx : s.routines = before ++ x :: after)
    (hack : ∀ n msg, .ack n msg ≠ x) (new : List Routine) (hphase : s'.phase = s.phase)
    (hhandled : s'.handled = s.handled) (hroutines : s'.routines = before ++ new ++ after) : Delivered s' := by
  refine h.quiet (fun n msg => by rw [hphase]) hhandled fun n msg hn => ?_
  rw [hroutines]
  exact mem_of_ne hx hn (hack n msg) new

theorem took (ht : Traced s) (h : Delivered s) {a : Action} (htimely : s.Timely a) (ha : Took decode s a s') :
    Delivered s' := by
  have hnext : s.phase (s.seq + 1) = .absent := ht.fresh _ (Nat.lt_succ_self _)
  cases ha with
  | call subscribe => exact h.advance (n := s.seq + 1) (by simp [hnext]) (by simp) rfl rfl rfl
  | setHandler hn | startTimer hn | write hn => exact h.advance (by simp [hn]) (by simp) rfl rfl rfl
  | fail hn =>
    rcases hn with hn | hn
    all_goals exact h.advance (by simp [hn]) (by simp) rfl rfl rfl
  | wait hn => exact h.advance (by simp [hn]) (by simp) rfl rfl rfl
  | answer | notify => exact ⟨h.flight, h.timeouts⟩
  | @listen m wire _ _ =>
    obtain ⟨new, hroutines, -, -, hsame, -⟩ := receive_spec { s with wire } m
    refine h.quiet (fun n msg => by rw [hsame.phase]) hsame.handled fun n msg hn => ?_
    rw [hroutines]
    exact List.mem_append_left _ hn
  | expire _ => exact h.quiet (fun _ _ => Iff.rfl) rfl fun n msg hn => List.mem_append_left _ hn
  | found hx hr =>
    have htimer := fun hfired => ht.expired _ hfired hr
    rw [if_neg htimer]
    exact h.handled ht hx htimer
  | @missed _ _ r hx hr =>
    have hfired : s.timer r.ID = .fired := by
      by_contra htimer
      exact hr (ht.handler_of_transit (by simp [transit, hx, Routine.response?]) htimer)
    rw [if_pos hfired]
    exact h.resumed hx nofun [] rfl rfl (by simp)
  | deliver hx hn => exact h.received ht hx hn htimely
  | @drop _ _ n msg hx hn =>
    have hcond := htimely.ack hx
    split at hcond
    next hmsg =>
      subst hmsg
      refine ⟨fun r hr => (h.flight r hr).imp_right fun hmem => ?_, h.timeouts⟩
      have hne : Routine.ack r.ID r.ack ≠ .ack n timeoutAck := fun he => r.ack_ne_timeout (Routine.ack.inj he).2
      simpa using mem_of_ne hx hmem hne []
    · exact absurd hcond hn
  | @lookUp _ _ _ sub n hx _ _ => exact h.resumed hx nofun [.callback n sub] rfl rfl (by simp)
  | ignore hx _ _ | callBack hx => exact h.resumed hx nofun [] rfl rfl (by simp)
  | setSubscription _ _ _ => exact ⟨h.flight, h.timeouts⟩
  | notFound _ _ _ => exact h
  | unsubscribe _ _ _ _ => exact h.advance (n := s.seq + 1) (by simp [hnext]) (by simp) rfl rfl rfl
  | unlock _ _ => exact ⟨h.flight, h.timeouts⟩

end Delivered

/-- **Answered calls return their answers**, in every run in which each callback of a response is run
when its caller waits and no timer overtakes a response that has been taken from the handlers. -/
theorem answered_of_timely (decode : Bytes → Option String) (actions : List Action) (s : Stream)
    (hrun : Transitions.run (step decode) newStream actions = some s)
    (htimely : Transitions.Meets (step decode) Timely newStream actions) : Answered s := by
  have hinv : Traced s ∧ Delivered s := by
    refine Transitions.invariant (I := fun s => Traced s ∧ Delivered s) (fun s a s' h ha hs => ?_) ⟨Traced.newStream, nofun, nofun⟩
      htimely hrun
    have htook := took_of_step hs
    exact ⟨h.1.took htook, h.2.took h.1 ha htook⟩
  obtain ⟨ht, h⟩ := hinv
  refine ⟨h.flight, fun n msg hn => (ht.returned n msg hn).imp_right ?_⟩
  rintro ⟨rfl, hfired⟩
  exact ⟨rfl, hfired, h.timeouts n hn⟩

def sampleResponse : Response := { ID := 1, Result := [42], Error := none }

def sampleRequest : List Action :=
  [.call false, .setHandler 1, .startTimer 1, .write 1, .send (.response sampleResponse), .listen, .run 0]

/-- The caller waits before the callback sends. -/
theorem answered_of_timely_sample : ∃ s, Transitions.run (step fun _ => none) newStream
    (sampleRequest ++ [.wait 1, .run 0]) = some s ∧ s.phase 1 = .returned { buf := [42], err := none } ∧ Answered s := by
  have hphase : ((Transitions.run (step fun _ => none) newStream (sampleRequest ++ [.wait 1, .run 0])).map
      fun s => s.phase 1) = some (.returned { buf := [42], err := none }) := by decide
  obtain ⟨s, hs, hphase⟩ := Option.map_eq_some_iff.mp hphase
  exact ⟨s, hs, hphase, answered_of_timely _ _ s hs (by decide)⟩

/-- The callback sends between the write and the receive: the answer is lost, and the caller waits. -/
theorem answer_lost : ∃ s, Transitions.run (step fun _ => none) newStream
    (sampleRequest ++ [.run 0, .wait 1]) = some s ∧ s.timer 1 = .running ∧ sampleResponse ∈ s.handled ∧
    s.phase 1 = .waiting ∧ s.routines = [] ∧ ¬Answered s := by
  have hfacts : ((Transitions.run (step fun _ => none) newStream (sampleRequest ++ [.run 0, .wait 1])).map
      fun s => (s.timer 1, s.handled, s.phase 1, s.routines)) = some (.running, [sampleResponse], .waiting, []) := by
    decide
  obtain ⟨s, hs, hfacts⟩ := Option.map_eq_some_iff.mp hfacts
  simp only [Prod.mk.injEq] at hfacts
  obtain ⟨htimer, hhandled, hphase, hroutines⟩ := hfacts
  refine ⟨s, hs, htimer, by simp [hhandled], hphase, hroutines, fun hanswered => ?_⟩
  have hflight := hanswered.1 sampleResponse (by simp [hhandled])
  have hid : sampleResponse.ID = 1 := rfl
  rw [hid, hphase, hroutines] at hflight
  simp at hflight

end Stream
end Web3.Jsonrpc
