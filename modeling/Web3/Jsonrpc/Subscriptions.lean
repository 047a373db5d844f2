import Web3.Jsonrpc.Calls

/-! # Notifications

Every notification is handled by a goroutine of its own, which looks for the callback of its subscription
and then calls it. `Subscribe` sets the callback after its call has returned, so a notification can be
looked at before there is a callback, and two of them can overtake each other. -/

namespace Web3.Jsonrpc

def Routine.notifies : Routine → Bool
  | handleSubscription _ _ | callback _ _ => true
  | handleMsg _ | ack _ _ => false

def Routine.notification? : Routine → Option Subscription
  | handleSubscription true sub | callback _ sub => some sub
  | handleSubscription false _ | handleMsg _ | ack _ _ => none

theorem filterMap_notifies (l : List Routine) :
    (l.filter Routine.notifies).filterMap Routine.notification? = l.filterMap Routine.notification? := by
  rw [List.filterMap_filter]
  congr 1
  funext x
  cases x <;> rfl

namespace Stream
variable {decode : Bytes → Option String} {s s' : Stream}

/-! ## Identifiers of subscriptions -/

variable {n : ℕ} {x : String} {a : Action} {before after : List Routine}

theorem subscription_eq_some : s.subscription decode n = some x ↔
    ∃ buf, s.phase n = .returned { buf, err := none } ∧ n ∈ s.subscribes ∧ decode buf = some x := by
  unfold subscription
  split
  next buf hn => simp [hn]
  next hne =>
    constructor
    · nofun
    · rintro ⟨buf, hn, -⟩
      exact absurd hn (hne buf)

theorem Traced.openedBy (ht : Traced s) (h : s.subscription decode n = some x) :
    ∃ r ∈ s.answers, r.ID = n ∧ s.openedBy decode r = some x := by
  obtain ⟨buf, hn, hmem, hbuf⟩ := subscription_eq_some.mp h
  rcases ht.returned n _ hn with ⟨r, hr, rfl, hack⟩ | ⟨htimeout, -⟩
  · refine ⟨r, hr, rfl, ?_⟩
    unfold Response.ack at hack
    cases herror : r.Error with
    | some e => simp [herror] at hack
    | none =>
      simp only [herror, AckMessage.mk.injEq] at hack
      rw [Stream.openedBy, if_pos ⟨hmem, herror⟩, ← hack.1, hbuf]
  · cases htimeout

def Opened (decode : Bytes → Option String) (s : Stream) : Prop :=
  ∀ r ∈ s.answers, ∀ r' ∈ s.answers, ∀ x, s.openedBy decode r = some x → s.openedBy decode r' = some x → r = r'

theorem Opened.eq (h : Opened decode s) (ht : Traced s) {m : ℕ}
    (hn : s.subscription decode n = some x) (hm : s.subscription decode m = some x) : n = m := by
  obtain ⟨r, hr, rfl, hopen⟩ := ht.openedBy hn
  obtain ⟨r', hr', rfl, hopen'⟩ := ht.openedBy hm
  rw [h r hr r' hr' x hopen hopen']

theorem Opened.took (h : Opened decode s) (ht : Traced s) (ha : Took decode s a s') : Opened decode s' := by
  cases ha with
  | call subscribe =>
    -- no answer is for the next call
    have hkeep : ∀ r ∈ s.answers, Stream.openedBy decode
        { s.begin with subscribes := if subscribe then insert (s.seq + 1) s.subscribes else s.subscribes } r =
        s.openedBy decode r := by
      intro r hr
      have hne : r.ID ≠ s.seq + 1 := by
        intro hid
        have hsent := ht.sent r hr
        rw [hid, ht.fresh _ (Nat.lt_succ_self _)] at hsent
        cases hsent
      unfold Stream.openedBy
      cases subscribe <;> simp [hne]
    intro r hr r' hr' x hopen hopen'
    rw [hkeep r hr] at hopen
    rw [hkeep r' hr'] at hopen'
    exact h r hr r' hr' x hopen hopen'
  | @answer r hmay =>
    intro r₁ hr₁ r₂ hr₂ x hopen₁ hopen₂
    have hother : ∀ r' ∈ s.answers, s.openedBy decode r = some x → s.openedBy decode r' ≠ some x := by
      intro r' hr' hr
      have hne := (hmay.2 r' hr').2
      rw [hr] at hne
      exact hne nofun
    simp only [List.mem_append, List.mem_singleton] at hr₁ hr₂
    rcases hr₁ with hr₁ | rfl
    · rcases hr₂ with hr₂ | rfl
      · exact h r₁ hr₁ r₂ hr₂ x hopen₁ hopen₂
      · exact absurd hopen₁ (hother r₁ hr₁ hopen₂)
    · rcases hr₂ with hr₂ | rfl
      · exact absurd hopen₂ (hother r₂ hr₂ hopen₁)
      · rfl
  | listen _ _ =>
    unfold receive
    split
    · exact h
    · split <;> exact h
    · exact h
    · exact h
  | _ => exact h

theorem Took.subscription (ht : Traced s) (ha : Took decode s a s')
    (h : s.subscription decode n = some x) : s'.subscription decode n = some x := by
  obtain ⟨buf, hn, hmem, hbuf⟩ := subscription_eq_some.mp h
  have hnext : n ≠ s.seq + 1 := by
    rintro rfl
    rw [ht.fresh _ (Nat.lt_succ_self _)] at hn
    cases hn
  refine subscription_eq_some.mpr ⟨buf, ?_, ?_, hbuf⟩
  · cases ha with
    | call _ | unsubscribe _ _ _ _ => exact (Function.update_of_ne hnext _ _).trans hn
    | listen _ _ => rwa [(receive_spec _ _).choose_spec.2.2.2.1.phase]
    | _ => grind [Function.update_apply]
  · cases ha with
    | call subscribe => cases subscribe <;> simp [hmem]
    | listen _ _ =>
      unfold receive
      grind
    | _ => exact hmem

/-! ## Order -/

/-- The notifications that the goroutines owe to the callback, in the order in which they arrived. -/
def pending (s : Stream) (x : String) : List Subscription :=
  (s.routines.filterMap Routine.notification?).filter (·.ID = x)

def arrivedFor (s : Stream) (x : String) : List Subscription := s.arrived.filter (·.ID = x)

/-- The notifications that the callback of a `Subscribe` was called with. -/
def invokedBy (s : Stream) (n : ℕ) : List Subscription := (s.invoked.filter (·.1 = n)).map (·.2)

/-- The callback of every `Subscribe` has been called once for every notification, in order, up to those
that a goroutine still owes to it. -/
def Notified (decode : Bytes → Option String) (s : Stream) : Prop :=
  ∀ n x, s.subscription decode n = some x → s.arrivedFor x = s.invokedBy n ++ s.pending x

/-- A notification is looked at when the subscription has its callback, and a callback runs after the
goroutines `before` have delivered what they owe to it. -/
def OrderlyRun (s : Stream) (before : List Routine) : Routine → Prop
  | .handleSubscription live sub => live → s.subs sub.ID ≠ none
  | .callback _ sub => ∀ sub' ∈ before.filterMap Routine.notification?, sub'.ID ≠ sub.ID
  | .handleMsg _ | .ack _ _ => True

def Orderly (s : Stream) : Action → Prop
  | .run i => ∀ x ∈ s.routines[i]?, s.OrderlyRun (s.routines.take i) x
  | _ => True

instance (s : Stream) (before : List Routine) : DecidablePred (s.OrderlyRun before)
  | .handleSubscription live sub => inferInstanceAs (Decidable (live → s.subs sub.ID ≠ none))
  | .callback _ sub =>
    inferInstanceAs (Decidable (∀ sub' ∈ before.filterMap Routine.notification?, sub'.ID ≠ sub.ID))
  | .handleMsg _ | .ack _ _ => inferInstanceAs (Decidable True)

instance (s : Stream) : DecidablePred s.Orderly
  | .run i => inferInstanceAs (Decidable (∀ x ∈ s.routines[i]?, s.OrderlyRun (s.routines.take i) x))
  | .call _ | .setHandler _ | .startTimer _ | .write _ | .fail _ | .wait _ | .send _ | .listen | .expire _
  | .setSubscription _ | .unsubscribe _ | .unlock => inferInstanceAs (Decidable True)

theorem Orderly.run {x : Routine} (hx : s.routines = before ++ x :: after)
    (h : s.Orderly (.run before.length)) : s.OrderlyRun before x := by
  have hrun := h x (by simp [hx])
  rwa [hx, List.take_left] at hrun

structure Ordered (decode : Bytes → Option String) (s : Stream) : Prop where
  subs : ∀ x n, s.subs x = some n → s.subscription decode n = some x ∧ x ∉ s.cancelled
  cancelled : ∀ x ∈ s.cancelled, ∃ n ∈ s.subscribed, s.subscription decode n = some x
  dead : ∀ sub, .handleSubscription false sub ∈ s.routines → sub.ID ∈ s.cancelled
  callbacks : ∀ n sub, .callback n sub ∈ s.routines → s.subscription decode n = some sub.ID
  invoked : ∀ n sub, (n, sub) ∈ s.invoked → s.subscription decode n = some sub.ID
  complete : ∀ x, s.arrivedFor x = (s.invoked.map (·.2)).filter (·.ID = x) ++ s.pending x

namespace Ordered

theorem quiet (h : Ordered decode s)
    (hkeep : ∀ n x, s.subscription decode n = some x → s'.subscription decode n = some x) (hsubs : s'.subs = s.subs)
    (hcancelled : s'.cancelled = s.cancelled) (hsubscribed : s'.subscribed = s.subscribed)
    (harrived : s'.arrived = s.arrived) (hinvoked : s'.invoked = s.invoked)
    (hroutines : s'.routines.filter Routine.notifies = s.routines.filter Routine.notifies) : Ordered decode s' := by
  have hmem : ∀ y ∈ s'.routines, y.notifies → y ∈ s.routines := by
    intro y hy hnotifies
    have hy' : y ∈ s'.routines.filter Routine.notifies := List.mem_filter.mpr ⟨hy, hnotifies⟩
    rw [hroutines] at hy'
    exact List.mem_of_mem_filter hy'
  constructor
  · intro x n hn
    rw [hsubs] at hn
    rw [hcancelled]
    exact (h.subs x n hn).imp_left (hkeep n x)
  · intro x hx
    rw [hcancelled] at hx
    rw [hsubscribed]
    exact (h.cancelled x hx).imp fun n hn => hn.imp_right (hkeep n x)
  · intro sub hsub
    rw [hcancelled]
    exact h.dead sub (hmem _ hsub rfl)
  · intro n sub hsub
    exact hkeep _ _ (h.callbacks n sub (hmem _ hsub rfl))
  · intro n sub hsub
    rw [hinvoked] at hsub
    exact hkeep _ _ (h.invoked n sub hsub)
  · intro x
    have hpending : s'.pending x = s.pending x := by
      unfold pending
      rw [← filterMap_notifies, hroutines, filterMap_notifies]
    rw [hpending, hinvoked, arrivedFor, harrived]
    exact h.complete x

theorem received (h : Ordered decode s) (m : Message) : Ordered decode (s.receive m) := by
  cases m with
  | response r => exact h.quiet (fun _ _ hn => hn) rfl rfl rfl rfl rfl (by simp [receive, Routine.notifies])
  | other => exact h
  | malformed => exact h.quiet (fun _ _ hn => hn) rfl rfl rfl rfl rfl rfl
  | subscription sub =>
    simp only [receive]
    split
    next hcancelled =>
      refine ⟨h.subs, h.cancelled, fun sub' hsub' => ?_, fun n sub' hsub' => ?_, h.invoked, fun x => ?_⟩
      · rcases List.mem_append.mp hsub' with hsub' | hsub'
        · exact h.dead sub' hsub'
        · cases List.mem_singleton.mp hsub'
          exact hcancelled
      · exact h.callbacks n sub' (by simpa using hsub')
      · simpa [pending, arrivedFor, List.filterMap_cons, Routine.notification?] using h.complete x
    · refine ⟨h.subs, h.cancelled, fun sub' hsub' => ?_, fun n sub' hsub' => ?_, h.invoked, fun x => ?_⟩
      · exact h.dead sub' (by simpa using hsub')
      · exact h.callbacks n sub' (by simpa using hsub')
      · have hcomplete := h.complete x
        simp only [arrivedFor, pending, List.filterMap_append, List.filter_append] at hcomplete ⊢
        rw [hcomplete, List.append_assoc]
        rfl

variable {sub : Subscription} {id : String}

section
variable (h : Ordered decode s)
include h

theorem lookedUp {live : Bool}
    (hx : s.routines = before ++ .handleSubscription live sub :: after) (hn : s.subs sub.ID = some n) :
    Ordered decode { s with routines := before ++ .callback n sub :: after } := by
  obtain ⟨hid, hlive⟩ := h.subs _ _ hn
  have hmem : ∀ y ∈ before ++ .callback n sub :: after, y = .callback n sub ∨ y ∈ s.routines := by
    intro y hy
    rw [hx]
    simp only [List.mem_append, List.mem_cons] at hy ⊢
    tauto
  refine ⟨h.subs, h.cancelled, fun sub' hsub' => ?_, fun m sub' hsub' => ?_, h.invoked, fun x => ?_⟩
  · exact h.dead sub' ((hmem _ hsub').resolve_left nofun)
  · rcases hmem _ hsub' with he | hm
    · cases he
      exact hid
    · exact h.callbacks m sub' hm
  · cases live with
    | true => simpa [pending, arrivedFor, hx, List.filterMap_cons, Routine.notification?] using h.complete x
    | false => exact absurd (h.dead sub (by simp [hx])) hlive

theorem ended {x : Routine} (hx : s.routines = before ++ x :: after) {invoked : List (ℕ × Subscription)}
    (hinvoked : ∀ n sub, (n, sub) ∈ invoked → s.subscription decode n = some sub.ID)
    (hcomplete : ∀ x, s.arrivedFor x = (invoked.map (·.2)).filter (·.ID = x) ++
      ((before ++ after).filterMap Routine.notification?).filter (·.ID = x)) :
    Ordered decode { s with invoked, routines := before ++ after } := by
  have hmem : ∀ y ∈ before ++ after, y ∈ s.routines := by
    intro y hy
    rw [hx]
    simp only [List.mem_append, List.mem_cons] at hy ⊢
    tauto
  exact ⟨h.subs, h.cancelled, fun sub hsub => h.dead sub (hmem _ hsub),
    fun n sub hsub => h.callbacks n sub (hmem _ hsub), hinvoked, hcomplete⟩

theorem ignored (hx : s.routines = before ++ .handleSubscription false sub :: after) :
    Ordered decode { s with routines := before ++ after } := by
  refine h.ended hx h.invoked fun x => ?_
  simpa [pending, hx, List.filterMap_cons, Routine.notification?] using h.complete x

theorem calledBack (hx : s.routines = before ++ .callback n sub :: after)
    (hbefore : ∀ sub' ∈ before.filterMap Routine.notification?, sub'.ID ≠ sub.ID) :
    Ordered decode { s with invoked := s.invoked ++ [(n, sub)], routines := before ++ after } := by
  refine h.ended hx (fun m sub' hsub' => ?_) fun x => ?_
  · rcases List.mem_append.mp hsub' with hsub' | hsub'
    · exact h.invoked m sub' hsub'
    · cases List.mem_singleton.mp hsub'
      exact h.callbacks n sub (by simp [hx])
  · have hcomplete := h.complete x
    simp only [pending, hx, List.filterMap_append, List.filter_append, List.filterMap_cons,
      Routine.notification?, List.map_append, List.map_cons, List.map_nil] at hcomplete ⊢
    rw [hcomplete]
    by_cases hid : sub.ID = x
    · -- what the goroutines before owe is for other subscriptions
      have hnone : (before.filterMap Routine.notification?).filter (·.ID = x) = [] := by
        rw [List.filter_eq_nil_iff]
        intro sub' hsub'
        simpa [← hid] using hbefore sub' hsub'
      simp [hnone, hid]
    · simp [hid]

theorem subscribedTo (ht : Traced s) (hopen : Opened decode s)
    (hn : s.subscription decode n = some id) (hnew : n ∉ s.subscribed) :
    Ordered decode { s with subs := Function.update s.subs id (some n), subscribed := insert n s.subscribed } := by
  refine ⟨fun x m hm => ?_, fun x hx => ?_, h.dead, h.callbacks, h.invoked, h.complete⟩
  · dsimp only at hm
    by_cases hid : x = id
    · subst hid
      rw [Function.update_self, Option.some.injEq] at hm
      subst hm
      refine ⟨hn, fun hcancelled => hnew ?_⟩
      obtain ⟨m, hm, hid⟩ := h.cancelled x hcancelled
      rwa [hopen.eq ht hn hid]
    · rw [Function.update_of_ne hid] at hm
      exact h.subs x m hm
  · obtain ⟨m, hm, hid⟩ := h.cancelled x hx
    exact ⟨m, Finset.mem_insert_of_mem hm, hid⟩

theorem unsubscribed (hkeep : ∀ m x, s.subscription decode m = some x → s'.subscription decode m = some x)
    (hn : s.subscription decode n = some id) (hset : n ∈ s.subscribed)
    (hsubs : s'.subs = Function.update s.subs id none)
    (hcancelled : s'.cancelled = insert id s.cancelled) (hsubscribed : s'.subscribed = s.subscribed)
    (harrived : s'.arrived = s.arrived) (hinvoked : s'.invoked = s.invoked)
    (hroutines : s'.routines = s.routines) : Ordered decode s' := by
  refine ⟨fun x m hm => ?_, fun x hx => ?_, fun sub hsub => ?_, fun m sub hsub => ?_, fun m sub hsub => ?_, fun x => ?_⟩
  · rw [hsubs] at hm
    by_cases hid : x = id
    · subst hid
      rw [Function.update_self] at hm
      cases hm
    · rw [Function.update_of_ne hid] at hm
      obtain ⟨hm, hx⟩ := h.subs x m hm
      rw [hcancelled, Finset.mem_insert, not_or]
      exact ⟨hkeep m x hm, hid, hx⟩
  · rw [hcancelled, Finset.mem_insert] at hx
    rw [hsubscribed]
    rcases hx with rfl | hx
    · exact ⟨n, hset, hkeep n x hn⟩
    · exact (h.cancelled x hx).imp fun m hm => hm.imp_right (hkeep m x)
  · rw [hroutines] at hsub
    rw [hcancelled]
    exact Finset.mem_insert_of_mem (h.dead sub hsub)
  · rw [hroutines] at hsub
    exact hkeep _ _ (h.callbacks m sub hsub)
  · rw [hinvoked] at hsub
    exact hkeep _ _ (h.invoked m sub hsub)
  · rw [pending, hroutines, hinvoked, arrivedFor, harrived]
    exact h.complete x

end

theorem took (ht : Traced s) (hopen : Opened decode s) (h : Ordered decode s)
    (horderly : s.Orderly a) (ha : Took decode s a s') : Ordered decode s' := by
  have hkeep : ∀ n x, s.subscription decode n = some x → s'.subscription decode n = some x :=
    fun n x hn => ha.subscription ht hn
  cases ha with
  | @listen m wire _ _ =>
    have hread : Ordered decode { s with wire } := h.quiet (fun _ _ hn => hn) rfl rfl rfl rfl rfl rfl
    exact hread.received m
  | expire _ => exact h.quiet hkeep rfl rfl rfl rfl rfl (by simp [Routine.notifies])
  | found hx _ | missed hx _ | deliver hx _ | drop hx _ =>
    exact h.quiet hkeep rfl rfl rfl rfl rfl (by simp [hx, Routine.notifies])
  | lookUp hx _ hn => exact h.lookedUp hx hn
  | @ignore _ _ live sub hx _ hnone =>
    cases live with
    | true => exact absurd hnone (horderly.run hx rfl)
    | false => exact h.ignored hx
  | callBack hx => exact h.calledBack hx (horderly.run hx)
  | setSubscription hn hnew _ => exact h.subscribedTo ht hopen hn hnew
  | notFound _ _ _ => exact h
  | unsubscribe hn hset _ _ => exact h.unsubscribed hkeep hn hset rfl rfl rfl rfl rfl rfl
  | _ => exact h.quiet hkeep rfl rfl rfl rfl rfl rfl

theorem newStream : Ordered decode newStream where
  subs := nofun
  cancelled := nofun
  dead := nofun
  callbacks := nofun
  invoked := nofun
  complete _ := rfl

theorem invokedBy_eq (ht : Traced s) (hopen : Opened decode s) (h : Ordered decode s)
    (hn : s.subscription decode n = some x) : s.invokedBy n = (s.invoked.map (·.2)).filter (·.ID = x) := by
  unfold invokedBy
  rw [List.filter_map]
  congr 1
  refine List.filter_congr fun p hp => ?_
  have hid := h.invoked p.1 p.2 hp
  have hiff : p.1 = n ↔ p.2.ID = x := by
    constructor
    · rintro rfl
      exact Option.some.inj (hid.symm.trans hn)
    · rintro rfl
      exact hopen.eq ht hid hn
  simp [hiff]

end Ordered

/-- **Notifications arrive once and in order**, in every run in which they are looked at while their
subscription has a callback and the callbacks run in the order in which the notifications arrived. -/
theorem notified_of_orderly (decode : Bytes → Option String) (actions : List Action) (s : Stream)
    (hrun : Transitions.run (step decode) newStream actions = some s)
    (horderly : Transitions.Meets (step decode) Orderly newStream actions) : Notified decode s := by
  have hinv : Traced s ∧ Opened decode s ∧ Ordered decode s := by
    refine Transitions.invariant (I := fun s => Traced s ∧ Opened decode s ∧ Ordered decode s)
      (fun s a s' h ha hs => ?_) ⟨Traced.newStream, nofun, Ordered.newStream⟩ horderly hrun
    obtain ⟨ht, hopen, h⟩ := h
    have htook := took_of_step hs
    exact ⟨ht.took htook, hopen.took ht htook, h.took ht hopen ha htook⟩
  obtain ⟨ht, hopen, h⟩ := hinv
  intro n x hn
  rw [h.invokedBy_eq ht hopen hn]
  exact h.complete x

def sampleSubscribe : List Action :=
  [.call true, .setHandler 1, .startTimer 1, .write 1, .wait 1, .send (.response ⟨1, [1], none⟩), .listen, .run 0, .run 0]

def sampleDecode (b : Bytes) : Option String := if b = [1] then some "0x1" else none

def sampleNotification (b : UInt8) : Subscription := { ID := "0x1", Result := [b] }

def sampleNotifications : List Action :=
  [.send (.subscription (sampleNotification 1)), .send (.subscription (sampleNotification 2)), .listen, .listen]

theorem notified_of_orderly_sample : ∃ s, Transitions.run (step sampleDecode) newStream
    (sampleSubscribe ++ sampleNotifications ++ [.setSubscription 1, .run 1, .run 0, .run 0, .run 0]) = some s ∧
    s.subscription sampleDecode 1 = some "0x1" ∧
    s.invokedBy 1 = [sampleNotification 1, sampleNotification 2] ∧ Notified sampleDecode s := by
  have hfacts : ((Transitions.run (step sampleDecode) newStream
      (sampleSubscribe ++ sampleNotifications ++ [.setSubscription 1, .run 1, .run 0, .run 0, .run 0])).map
      fun s => (s.subscription sampleDecode 1, s.invokedBy 1)) =
      some (some "0x1", [sampleNotification 1, sampleNotification 2]) := by
    decide +kernel
  obtain ⟨s, hs, hfacts⟩ := Option.map_eq_some_iff.mp hfacts
  rw [Prod.mk.injEq] at hfacts
  exact ⟨s, hs, hfacts.1, hfacts.2, notified_of_orderly _ _ s hs (by decide +kernel)⟩

theorem not_notified {arrived invoked pending : List Subscription}
    (h : (s.subscription decode n, s.arrivedFor x, s.invokedBy n, s.pending x) = (some x, arrived, invoked, pending))
    (hne : arrived ≠ invoked ++ pending) : ¬Notified decode s := by
  simp only [Prod.mk.injEq] at h
  obtain ⟨hn, rfl, rfl, rfl⟩ := h
  exact fun hnotified => hne (hnotified n x hn)

/-- The first notification is looked at before there is a callback and is lost, or the second one
overtakes the first. -/
theorem notifications_lost_or_reordered : (∃ s, Transitions.run (step sampleDecode) newStream
      (sampleSubscribe ++ sampleNotifications ++ [.run 0, .setSubscription 1, .run 0, .run 0]) = some s ∧
      s.routines = [] ∧ ¬Notified sampleDecode s) ∧
    ∃ s, Transitions.run (step sampleDecode) newStream
      (sampleSubscribe ++ sampleNotifications ++ [.setSubscription 1, .run 1, .run 1, .run 0, .run 0]) = some s ∧
      s.routines = [] ∧ ¬Notified sampleDecode s := by
  have hlost : ((Transitions.run (step sampleDecode) newStream
      (sampleSubscribe ++ sampleNotifications ++ [.run 0, .setSubscription 1, .run 0, .run 0])).map
      fun s => (s.routines, s.subscription sampleDecode 1, s.arrivedFor "0x1", s.invokedBy 1, s.pending "0x1")) =
      some ([], some "0x1", [sampleNotification 1, sampleNotification 2], [sampleNotification 2], []) := by
    decide +kernel
  have hreordered : ((Transitions.run (step sampleDecode) newStream
      (sampleSubscribe ++ sampleNotifications ++ [.setSubscription 1, .run 1, .run 1, .run 0, .run 0])).map
      fun s => (s.routines, s.subscription sampleDecode 1, s.arrivedFor "0x1", s.invokedBy 1, s.pending "0x1")) =
      some ([], some "0x1", [sampleNotification 1, sampleNotification 2],
        [sampleNotification 2, sampleNotification 1], []) := by
    decide +kernel
  obtain ⟨s, hs, hlost⟩ := Option.map_eq_some_iff.mp hlost
  obtain ⟨s', hs', hreordered⟩ := Option.map_eq_some_iff.mp hreordered
  rw [Prod.mk.injEq] at hlost hreordered
  exact ⟨⟨s, hs, hlost.1, not_notified hlost.2 (by decide)⟩,
    ⟨s', hs', hreordered.1, not_notified hreordered.2 (by decide)⟩⟩

end Stream
end Web3.Jsonrpc
