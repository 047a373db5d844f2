import Web3.Storage.WorldView

/-! # What the operations leave alone

Reads keep the view. No call touches the overlay or the store, and the logs only grow. This is what
lets a snapshot consist of the cache, the set of self-destructed accounts, the number of logs and the
refund counter. -/

namespace Web3.Storage

/-! ## Reads -/

namespace World

theorem view_setDbErr (w : World) (e : String) :
    ({ w with cacheDB := w.cacheDB.setDbErr e } : World).view = w.view := rfl

theorem getEthAccount_view (w : World) (addr : Address) :
    (w.getEthAccount addr).Ensures fun r => r.2.view = w.view := by
  rw [getEthAccount]
  cases w.cacheDB.getEthAccount addr with
  | ok a => exact Outcome.ensures_ok rfl
  | err e => exact Outcome.ensures_ok (w.view_setDbErr e)
  | panic p => exact Outcome.ensures_panic _ p

theorem balanceTest_view {α : Type} (w : World) (addr : Address) (f : ℕ → α) (a : α) :
    Outcome.Ensures (fun r : α × World => r.2.view = w.view) (match BalanceHandle.getBalance w.cacheDB addr with
        | .ok balance => .ok (f balance, w)
        | .err e => .ok (a, { w with cacheDB := w.cacheDB.setDbErr e })
        | .panic p => .panic p) := by
  cases BalanceHandle.getBalance w.cacheDB addr with
  | ok b => exact Outcome.ensures_ok rfl
  | err e => exact Outcome.ensures_ok (w.view_setDbErr e)
  | panic p => exact Outcome.ensures_panic _ p

theorem accountTest_view (w : World) (addr : Address) (f : EthAccount → ℕ → Bool) : (do
      let (acct, u) ← w.getEthAccount addr
      match BalanceHandle.getBalance u.cacheDB addr with
        | .ok balance => .ok (f acct balance, u)
        | .err e => .ok (false, { u with cacheDB := u.cacheDB.setDbErr e })
        | .panic p => .panic p).Ensures fun r : Bool × World => r.2.view = w.view := by
  refine (w.getEthAccount_view addr).bind ?_
  rintro ⟨acct, u⟩ hu r hr
  exact (u.balanceTest_view addr (f acct) false r hr).trans hu

theorem exist_view (w : World) (addr : Address) : (w.exist addr).Ensures fun r => r.2.view = w.view := by
  rw [exist]
  split
  · exact Outcome.ensures_ok rfl
  · exact w.accountTest_view addr fun acct balance => !acct.isEmpty || balance > 0

end World

theorem ensures_state {α β : Type} {P : World → Prop} {x : Outcome (α × World)}
    (hx : x.Ensures fun r => P r.2) (f : α → β) :
    (do let (a, w) ← x; .ok (f a, w) : Outcome (β × World)).Ensures fun r => P r.2 := by
  refine hx.bind ?_
  rintro ⟨a, u⟩ hu
  exact Outcome.ensures_ok hu

/-- A reading method: its answer depends on the view only, and it keeps the view. -/
structure Query (α : Type) where
  run : World → Outcome (α × World)
  same : ∀ {v w : World}, v.view = w.view → Outcome.LiftRel SameAnswer (run v) (run w)
  view : ∀ w : World, (run w).Ensures fun r => r.2.view = w.view

namespace Query

def getBalance (addr : Address) : Query ℕ :=
  ⟨fun w => w.getBalance addr, fun h => World.getBalance_same h addr, fun w => w.balanceTest_view addr id 0⟩

def const {α : Type} (a : α) : Query α :=
  ⟨fun w => .ok (a, w), fun h => .ok ⟨rfl, h⟩, fun _ => Outcome.ensures_ok rfl⟩

def map {α β : Type} (f : α → β) (q : Query α) : Query β :=
  ⟨fun w => do let (a, u) ← q.run w; .ok (f a, u),
    fun h => (q.same h).bind (by rintro ⟨a, u⟩ ⟨b, u'⟩ ⟨rfl, hu⟩; exact .ok ⟨rfl, hu⟩),
    fun w => ensures_state (P := fun u => u.view = w.view) (q.view w) f⟩

def field {α : Type} (f : EthAccount → α) (addr : Address) : Query α :=
  ⟨fun w => do let (a, u) ← w.getEthAccount addr; .ok (f a, u), fun h => World.readAccount_same h addr f,
    fun w => ensures_state (P := fun u => u.view = w.view) (w.getEthAccount_view addr) f⟩

def getNonce : Address → Query UInt64 := field EthAccount.Nonce

def getCode : Address → Query Bytes := field EthAccount.Code

def getCodeHash : Address → Query Hash := field EthAccount.CodeHash

def exist (addr : Address) : Query Bool :=
  ⟨fun w => w.exist addr, fun h => World.exist_same h addr, fun w => w.exist_view addr⟩

def empty (addr : Address) : Query Bool :=
  ⟨fun w => w.empty addr, fun h => World.empty_same h addr,
    fun w => w.accountTest_view addr fun acct balance => acct.isEmpty && balance = 0⟩

end Query

theorem Read.run_view (w : World) (r : Read) : (r.run w).Ensures fun r => r.2.view = w.view := by
  cases r with
  | getState | getCommittedState => exact Outcome.ensures_ok rfl
  | getBalance addr =>
    exact ensures_state (P := fun u => u.view = w.view) ((Query.getBalance addr).view w) Answer.number
  | getNonce addr =>
    exact ensures_state (P := fun u => u.view = w.view) ((Query.getNonce addr).view w)
      fun nonce => Answer.number nonce.toNat
  | getCode addr =>
    exact ensures_state (P := fun u => u.view = w.view) ((Query.getCode addr).view w) Answer.bytes
  | getCodeHash addr =>
    exact ensures_state (P := fun u => u.view = w.view) ((Query.getCodeHash addr).view w) Answer.hash
  | hasSuicided addr => exact Outcome.ensures_ok rfl
  | exist addr => exact ensures_state (P := fun u => u.view = w.view) (w.exist_view addr) Answer.flag
  | empty addr =>
    exact ensures_state (P := fun u => u.view = w.view)
      (w.accountTest_view addr fun acct balance => acct.isEmpty && balance = 0) Answer.flag
  | getRefund | getLogs => exact Outcome.ensures_ok rfl

/-! ## Writes -/

structure Framed (w w' : World) : Prop where
  overlay : w'.cacheDB.backend.memdb = w.cacheDB.backend.memdb
  store : w'.cacheDB.backend.store = w.cacheDB.backend.store
  logs : w.logs <+: w'.logs

namespace Framed
variable {w w' w'' : World}

theorem of_view (h : w'.view = w.view) : Framed w w' := by
  have hlogs : w'.logs = w.logs := congrArg View.logs h
  exact ⟨congrArg View.overlay h, congrArg View.store h, hlogs ▸ List.prefix_refl _⟩

theorem trans (h : Framed w w') (h' : Framed w' w'') : Framed w w'' :=
  ⟨h'.overlay.trans h.overlay, h'.store.trans h.store, h.logs.trans h'.logs⟩

end Framed

def SameBackend (c d : CacheDB) : Prop :=
  d.backend.memdb = c.backend.memdb ∧ d.backend.store = c.backend.store

variable (c : CacheDB) (rnd : Rand) (addr : Address)

theorem CacheDB.putEthAccount_backend (a : EthAccount) : (c.putEthAccount rnd addr a).Ensures (SameBackend c) := by
  rw [CacheDB.putEthAccount]
  split
  · exact Outcome.ensures_ok ⟨rfl, rfl⟩
  · intro d hd
    obtain ⟨raw, -, hd⟩ := Outcome.bind_eq_ok.mp hd
    cases hd
    exact ⟨rfl, rfl⟩

theorem CacheDB.updateBalance_backend (f : U256 → U256) : (do
      let acct ← c.getEthAccount addr
      let balance ← acct.balance
      c.putEthAccount rnd addr { acct with Balance := some (f balance) }).Ensures
      (SameBackend c) := by
  intro d hd
  obtain ⟨acct, -, hd⟩ := Outcome.bind_eq_ok.mp hd
  obtain ⟨balance, -, hd⟩ := Outcome.bind_eq_ok.mp hd
  exact c.putEthAccount_backend rnd addr _ d hd

theorem CacheDB.setBalance_backend (val : ℤ) :
    (BalanceHandle.setBalance c rnd addr val).Ensures (SameBackend c) := by
  intro d hd
  obtain ⟨acct, -, hd⟩ := Outcome.bind_eq_ok.mp hd
  exact c.putEthAccount_backend rnd addr _ d hd

namespace World

theorem framed_withCache (w : World) {c : CacheDB} (h : SameBackend w.cacheDB c) :
    Framed w { w with cacheDB := c } := ⟨h.1, h.2, List.prefix_refl _⟩

theorem updateAccount_framed (w : World) (rnd : Rand) (addr : Address) (f : EthAccount → EthAccount) :
    (do let (a, u) ← w.getEthAccount addr; u.putEthAccount rnd addr (f a)).Ensures (Framed w) := by
  refine (w.getEthAccount_view addr).bind ?_
  rintro ⟨a, u⟩ hu w' hw
  obtain ⟨c, hc, hw⟩ := Outcome.bind_eq_ok.mp hw
  cases hw
  exact (Framed.of_view hu).trans (u.framed_withCache (u.cacheDB.putEthAccount_backend rnd addr _ c hc))

theorem orDbErr_framed (w : World) {x : Outcome CacheDB} (hx : x.Ensures (SameBackend w.cacheDB)) :
    (w.orDbErr x).Ensures (Framed w) := by
  cases x with
  | ok c => exact Outcome.ensures_ok (w.framed_withCache (hx c rfl))
  | err e => exact Outcome.ensures_ok (w.framed_withCache ⟨rfl, rfl⟩)
  | panic p => exact Outcome.ensures_panic _ p

theorem suicide_framed (w : World) (rnd : Rand) (addr : Address) :
    (w.suicide rnd addr).Ensures fun r => Framed w r.2 := by
  rw [suicide]
  refine (w.getEthAccount_view addr).bind ?_
  rintro ⟨acct, u⟩ hu
  dsimp only
  split
  · exact Outcome.ensures_ok (Framed.of_view hu)
  · refine Outcome.Ensures.bind
      (orDbErr_framed { u with Suicided := insert addr u.Suicided }
        (u.cacheDB.setBalance_backend rnd addr 0)) ?_
    intro u' hu'
    exact Outcome.ensures_ok ((Framed.of_view hu).trans ⟨hu'.overlay, hu'.store, hu'.logs⟩)

end World

/-- **Every call keeps the overlay, the store and the logs that are there.** -/
theorem Op.run_framed (keccak256 : Bytes → Hash) (w : World) (op : Op) : (op.run keccak256 w).Ensures (Framed w) := by
  cases op with
  | setState rnd contract key value => exact Outcome.ensures_ok (w.framed_withCache ⟨rfl, rfl⟩)
  | setNonce rnd addr nonce => exact w.updateAccount_framed rnd addr fun a => { a with Nonce := nonce }
  | setCode rnd addr code =>
    exact w.updateAccount_framed rnd addr fun a => { a with CodeHash := keccak256 code, Code := code }
  | addBalance rnd addr val =>
    exact w.orDbErr_framed (w.cacheDB.updateBalance_backend rnd addr (· + U256.fromBig val))
  | subBalance rnd addr val =>
    exact w.orDbErr_framed (w.cacheDB.updateBalance_backend rnd addr (· - U256.fromBig val))
  | suicide rnd addr =>
    refine (w.suicide_framed rnd addr).bind ?_
    rintro ⟨b, u⟩ hu
    exact Outcome.ensures_ok hu
  | addLog log => exact Outcome.ensures_ok ⟨rfl, rfl, List.prefix_append _ _⟩
  | addRefund gas => exact Outcome.ensures_ok ⟨rfl, rfl, List.prefix_refl _⟩
  | subRefund gas =>
    show (w.subRefund gas).Ensures (Framed w)
    rw [World.subRefund]
    split
    · exact Outcome.ensures_panic _ _
    · exact Outcome.ensures_ok ⟨rfl, rfl, List.prefix_refl _⟩
  | createAccount addr => exact Outcome.ensures_ok (Framed.of_view rfl)
  | read r =>
    refine (r.run_view w).bind ?_
    rintro ⟨a, u⟩ hu
    exact Outcome.ensures_ok (Framed.of_view hu)

end Web3.Storage
