import Web3.Storage.World

/-! # What the operations observe

The error kept in the overlay is the only part of a `World` that no read depends on. `view` is the
rest, and every method takes states with the same view to states with the same view and the same
answer. `Op` is a call of any of them; no call touches the overlay or the logs that are there. -/

namespace Web3.Storage

/-- A `World` without the error kept in the overlay. -/
structure View where
  memdb : Table
  overlay : Table
  store : Store
  Suicided : Finset Address
  logs : List StorageLog
  refund : UInt64

def World.view (w : World) : View :=
  { memdb := w.cacheDB.memdb
    overlay := w.cacheDB.backend.memdb
    store := w.cacheDB.backend.store
    Suicided := w.Suicided
    logs := w.logs
    refund := w.refund }

def SameAnswer {α : Type} (x y : α × World) : Prop := x.1 = y.1 ∧ x.2.view = y.2.view

def SameView (v w : World) : Prop := v.view = w.view

structure SameCache (c d : CacheDB) : Prop where
  memdb : c.memdb = d.memdb
  overlay : c.backend.memdb = d.backend.memdb
  store : c.backend.store = d.backend.store

namespace SameCache
variable {c d : CacheDB}

variable (h : SameCache c d)
include h

theorem backend_get (key : Bytes) : c.backend.get key = d.backend.get key := by
  rw [OverlayDB.get, OverlayDB.get, h.overlay, h.store]

theorem get (pre : UInt8) (key : Bytes) : c.get pre key = d.get pre key := by
  rw [CacheDB.get, CacheDB.get, h.memdb, h.backend_get]

theorem put (rnd : Rand) (pre : UInt8) (key value : Bytes) :
    SameCache (c.put rnd pre key value) (d.put rnd pre key value) :=
  ⟨by rw [CacheDB.put, CacheDB.put, h.memdb], h.overlay, h.store⟩

theorem getEthAccount (addr : Address) : c.getEthAccount addr = d.getEthAccount addr := by
  rw [CacheDB.getEthAccount, CacheDB.getEthAccount, h.get]

theorem putEthAccount (rnd : Rand) (addr : Address) (a : EthAccount) :
    Outcome.LiftRel SameCache (c.putEthAccount rnd addr a) (d.putEthAccount rnd addr a) := by
  rw [CacheDB.putEthAccount, CacheDB.putEthAccount]
  split
  · exact .ok (h.put rnd ST_ETH_ACCOUNT addr.1 [])
  · refine (Outcome.LiftRel.refl (R := Eq) (fun _ => rfl) _).bind ?_
    rintro raw _ rfl
    exact .ok (h.put rnd ST_ETH_ACCOUNT addr.1 raw)

theorem setDbErr (e e' : String) : SameCache (c.setDbErr e) (d.setDbErr e') :=
  ⟨h.memdb, h.overlay, h.store⟩

end SameCache

namespace World
variable {v w : World}

theorem sameCache (h : v.view = w.view) : SameCache v.cacheDB w.cacheDB :=
  ⟨congrArg View.memdb h, congrArg View.overlay h, congrArg View.store h⟩

theorem view_eq (hc : SameCache v.cacheDB w.cacheDB) (hs : v.Suicided = w.Suicided)
    (hl : v.logs = w.logs) (hr : v.refund = w.refund) : v.view = w.view := by
  rw [view, view, hc.memdb, hc.overlay, hc.store, hs, hl, hr]

theorem view_withCache (h : v.view = w.view) {c d : CacheDB} (hc : SameCache c d) :
    ({ v with cacheDB := c } : World).view = ({ w with cacheDB := d } : World).view :=
  view_eq hc (congrArg View.Suicided h) (congrArg View.logs h) (congrArg View.refund h)

/-! ## Building blocks -/

section
variable (h : v.view = w.view)
include h

theorem getEthAccount_same (addr : Address) :
    Outcome.LiftRel SameAnswer (v.getEthAccount addr) (w.getEthAccount addr) := by
  rw [getEthAccount, getEthAccount, (sameCache h).getEthAccount]
  cases w.cacheDB.getEthAccount addr with
  | ok a => exact .ok ⟨rfl, h⟩
  | err e => exact .ok ⟨rfl, view_withCache h ((sameCache h).setDbErr e e)⟩
  | panic p => exact .panic p

theorem putEthAccount_same (rnd : Rand) (addr : Address) (a : EthAccount) :
    Outcome.LiftRel SameView (v.putEthAccount rnd addr a) (w.putEthAccount rnd addr a) := by
  rw [putEthAccount, putEthAccount]
  refine ((sameCache h).putEthAccount rnd addr a).bind ?_
  intro c d hc
  exact .ok (view_withCache h hc)

theorem orDbErr_same {x y : Outcome CacheDB} (hxy : Outcome.LiftRel SameCache x y) :
    Outcome.LiftRel SameView (v.orDbErr x) (w.orDbErr y) := by
  cases hxy with
  | ok hc => exact .ok (view_withCache h hc)
  | err e => exact .ok (view_withCache h ((sameCache h).setDbErr e e))
  | panic p => exact .panic p

theorem handleBalance_same (addr : Address) :
    BalanceHandle.getBalance v.cacheDB addr = BalanceHandle.getBalance w.cacheDB addr := by
  rw [BalanceHandle.getBalance, BalanceHandle.getBalance, (sameCache h).getEthAccount]

theorem readAccount_same {α : Type} (addr : Address) (f : EthAccount → α) :
    Outcome.LiftRel SameAnswer (do let (a, u) ← v.getEthAccount addr; .ok (f a, u))
      (do let (a, u) ← w.getEthAccount addr; .ok (f a, u)) := by
  refine (getEthAccount_same h addr).bind ?_
  rintro ⟨a, u⟩ ⟨b, u'⟩ ⟨rfl, hu⟩
  exact .ok ⟨rfl, hu⟩

theorem updateAccount_same (rnd : Rand) (addr : Address) (f : EthAccount → EthAccount) :
    Outcome.LiftRel SameView (do let (a, u) ← v.getEthAccount addr; u.putEthAccount rnd addr (f a))
      (do let (a, u) ← w.getEthAccount addr; u.putEthAccount rnd addr (f a)) := by
  refine (getEthAccount_same h addr).bind ?_
  rintro ⟨a, u⟩ ⟨b, u'⟩ ⟨rfl, hu⟩
  exact putEthAccount_same hu rnd addr (f a)

theorem updateBalance_same (rnd : Rand) (addr : Address) (f : U256 → U256) :
    Outcome.LiftRel SameCache (do
        let acct ← v.cacheDB.getEthAccount addr
        let balance ← acct.balance
        v.cacheDB.putEthAccount rnd addr { acct with Balance := some (f balance) })
      (do
        let acct ← w.cacheDB.getEthAccount addr
        let balance ← acct.balance
        w.cacheDB.putEthAccount rnd addr { acct with Balance := some (f balance) }) := by
  rw [(sameCache h).getEthAccount]
  refine (Outcome.LiftRel.refl (R := Eq) (fun _ => rfl) _).bind ?_
  rintro acct _ rfl
  refine (Outcome.LiftRel.refl (R := Eq) (fun _ => rfl) _).bind ?_
  rintro balance _ rfl
  exact (sameCache h).putEthAccount rnd addr _

theorem setBalance_same (rnd : Rand) (addr : Address) (val : ℤ) :
    Outcome.LiftRel SameCache (BalanceHandle.setBalance v.cacheDB rnd addr val)
      (BalanceHandle.setBalance w.cacheDB rnd addr val) := by
  rw [BalanceHandle.setBalance, BalanceHandle.setBalance, (sameCache h).getEthAccount]
  refine (Outcome.LiftRel.refl (R := Eq) (fun _ => rfl) _).bind ?_
  rintro acct _ rfl
  exact (sameCache h).putEthAccount rnd addr _

end

/-! ## Answers -/

theorem getState_same (h : v.view = w.view) (contract : Address) (key : Hash) :
    v.getState contract key = w.getState contract key := by
  rw [getState, getState, CacheDB.Get, CacheDB.Get, (sameCache h).get]

section
variable (h : v.view = w.view) (addr : Address)
include h

theorem getCommittedState_same (key : Hash) : v.getCommittedState addr key = w.getCommittedState addr key := by
  rw [getCommittedState, getCommittedState, (sameCache h).backend_get]

theorem getBalance_same : Outcome.LiftRel SameAnswer (v.getBalance addr) (w.getBalance addr) := by
  rw [getBalance, getBalance, handleBalance_same h]
  cases BalanceHandle.getBalance w.cacheDB addr with
  | ok b => exact .ok ⟨rfl, h⟩
  | err e => exact .ok ⟨rfl, view_withCache h ((sameCache h).setDbErr e e)⟩
  | panic p => exact .panic p

theorem balanceTest_same (f : ℕ → Bool) : Outcome.LiftRel SameAnswer
      (match BalanceHandle.getBalance v.cacheDB addr with
        | .ok balance => .ok (f balance, v)
        | .err e => .ok (false, { v with cacheDB := v.cacheDB.setDbErr e })
        | .panic p => .panic p)
      (match BalanceHandle.getBalance w.cacheDB addr with
        | .ok balance => .ok (f balance, w)
        | .err e => .ok (false, { w with cacheDB := w.cacheDB.setDbErr e })
        | .panic p => .panic p) := by
  rw [handleBalance_same h]
  cases BalanceHandle.getBalance w.cacheDB addr with
  | ok b => exact .ok ⟨rfl, h⟩
  | err e => exact .ok ⟨rfl, view_withCache h ((sameCache h).setDbErr e e)⟩
  | panic p => exact .panic p

theorem exist_same : Outcome.LiftRel SameAnswer (v.exist addr) (w.exist addr) := by
  have hs : v.Suicided = w.Suicided := congrArg View.Suicided h
  rw [exist, exist, hs]
  split
  · exact .ok ⟨rfl, h⟩
  · refine (getEthAccount_same h addr).bind ?_
    rintro ⟨a, u⟩ ⟨b, u'⟩ ⟨rfl, hu⟩
    exact balanceTest_same hu addr fun balance => !a.isEmpty || balance > 0

theorem empty_same : Outcome.LiftRel SameAnswer (v.empty addr) (w.empty addr) := by
  rw [empty, empty]
  refine (getEthAccount_same h addr).bind ?_
  rintro ⟨a, u⟩ ⟨b, u'⟩ ⟨rfl, hu⟩
  exact balanceTest_same hu addr fun balance => a.isEmpty && balance = 0

end

theorem suicide_same (h : v.view = w.view) (rnd : Rand) (addr : Address) :
    Outcome.LiftRel SameAnswer (v.suicide rnd addr) (w.suicide rnd addr) := by
  rw [suicide, suicide]
  refine (getEthAccount_same h addr).bind ?_
  rintro ⟨a, u⟩ ⟨b, u'⟩ ⟨rfl, hu⟩
  dsimp only
  split
  · exact .ok ⟨rfl, hu⟩
  · have hi : ({ u with Suicided := insert addr u.Suicided } : World).view =
        ({ u' with Suicided := insert addr u'.Suicided } : World).view :=
      congrArg (fun x : View => { x with Suicided := insert addr x.Suicided }) hu
    refine (orDbErr_same hi (setBalance_same hu rnd addr 0)).bind ?_
    intro x y hxy
    exact .ok ⟨rfl, hxy⟩

end World

/-! ## Calls -/

inductive Read where
  | getState (contract : Address) (key : Hash)
  | getCommittedState (addr : Address) (key : Hash)
  | getBalance (addr : Address)
  | getNonce (addr : Address)
  | getCode (addr : Address)
  | getCodeHash (addr : Address)
  | hasSuicided (addr : Address)
  | exist (addr : Address)
  | empty (addr : Address)
  | getRefund
  | getLogs

inductive Answer where
  | hash (h : Hash)
  | number (n : ℕ)
  | bytes (b : Bytes)
  | flag (b : Bool)
  | logs (ls : List StorageLog)

def Read.run (w : World) : Read → Outcome (Answer × World)
  | .getState contract key => .ok (.hash (w.getState contract key), w)
  | .getCommittedState addr key => .ok (.hash (w.getCommittedState addr key), w)
  | .getBalance addr => do let (b, w) ← w.getBalance addr; .ok (.number b, w)
  | .getNonce addr => do let (n, w) ← w.getNonce addr; .ok (.number n.toNat, w)
  | .getCode addr => do let (c, w) ← w.getCode addr; .ok (.bytes c, w)
  | .getCodeHash addr => do let (h, w) ← w.getCodeHash addr; .ok (.hash h, w)
  | .hasSuicided addr => .ok (.flag (w.hasSuicided addr), w)
  | .exist addr => do let (b, w) ← w.exist addr; .ok (.flag b, w)
  | .empty addr => do let (b, w) ← w.empty addr; .ok (.flag b, w)
  | .getRefund => .ok (.number w.getRefund.toNat, w)
  | .getLogs => .ok (.logs w.getLogs, w)

/-- A call of a method other than `Snapshot`, `RevertToSnapshot` and the commits. -/
inductive Op where
  | setState (rnd : Rand) (contract : Address) (key value : Hash)
  | setNonce (rnd : Rand) (addr : Address) (nonce : UInt64)
  | setCode (rnd : Rand) (addr : Address) (code : Bytes)
  | addBalance (rnd : Rand) (addr : Address) (val : ℤ)
  | subBalance (rnd : Rand) (addr : Address) (val : ℤ)
  | suicide (rnd : Rand) (addr : Address)
  | addLog (log : StorageLog)
  | addRefund (gas : UInt64)
  | subRefund (gas : UInt64)
  | createAccount (addr : Address)
  | read (r : Read)

def Op.run (keccak256 : Bytes → Hash) (w : World) : Op → Outcome World
  | .setState rnd contract key value => .ok (w.setState rnd contract key value)
  | .setNonce rnd addr nonce => w.setNonce rnd addr nonce
  | .setCode rnd addr code => w.setCode keccak256 rnd addr code
  | .addBalance rnd addr val => w.addBalance rnd addr val
  | .subBalance rnd addr val => w.subBalance rnd addr val
  | .suicide rnd addr => do let (_, w) ← w.suicide rnd addr; .ok w
  | .addLog log => .ok (w.addLog log)
  | .addRefund gas => .ok (w.addRefund gas)
  | .subRefund gas => w.subRefund gas
  | .createAccount _ => .ok w
  | .read r => do let (_, w) ← r.run w; .ok w

variable {x y : Outcome (α × World)}

theorem sameAnswer_map {α : Type} {x y : Outcome (α × World)} (h : Outcome.LiftRel SameAnswer x y) (f : α → Answer) :
    Outcome.LiftRel SameAnswer (do let (a, w) ← x; .ok (f a, w)) (do let (a, w) ← y; .ok (f a, w)) := by
  refine h.bind ?_
  rintro ⟨a, u⟩ ⟨b, u'⟩ ⟨rfl, hu⟩
  exact .ok ⟨rfl, hu⟩

/-- **Reads observe the view only.** -/
theorem Read.run_same {v w : World} (h : v.view = w.view) (r : Read) :
    Outcome.LiftRel SameAnswer (r.run v) (r.run w) := by
  cases r with
  | getState contract key =>
    exact .ok ⟨congrArg Answer.hash (World.getState_same h contract key), h⟩
  | getCommittedState addr key =>
    exact .ok ⟨congrArg Answer.hash (World.getCommittedState_same h addr key), h⟩
  | getBalance addr => exact sameAnswer_map (World.getBalance_same h addr) _
  | getNonce addr =>
    exact sameAnswer_map (World.readAccount_same h addr EthAccount.Nonce)
      fun nonce => .number nonce.toNat
  | getCode addr => exact sameAnswer_map (World.readAccount_same h addr EthAccount.Code) _
  | getCodeHash addr => exact sameAnswer_map (World.readAccount_same h addr EthAccount.CodeHash) _
  | hasSuicided addr =>
    have hs : v.Suicided = w.Suicided := congrArg View.Suicided h
    refine .ok ⟨?_, h⟩
    show Answer.flag (decide (addr ∈ v.Suicided)) = Answer.flag (decide (addr ∈ w.Suicided))
    rw [hs]
  | exist addr => exact sameAnswer_map (World.exist_same h addr) _
  | empty addr => exact sameAnswer_map (World.empty_same h addr) _
  | getRefund => exact .ok ⟨congrArg (fun x => Answer.number (View.refund x).toNat) h, h⟩
  | getLogs => exact .ok ⟨congrArg (fun x => Answer.logs (View.logs x)) h, h⟩

theorem sameAnswer_state {α : Type} {x y : Outcome (α × World)} (h : Outcome.LiftRel SameAnswer x y) :
    Outcome.LiftRel SameView (do let (_, w) ← x; .ok w) (do let (_, w) ← y; .ok w) := by
  refine h.bind ?_
  rintro ⟨a, u⟩ ⟨b, u'⟩ ⟨-, hu⟩
  exact .ok hu

/-- **Calls depend on the view only**, and what they do to it does too. -/
theorem Op.run_same (keccak256 : Bytes → Hash) {v w : World} (h : v.view = w.view) (op : Op) :
    Outcome.LiftRel SameView (op.run keccak256 v) (op.run keccak256 w) := by
  have hr : v.refund = w.refund := congrArg View.refund h
  cases op with
  | setState rnd contract key value =>
    exact .ok (World.view_withCache h ((World.sameCache h).put rnd _ _ _))
  | setNonce rnd addr nonce =>
    exact World.updateAccount_same h rnd addr fun a => { a with Nonce := nonce }
  | setCode rnd addr code =>
    exact World.updateAccount_same h rnd addr
      fun a => { a with CodeHash := keccak256 code, Code := code }
  | addBalance rnd addr val =>
    exact World.orDbErr_same h (World.updateBalance_same h rnd addr (· + U256.fromBig val))
  | subBalance rnd addr val =>
    exact World.orDbErr_same h (World.updateBalance_same h rnd addr (· - U256.fromBig val))
  | suicide rnd addr => exact sameAnswer_state (World.suicide_same h rnd addr)
  | addLog log =>
    have hv := congrArg (fun x : View => { x with logs := x.logs ++ [log] }) h
    exact .ok hv
  | addRefund gas =>
    have hv := congrArg (fun x : View => { x with refund := x.refund + gas }) h
    exact .ok hv
  | subRefund gas =>
    show Outcome.LiftRel SameView (v.subRefund gas) (w.subRefund gas)
    rw [World.subRefund, World.subRefund, hr]
    split
    · exact .panic _
    · have hv := congrArg (fun x : View => { x with refund := w.refund - gas }) h
      exact .ok hv
  | createAccount addr => exact .ok h
  | read r => exact sameAnswer_state (r.run_same h)

end Web3.Storage
