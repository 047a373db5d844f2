import Mathlib.Data.Set.Card
import Web3.Storage.Accounts
import Web3.Vm.Charges
import Web3.Vm.MapDB
import Web3.Vm.StorageDB

/-! # The refund counter

`SubRefund` panics when the counter would go below zero. The gas functions of `SSTORE` only take back
what a slot that the transaction has cleared has put there, so this does not happen: in every state
between instructions the counter has at least `15000` for each slot that was not zero before the
transaction and is zero now. What the instructions look at is the `Tally` of a state; that of the state
at each snapshot comes back with it. -/

namespace Web3.Vm
open Storage (World View Op CacheDB Framed U256 Rand)
open ExecM Prog

/-- A contract and a key of its storage. -/
abbrev Slot := Address × Hash

/-! ## Cleared slots -/

section Cleared
variable {original current : Slot → Hash}

def cleared (original current : Slot → Hash) : Set Slot :=
  {p | original p ≠ Hash.zero ∧ current p = Hash.zero}

theorem cleared_self (original : Slot → Hash) : cleared original original = ∅ := by
  ext p
  simp [cleared]

theorem cleared_update_diff (p : Slot) (value : Hash) :
    cleared original (Function.update current p value) \ {p} = cleared original current \ {p} := by
  ext q
  by_cases hq : q = p
  · simp [hq]
  · simp [cleared, hq]

theorem finite_cleared_update (h : (cleared original current).Finite) (p : Slot) (value : Hash) :
    (cleared original (Function.update current p value)).Finite := by
  refine (h.insert p).subset fun q hq => ?_
  by_cases hqp : q = p
  · exact .inl hqp
  · rw [cleared, Set.mem_ofPred_eq, Function.update_of_ne hqp] at hq
    exact .inr hq

open Classical in
theorem ncard_eq_diff_add {s : Set Slot} (h : s.Finite) (p : Slot) :
    s.ncard = (s \ {p}).ncard + if p ∈ s then 1 else 0 := by
  by_cases hp : p ∈ s
  · rw [if_pos hp, Set.ncard_sdiff_singleton_add_one hp h]
  · rw [if_neg hp, Set.sdiff_singleton_eq_self hp, Nat.add_zero]

theorem ncard_cleared_update (h : (cleared original current).Finite) (p : Slot) (value : Hash) :
    (cleared original (Function.update current p value)).ncard +
        (if original p ≠ Hash.zero ∧ current p = Hash.zero then 1 else 0) =
      (cleared original current).ncard + if original p ≠ Hash.zero ∧ value = Hash.zero then 1 else 0 := by
  have hbefore := ncard_eq_diff_add h p
  have hafter := ncard_eq_diff_add (finite_cleared_update h p value) p
  have hmem : p ∈ cleared original (Function.update current p value) ↔ original p ≠ Hash.zero ∧ value = Hash.zero := by
    simp [cleared]
  rw [cleared_update_diff] at hafter
  simp only [hmem] at hafter
  have hin : p ∈ cleared original current ↔ original p ≠ Hash.zero ∧ current p = Hash.zero := Iff.rfl
  simp only [hin] at hbefore
  omega

end Cleared

/-! ## Tallies -/

structure Tally where
  original : Slot → Hash
  current : Slot → Hash
  refund : UInt64

@[irreducible] def tally (x : View) : Tally where
  original p := x.world.getCommittedState p.1 p.2
  current p := x.world.getState p.1 p.2
  refund := x.refund

theorem tally_view (w : World) : tally w.view =
    ⟨fun p => w.getCommittedState p.1 p.2, fun p => w.getState p.1 p.2, w.refund⟩ := by
  unfold tally
  rfl

def Tally.after (t : Tally) : Op → Tally
  | .setState _ contract key value => { t with current := Function.update t.current (contract, key) value }
  | .addRefund gas => { t with refund := t.refund + gas }
  | .subRefund gas => { t with refund := t.refund - gas }
  | _ => t

section Calls
variable {w w' : World}

theorem tally_eq (hframed : Framed w w') (hget : ∀ key, w'.cacheDB.Get key = w.cacheDB.Get key)
    (hrefund : w'.refund = w.refund) : tally w'.view = tally w.view := by
  have hcommitted : ∀ key, w'.cacheDB.backend.get key = w.cacheDB.backend.get key := fun key => by
    rw [Storage.OverlayDB.get_eq, Storage.OverlayDB.get_eq, hframed.overlay, hframed.store]
  rw [tally_view, tally_view]
  simp only [World.getCommittedState, World.getState, hcommitted, hget, hrefund]

theorem get_putAccount (db : CacheDB) (rnd : Rand) (addr key raw : Bytes) :
    (db.put rnd Storage.ST_ETH_ACCOUNT addr raw).Get key = db.Get key := by
  have hne : Storage.makePrefixedKey Storage.ST_ETH_ACCOUNT addr ≠
      Storage.makePrefixedKey Storage.ST_STORAGE key := fun h => absurd (List.cons.inj h).1 (by decide)
  rw [CacheDB.Get, CacheDB.get_eq, CacheDB.Get, CacheDB.get_eq, CacheDB.put, Storage.Table.at?_put, if_neg hne]

theorem get_putEthAccount (db : CacheDB) (rnd : Rand) (addr : Address) (a : Storage.EthAccount) :
    (db.putEthAccount rnd addr a).Ensures fun db' => ∀ key, db'.Get key = db.Get key := by
  rw [CacheDB.putEthAccount]
  split
  · exact Outcome.ensures_ok fun key => get_putAccount db rnd addr.1 key []
  · intro db' h
    obtain ⟨raw, -, h⟩ := Outcome.bind_eq_ok.mp h
    cases h
    exact fun key => get_putAccount db rnd addr.1 key raw

theorem tally_updateAccount (rnd : Rand) (addr : Address) (f : Storage.EthAccount → Storage.EthAccount)
    (h : (do let (a, u) ← w.getEthAccount addr; u.putEthAccount rnd addr (f a)) = .ok w') :
    tally w'.view = tally w.view := by
  have hframed := w.updateAccount_framed rnd addr f w' h
  obtain ⟨⟨a, u⟩, hu, h⟩ := Outcome.bind_eq_ok.mp h
  have hview := w.getEthAccount_view addr _ hu
  obtain ⟨db, hdb, h⟩ := Outcome.bind_eq_ok.mp h
  cases h
  refine tally_eq hframed (fun key => ?_) (congrArg View.refund hview)
  exact (get_putEthAccount u.cacheDB rnd addr _ db hdb key).trans ((World.sameCache hview).get _ _)

theorem tally_orDbErr {x : Outcome CacheDB} (hframed : Framed w w')
    (hx : x.Ensures fun db => ∀ key, db.Get key = w.cacheDB.Get key) (h : w.orDbErr x = .ok w') :
    tally w'.view = tally w.view := by
  cases x with
  | ok db =>
    cases h
    exact tally_eq hframed (hx db rfl) rfl
  | err e =>
    cases h
    exact congrArg tally (w.view_setDbErr e)
  | panic p => cases h

theorem get_updateBalance (db : CacheDB) (rnd : Rand) (addr : Address) (f : U256 → U256) : (do
      let acct ← db.getEthAccount addr
      let balance ← acct.balance
      db.putEthAccount rnd addr { acct with Balance := some (f balance) }).Ensures
      fun db' : CacheDB => ∀ key, db'.Get key = db.Get key := by
  intro db' h
  obtain ⟨acct, -, h⟩ := Outcome.bind_eq_ok.mp h
  obtain ⟨balance, -, h⟩ := Outcome.bind_eq_ok.mp h
  exact get_putEthAccount db rnd addr _ db' h

theorem tally_suicide {rnd : Rand} {addr : Address} {b : Bool} (h : w.suicide rnd addr = .ok (b, w')) :
    tally w'.view = tally w.view := by
  obtain ⟨⟨acct, u⟩, hu, h⟩ := Outcome.bind_eq_ok.mp h
  have hview : u.view = w.view := w.getEthAccount_view addr _ hu
  dsimp only at h
  split at h
  · cases h
    exact congrArg tally hview
  · obtain ⟨v, hv, h⟩ := Outcome.bind_eq_ok.mp h
    cases h
    have hset : (Storage.BalanceHandle.setBalance u.cacheDB rnd addr 0).Ensures
        fun db => ∀ key, db.Get key = u.cacheDB.Get key := fun db hdb => by
      obtain ⟨a, -, hdb⟩ := Outcome.bind_eq_ok.mp hdb
      exact get_putEthAccount u.cacheDB rnd addr _ db hdb
    have hframed := World.orDbErr_framed { u with Suicided := insert addr u.Suicided }
      (u.cacheDB.setBalance_backend rnd addr 0) w' hv
    have hmarked : tally ({ u with Suicided := insert addr u.Suicided } : World).view = tally u.view := by
      rw [tally_view, tally_view]
      rfl
    rw [tally_orDbErr hframed hset hv, hmarked, hview]

theorem tally_setState (w : World) (rnd : Rand) (contract : Address) (key value : Hash) :
    tally (w.setState rnd contract key value).view =
      { tally w.view with current := Function.update (tally w.view).current (contract, key) value } := by
  have hget : ∀ p : Slot, (w.setState rnd contract key value).getState p.1 p.2 =
      Function.update (fun p : Slot => w.getState p.1 p.2) (contract, key) value p := by
    intro p
    rw [World.getState, World.setState, CacheDB.Get, CacheDB.Put, CacheDB.get_put]
    by_cases hp : p = (contract, key)
    · subst hp
      rw [if_pos rfl, Function.update_self]
      exact bytesToHash_val value
    · rw [if_neg (fun h => hp (Storage.genKey_injective (p := (contract, key)) h).symm), Function.update_of_ne hp]
      rfl
  rw [tally_view, tally_view]
  exact congrArg (fun c => Tally.mk (fun p => w.getCommittedState p.1 p.2) c w.refund) (funext hget)

/-- **What a call does to the tally.** -/
theorem run_tally (keccak256 : Bytes → Hash) (w : World) (op : Op) :
    (op.run keccak256 w).Ensures fun w' => tally w'.view = (tally w.view).after op := by
  intro w' h
  have hframed := op.run_framed keccak256 w w' h
  cases op with
  | setState rnd contract key value =>
    cases h
    exact tally_setState w rnd contract key value
  | setNonce rnd addr nonce => exact tally_updateAccount rnd addr (fun a => { a with Nonce := nonce }) h
  | setCode rnd addr code =>
    exact tally_updateAccount rnd addr (fun a => { a with CodeHash := keccak256 code, Code := code }) h
  | addBalance rnd addr val =>
    exact tally_orDbErr hframed (get_updateBalance w.cacheDB rnd addr (· + U256.fromBig val)) h
  | subBalance rnd addr val =>
    exact tally_orDbErr hframed (get_updateBalance w.cacheDB rnd addr (· - U256.fromBig val)) h
  | suicide rnd addr =>
    obtain ⟨⟨b, u⟩, hu, h⟩ := Outcome.bind_eq_ok.mp h
    cases h
    exact tally_suicide hu
  | addLog log | addRefund gas =>
    cases h
    rw [tally_view, tally_view]
    rfl
  | subRefund gas =>
    change w.subRefund gas = _ at h
    unfold World.subRefund at h
    split at h
    · cases h
    · cases h
      rw [tally_view, tally_view]
      rfl
  | createAccount addr =>
    cases h
    rfl
  | read r =>
    obtain ⟨⟨a, u⟩, hu, h⟩ := Outcome.bind_eq_ok.mp h
    cases h
    exact congrArg tally (r.run_view w _ hu)

end Calls

/-! ## The methods -/

def Seeded.books (s : Seeded) : Checkpointed Tally := s.abs.map tally

theorem books_current (s : Seeded) : s.books.current =
    ⟨fun p => s.world.getCommittedState p.1 p.2, fun p => s.world.getState p.1 p.2, s.world.refund⟩ :=
  tally_view s.world

abbrev Frame.books (f : Frame Seeded) : Checkpointed Tally := f.interp.db.books

def withRefund (b : Checkpointed Tally) (r : UInt64) : Checkpointed Tally :=
  { b with current := { b.current with refund := r } }

def withSlot (b : Checkpointed Tally) (p : Slot) (value : Hash) : Checkpointed Tally :=
  { b with current := { b.current with current := Function.update b.current.current p value } }

section Methods
variable {α : Type} {s : Seeded} {Q : Unit → Seeded → Prop} {R : Empty → Seeded → Prop} {X : String → Prop}
  {keccak256 : Bytes → Hash}

theorem books_call {w : World} {s' : Seeded} {t : Tally} (habs : s'.abs = { s.abs with current := w.view })
    (ht : tally w.view = t) : s'.books = { s.books with current := t } := by
  rw [Seeded.books, habs, Seeded.books, ← ht]
  rfl

theorem wp_ofOp (keccak256 : Bytes → Hash) (op : Rand → Op)
    (hok : ∀ s', s'.books = { s.books with current := s.books.current.after (op (s.rand 0)) } → Q () s')
    (hstop : ∀ e, (op (s.rand 0)).run keccak256 s.world = .err e ∨
      (op (s.rand 0)).run keccak256 s.world = .panic e → X e) :
    wp (Seeded.call (.ofOp keccak256 op)) Q R X s := by
  refine Seeded.wp_call (fun a w s' hrun _ habs => ?_) (fun e he => hstop e ?_)
  · obtain ⟨w', hw, hrun⟩ := Outcome.bind_eq_ok.mp hrun
    cases hrun
    exact hok s' (books_call habs (run_tally keccak256 s.world _ w hw))
  · cases hrun : (op (s.rand 0)).run keccak256 s.world with
    | ok w => simp [Method.ofOp, hrun] at he
    | err | panic => simpa [Method.ofOp, hrun] using he

variable {gas : UInt64}

theorem wp_addRefund
    (h : ∀ s', s'.books = withRefund s.books (s.books.current.refund + gas) → Q () s') :
    wp ((storageDB keccak256).addRefund gas) Q R X s :=
  wp_ofOp keccak256 (fun _ => .addRefund gas) h (by simp [Op.run])

theorem wp_subRefund (hle : gas ≤ s.books.current.refund)
    (h : ∀ s', s'.books = withRefund s.books (s.books.current.refund - gas) → Q () s') :
    wp ((storageDB keccak256).subRefund gas) Q R X s := by
  have hnot : ¬gas > s.world.refund := by
    rw [books_current] at hle
    exact UInt64.not_lt.mpr hle
  exact wp_ofOp keccak256 (fun _ => .subRefund gas) h (by simp [Op.run, World.subRefund, hnot])

theorem wp_setState {contract : Address} {key value : Hash}
    (h : ∀ s', s'.books = withSlot s.books (contract, key) value → Q () s') :
    wp ((storageDB keccak256).setState contract key value) Q R X s :=
  wp_ofOp keccak256 (.setState · contract key value) h (by simp [Op.run])

theorem wp_ofQuery {q : Storage.Query α} {Q : α → Seeded → Prop} (h : ∀ a s', s'.books = s.books → Q a s')
    (hX : ∀ e, X e) : wp (Seeded.call (.ofQuery q)) Q R X s := by
  refine Seeded.wp_query (fun a w s' _ habs => h a s' ?_) hX
  rw [Seeded.books, habs, Seeded.books]

theorem wp_suicide {addr : Address} {Q : Bool → Seeded → Prop} (h : ∀ a s', s'.books = s.books → Q a s')
    (hX : ∀ e, X e) : wp ((storageDB keccak256).suicide addr) Q R X s := by
  refine Seeded.wp_call (fun a w s' hrun _ habs => h a s' ?_) (fun e _ => hX e)
  exact books_call habs (tally_suicide hrun)

end Methods

/-! ## Prices -/

variable {σ : Type} {x : U256}

@[simp] theorem wp_onDb {α : Type} {m : DbM σ α} {Q : α → Frame σ → Prop}
    {R : VmError → Frame σ → Prop} {X : Stop → Prop} {f : Frame σ} :
    wp (onDb m) Q R X f ↔ wp m (fun a db => Q a { f with interp := { f.interp with db } }) (fun _ _ => True)
      (fun p => X (.panic p)) f.interp.db := by
  rw [onDb, wp_onEvm, EvmM.onDb, wp_zoom]

theorem wp_onDb_read {α : Type} {r : σ → α} {Q : α → Frame σ → Prop} {R : VmError → Frame σ → Prop}
    {X : Stop → Prop} {f : Frame σ} : wp (onDb (.read r)) Q R X f ↔ Q (r f.interp.db) f := Iff.rfl

theorem wp_bind_back {β : Type} {n : ℕ} {k : U256 → ExecM σ β} {Q : β → Frame σ → Prop}
    {R : VmError → Frame σ → Prop} {X : Stop → Prop} {f : Frame σ} (h : f.machine.stack[n]? = some x) :
    wp (onMachine (MachineM.back n) >>= k) Q R X f ↔ wp (k x) Q R X f := by
  simp [h]

structure NetPrices.Regular (p : NetPrices) : Prop where
  clear : p.clearRefund = 15000
  reset : p.resetRefund.toNat ≤ 24000
  resetClear : p.resetClearRefund.toNat ≤ 24000

theorem netPrices_regular : netPrices.Regular := ⟨by decide, by decide, by decide⟩

theorem netPricesEIP2200_regular : netPricesEIP2200.Regular := ⟨by decide, by decide, by decide⟩

def share (original current : Hash) : ℕ := if original ≠ Hash.zero ∧ current = Hash.zero then 15000 else 0

theorem share_eq (original current : Hash) :
    share original current = 15000 * if original ≠ Hash.zero ∧ current = Hash.zero then 1 else 0 := by
  unfold share
  split <;> rfl

/-- The counter has been changed for a write of `value` that is still to come: it has lost no more than
what the slot will stand for less. -/
def Priced (p : Slot) (value : Hash) (b b' : Checkpointed Tally) : Prop :=
  ∃ r : UInt64, b' = withRefund b r ∧ b.current.refund.toNat + share (b.current.original p) value ≤
      r.toNat + share (b.current.original p) (b.current.current p) ∧
    r.toNat ≤ b.current.refund.toNat + 24000

/-- The counter, the slots and the snapshots are as before. -/
def SameBooks (f f' : Frame Seeded) : Prop := f'.books = f.books

instance : IsPreorder (Frame Seeded) SameBooks where
  refl _ := rfl
  trans _ _ _ h h' := h'.trans h

section Prices
variable {vm : Evm Seeded} {keccak256 : Bytes → Hash} {c : Contract} {f : Frame Seeded}
  {r gas : UInt64} {b : Checkpointed Tally} {original value : Hash} {prices : NetPrices}
  (hdb : vm.StateDB = storageDB keccak256)

theorem toNat_add_of_room (hroom : r.toNat + 24000 < 2 ^ 64) (hgas : gas.toNat ≤ 24000) :
    (r + gas).toNat = r.toNat + gas.toNat := by
  rw [UInt64.toNat_add]
  exact Nat.mod_eq_of_lt (by omega)

include hdb

theorem wp_clear {current : Hash} (hgas : gas = 15000)
    (hb : f.books = b) (hne : current ≠ value)
    (hshare : share original current ≤ b.current.refund.toNat)
    (hroom : b.current.refund.toNat + 24000 < 2 ^ 64) :
    wp (.when (original ≠ Hash.zero) (if current = Hash.zero then onDb (vm.StateDB.subRefund gas)
        else .when (value = Hash.zero) (onDb (vm.StateDB.addRefund gas))))
      (fun _ f' => f'.machine = f.machine ∧ ∃ r, f'.books = withRefund b r ∧
        r.toNat + share original current = b.current.refund.toNat + share original value)
      (fun _ _ => False) (fun _ => False) f := by
  subst hgas hb
  simp only [hdb, wp_when, wp_ite, wp_onDb, true_and]
  refine ⟨fun ho => ⟨fun hc => ?_, fun hc => ⟨fun hv => ?_, fun hv => ?_⟩⟩, fun ho => ?_⟩
  · have hv : value ≠ Hash.zero := fun hv => hne (hc.trans hv.symm)
    rw [share, if_pos ⟨ho, hc⟩] at hshare
    have hle : (15000 : UInt64) ≤ f.books.current.refund := UInt64.le_iff_toNat_le.mpr hshare
    refine wp_subRefund hle fun s' hs' => ⟨_, hs', ?_⟩
    rw [UInt64.toNat_sub_of_le _ _ hle, share, if_pos ⟨ho, hc⟩, share, if_neg fun h => hv h.2]
    exact Nat.sub_add_cancel hshare
  · refine wp_addRefund fun s' hs' => ⟨_, hs', ?_⟩
    rw [toNat_add_of_room hroom (by decide), share, if_neg fun h => hc h.2, share, if_pos ⟨ho, hv⟩]
    rfl
  · refine ⟨f.books.current.refund, rfl, ?_⟩
    rw [share, if_neg fun h => hc h.2, share, if_neg fun h => hv h.2]
  · refine ⟨f.books.current.refund, rfl, ?_⟩
    rw [share, if_neg fun h => ho h.1, share, if_neg fun h => ho h.1]

theorem wp_reset (hp : prices.Regular)
    (hb : f.books = withRefund b r) (hroom : original = value → r.toNat + 24000 < 2 ^ 64) :
    wp (.when (original = value) (if original = Hash.zero then
          onDb (vm.StateDB.addRefund prices.resetClearRefund)
        else onDb (vm.StateDB.addRefund prices.resetRefund)))
      (fun _ f' => f'.machine = f.machine ∧ ∃ r', f'.books = withRefund b r' ∧ r.toNat ≤ r'.toNat ∧
        r'.toNat ≤ r.toNat + 24000 ∧ (original ≠ value → r' = r))
      (fun _ _ => False) (fun _ => False) f := by
  have hadd : ∀ gas : UInt64, gas.toNat ≤ 24000 → original = value →
      wp ((storageDB keccak256).addRefund gas) (fun _ s' => ∃ r', s'.books = withRefund b r' ∧ r.toNat ≤ r'.toNat ∧
        r'.toNat ≤ r.toNat + 24000 ∧ (original ≠ value → r' = r)) (fun _ _ => True) (fun _ => False)
        f.interp.db := by
    intro gas hgas he
    refine wp_addRefund fun s' hs' => ?_
    have hsum := toNat_add_of_room (hroom he) hgas
    rw [show f.interp.db.books = _ from hb] at hs'
    exact ⟨r + gas, hs', by omega, by omega, fun h => absurd he h⟩
  simp only [hdb, wp_when, wp_ite, wp_onDb, true_and]
  refine ⟨fun he => ⟨fun _ => hadd _ hp.resetClear he, fun _ => hadd _ hp.reset he⟩, fun _ => ?_⟩
  exact ⟨r, hb, le_rfl, by omega, fun _ => rfl⟩

theorem netSStoreGas_priced (hp : prices.Regular) {slot : Hash}
    (hshare : share (f.books.current.original (c.address, slot))
      (f.books.current.current (c.address, slot)) ≤ f.books.current.refund.toNat)
    (hroom : f.books.current.refund.toNat + 24000 < 2 ^ 64) :
    wp (netSStoreGas vm c prices slot (f.books.current.current (c.address, slot)) value)
      (fun _ f' => f'.machine = f.machine ∧ Priced (c.address, slot) value f.books f'.books)
      (fun _ _ => False) (fun _ => False) f := by
  generalize hb : f.books = b at hshare hroom ⊢
  generalize hcurrent : b.current.current (c.address, slot) = current at hshare ⊢
  generalize horiginal : b.current.original (c.address, slot) = original at hshare
  have hread : f.interp.db.world.getCommittedState c.address slot = original := by
    rw [← horiginal, ← hb, books_current]
  unfold Priced
  rw [horiginal, hcurrent]
  unfold netSStoreGas
  rw [wp_ite]
  refine ⟨fun he => ⟨rfl, b.current.refund, hb, by rw [he], by omega⟩, fun hne => ?_⟩
  have hcommitted : vm.StateDB.getCommittedState c.address slot =
      .read fun s => s.world.getCommittedState c.address slot := by
    rw [hdb]
    rfl
  rw [wp_bind, hcommitted, wp_onDb_read, hread, wp_ite]
  refine ⟨fun ho => ?_, fun ho => ?_⟩
  · -- the slot is as before the transaction
    rw [wp_ite]
    refine ⟨fun hzero => ⟨rfl, b.current.refund, hb, ?_, by omega⟩, fun hnonzero => ?_⟩
    · simp [share, hzero]
    have hcurrent : current ≠ Hash.zero := fun hc => hnonzero (ho.trans hc)
    simp only [wp_bind, wp_when, wp_onDb, wp_pure, hdb, true_and]
    refine ⟨fun hv => wp_addRefund fun s' hs' => ⟨_, (show f.interp.db.books = _ from hb) ▸ hs', ?_⟩, fun hv => ⟨b.current.refund, hb, ?_⟩⟩
    · rw [toNat_add_of_room hroom (by rw [hp.clear]; decide), hp.clear]
      simp [share, hnonzero, hv]
    · simp [share, hv]
  · -- it has been written
    rw [wp_bind]
    refine wp_mono (wp_clear hdb hp.clear hb hne hshare hroom) ?_ (fun _ _ h => h) fun _ h => h
    rintro _ t ⟨hmachine, r, hr, hbalance⟩
    have hv : original = value → share original value = 0 := by
      rintro rfl
      simp [share]
    have hsmall : share original value ≤ 15000 := by
      unfold share
      split <;> omega
    rw [wp_bind]
    refine wp_mono (wp_reset hdb hp hr fun he => ?_) ?_ (fun _ _ h => h) fun _ h => h
    · have := hv he
      omega
    rintro _ u ⟨hmachine', r', hr', hlow, hhigh, hsame⟩
    refine ⟨hmachine'.trans hmachine, r', hr', by omega, ?_⟩
    by_cases he : original = value
    · have := hv he
      omega
    · rw [hsame he]
      omega

/-- The two ways to price a write by what it changes. -/
inductive Metering where
  | eip1283 | eip2200

/-- Under the rules of EIP-1283, `gasSStore` does not use the metering of before. -/
def Metering.Applies (rules : Rules) : Metering → Prop
  | eip1283 => rules.IsConstantinople ∧ ¬rules.IsPetersburg
  | eip2200 => True

def Metering.price {σ : Type} (vm : Evm σ) (c : Contract) : Metering → ExecM σ UInt64
  | eip1283 => gasSStore vm c
  | eip2200 => gasSStoreEIP2200 vm c

theorem price_priced {metering : Metering} (happlies : metering.Applies vm.chainRules) {y : U256} {stack : List U256}
    (hstack : f.machine.stack = x :: y :: stack)
    (hshare : ∀ p, share (f.books.current.original p) (f.books.current.current p) ≤
      f.books.current.refund.toNat) (hroom : f.books.current.refund.toNat + 24000 < 2 ^ 64) :
    wp (metering.price vm c) (fun _ f' => f'.machine = f.machine ∧
        Priced (c.address, U256.bytes32 x) (U256.bytes32 y) f.books f'.books)
      (fun _ => SameBooks f) (fun _ => False) f := by
  have hnet {prices : NetPrices} (hp : prices.Regular) : wp (netSStoreGas vm c prices (U256.bytes32 x)
          (f.books.current.current (c.address, U256.bytes32 x)) (U256.bytes32 y))
        (fun _ f' => f'.machine = f.machine ∧
          Priced (c.address, U256.bytes32 x) (U256.bytes32 y) f.books f'.books)
        (fun _ => SameBooks f) (fun _ => False) f :=
    wp_mono (netSStoreGas_priced hdb hp (hshare _) hroom) (fun _ _ h => h) (fun _ _ h => h.elim) fun _ h => h
  have hx : f.machine.stack[0]? = some x := by rw [hstack]; rfl
  have hy : f.machine.stack[1]? = some y := by rw [hstack]; rfl
  have hget (key : Hash) : vm.StateDB.getState c.address key =
      .read fun s => s.books.current.current (c.address, key) := by
    simp only [hdb, books_current]
    rfl
  cases metering with
  | eip1283 =>
    have hrules : ¬(vm.chainRules.IsPetersburg = true ∨ (!vm.chainRules.IsConstantinople) = true) := by
      simp [happlies.1, happlies.2]
    unfold Metering.price gasSStore
    rw [wp_bind_back hy, wp_bind_back hx, wp_bind, hget, wp_onDb_read, if_neg hrules]
    exact hnet netPrices_regular
  | eip2200 =>
    unfold Metering.price gasSStoreEIP2200
    rw [wp_bind, wp_read, wp_ite]
    refine ⟨fun _ => rfl, fun _ => ?_⟩
    rw [wp_bind_back hy, wp_bind_back hx, wp_bind, hget, wp_onDb_read]
    exact hnet netPricesEIP2200_regular

omit hdb in
theorem price_short (metering : Metering) (h : f.machine.stack.length < 2) :
    wp (metering.price vm c) (fun _ _ => False) (fun _ => SameBooks f) (fun _ => True) f := by
  have hnone : f.machine.stack[1]? = none := List.getElem?_eq_none (by omega)
  cases metering with
  | eip1283 =>
    unfold Metering.price gasSStore
    rw [wp_bind, wp_onMachine, wp_back, hnone]
    exact ⟨nofun, fun _ => trivial⟩
  | eip2200 =>
    unfold Metering.price gasSStoreEIP2200
    rw [wp_bind, wp_read, wp_ite]
    refine ⟨fun _ => rfl, fun _ => ?_⟩
    rw [wp_bind, wp_onMachine, wp_back, hnone]
    exact ⟨nofun, fun _ => trivial⟩

end Prices

/-! ## The invariant -/

/-- The counter has what the cleared slots stand for; `n` steps have put no more there than this. -/
structure Backed (n : ℕ) (t : Tally) : Prop where
  finite : (cleared t.original t.current).Finite
  backed : 15000 * (cleared t.original t.current).ncard ≤ t.refund.toNat
  bounded : t.refund.toNat ≤ 24000 * n

namespace Backed
variable {n : ℕ} {t : Tally}

theorem share_le (h : Backed n t) (p : Slot) : share (t.original p) (t.current p) ≤ t.refund.toNat := by
  unfold share
  split
  next hp =>
    have hpos : 0 < (cleared t.original t.current).ncard := (Set.ncard_pos h.finite).mpr ⟨p, hp⟩
    have := h.backed
    omega
  · exact Nat.zero_le _

theorem room (h : Backed n t) (hn : n < 2 ^ 40) : t.refund.toNat + 24000 < 2 ^ 64 := by
  have := h.bounded
  omega

theorem mono (h : Backed n t) : Backed (n + 1) t := ⟨h.finite, h.backed, by have := h.bounded; omega⟩

theorem gain (h : Backed n t) {r : UInt64} (hlow : t.refund.toNat ≤ r.toNat)
    (hhigh : r.toNat ≤ t.refund.toNat + 24000) : Backed (n + 1) { t with refund := r } :=
  ⟨h.finite, h.backed.trans hlow, by have := h.bounded; dsimp only; omega⟩

theorem write {b b' : Checkpointed Tally} (h : Backed n b.current) {p : Slot} {value : Hash}
    (hp : Priced p value b b') : Backed (n + 1) (withSlot b' p value).current := by
  obtain ⟨r, rfl, hlow, hhigh⟩ := hp
  have hcard := ncard_cleared_update h.finite p value
  have hbacked := h.backed
  have hbounded := h.bounded
  refine ⟨finite_cleared_update h.finite p value, ?_, ?_⟩
  · rw [share_eq, share_eq] at hlow
    dsimp only [withRefund, withSlot]
    omega
  · dsimp only [withRefund, withSlot]
    omega

end Backed

/-! ## Instructions -/

section Instructions
variable {α : Type} {vm : Evm Seeded} {keccak256 : Bytes → Hash} {c : Contract} {f : Frame Seeded} {n base : ℕ}
  (hdb : vm.StateDB = storageDB keccak256)

def Metering.sstore {σ : Type} (vm : Evm σ) (c : Contract) (metering : Metering) : ExecM σ Unit := do
  let cost ← metering.price vm c
  payGas cost
  let _ ← opSstore vm c

def selfdestruct {σ : Type} (vm : Evm σ) (c : Contract) : ExecM σ Unit := do
  let cost ← gasSelfdestruct vm c
  payGas cost
  let _ ← opSuicide vm c

include hdb

theorem opSstore_writes {y : U256} {stack : List U256}
    (hstack : f.machine.stack = x :: y :: stack) {Q : Slice → Frame Seeded → Prop}
    {R : VmError → Frame Seeded → Prop} {X : Stop → Prop} (h : ∀ f' : Frame Seeded,
      f'.books = withSlot f.books (c.address, U256.bytes32 x) (U256.bytes32 y) → Q .nil f') :
    wp (opSstore vm c) Q R X f := by
  unfold opSstore
  simp only [wp_bind, wp_onMachine, wp_pop, hstack, hdb, wp_onDb]
  refine ⟨?_, by simp⟩
  rintro _ _ ⟨⟩
  refine ⟨?_, by simp⟩
  rintro _ _ ⟨⟩
  exact wp_setState fun s' hs' => h _ hs'

theorem sstore_backed {metering : Metering} (happlies : metering.Applies vm.chainRules) (hn : n < 2 ^ 40)
    (h : f.books.Holds base (Backed n)) :
    wp (metering.sstore vm c) (fun _ f' => f'.books.Holds base (Backed (n + 1)))
      (fun _ f' => f'.books.saved = f.books.saved) (fun _ => True) f := by
  unfold Metering.sstore
  rw [wp_bind]
  by_cases hshort : f.machine.stack.length < 2
  · exact wp_mono (price_short metering hshort) (fun _ _ h => h.elim) (fun _ _ h => congrArg _ h) fun _ _ => trivial
  obtain ⟨x, y, stack, hstack⟩ : ∃ x y stack, f.machine.stack = x :: y :: stack := by
    match f.machine.stack, hshort with
    | x :: y :: stack, _ => exact ⟨x, y, stack, rfl⟩
    | [x], h => exact absurd Nat.one_lt_two h
    | [], h => exact absurd Nat.zero_lt_two h
  refine wp_mono (price_priced hdb happlies hstack h.1.share_le (h.1.room hn)) ?_
    (fun _ _ h => congrArg _ h) fun _ _ => trivial
  rintro cost t ⟨hmachine, hpriced⟩
  have hsaved : t.books.saved = f.books.saved := by
    obtain ⟨r, hr, -⟩ := hpriced
    rw [hr]
    rfl
  rw [wp_bind, wp_payGas]
  refine ⟨fun _ => ?_, fun _ => hsaved⟩
  rw [wp_bind]
  have hpaid : (t.paid cost).machine.stack = x :: y :: stack := (congrArg Machine.stack hmachine).trans hstack
  refine opSstore_writes hdb hpaid fun f' hf' => ?_
  rw [wp_pure, hf']
  refine ⟨h.1.write hpriced, fun i a hi ha => (h.2 i a hi ?_).mono⟩
  rw [← hsaved]
  exact ha

/-! ### Self-destruction -/

omit hdb in
theorem onMachine_sameBooks (m : MachineM α) : Keeps SameBooks (fun _ => True) (onMachine m) := by
  intro f
  rw [wp_onMachine]
  exact wp_of_forall (fun _ _ => rfl) (fun _ _ => rfl) fun _ => trivial

omit hdb in
theorem query_sameBooks (q : Storage.Query α) :
    Keeps SameBooks (fun _ => True) (onDb (Seeded.call (.ofQuery q))) := by
  intro f
  rw [wp_onDb]
  exact wp_ofQuery (fun _ _ h => h) fun _ => trivial

theorem refundsNewAccount_sameBooks (address : Address) :
    Keeps SameBooks (fun _ => True) (refundsNewAccount vm c address) := by
  unfold refundsNewAccount
  rw [hdb]
  refine .ite (fun _ => .bind (query_sameBooks _) fun isEmpty => ?_) fun _ =>
    .bind (query_sameBooks _) fun exist => .pure _
  exact .ite (fun _ => .bind (query_sameBooks _) fun balance => .pure _) fun _ => .pure _

theorem opSuicide_sameBooks : Keeps SameBooks (fun _ => True) (opSuicide vm c) := by
  unfold opSuicide
  rw [hdb]
  refine .bind (onMachine_sameBooks _) fun beneficiary => .bind (query_sameBooks _) fun balance => ?_
  refine .bind (fun f => ?_) fun _ => .bind (fun f => ?_) fun _ => .pure _
  · rw [wp_onDb]
    exact wp_ofOp keccak256 (.addBalance · _ balance) (fun _ h => h) fun _ _ => trivial
  · rw [wp_onDb]
    exact wp_suicide (fun _ _ h => h) fun _ => trivial

def Gained (b b' : Checkpointed Tally) : Prop :=
  ∃ r : UInt64, b' = withRefund b r ∧ b.current.refund.toNat ≤ r.toNat ∧ r.toNat ≤ b.current.refund.toNat + 24000

theorem gasSelfdestruct_gained (hroom : f.books.current.refund.toNat + 24000 < 2 ^ 64) :
    wp (gasSelfdestruct vm c) (fun _ f' => Gained f.books f'.books) (fun _ => SameBooks f) (fun _ => True) f := by
  have hprice : Keeps SameBooks (fun _ => True) (if vm.chainRules.IsEIP150 = true then do
      let address ← onMachine (MachineM.back 0)
      let newAccount ← refundsNewAccount vm c (U256.bytes20 address)
      return selfdestructGasEIP150 + if newAccount = true then createBySelfdestructGas else 0
    else return 0 : ExecM Seeded UInt64) :=
    .ite (fun _ => .bind (onMachine_sameBooks _) fun _ => .bind (refundsNewAccount_sameBooks hdb _) fun _ => .pure _)
      fun _ => .pure _
  unfold gasSelfdestruct
  refine hprice.wp_bind (.true _) (fun gas t ht _ => ?_) fun _ _ h => h
  rw [← ht] at hroom ⊢
  have hsuicided : vm.StateDB.HasSuicided c.address = .read fun s => s.world.hasSuicided c.address := by
    rw [hdb]
    rfl
  rw [wp_bind, hsuicided, wp_onDb_read, wp_bind, wp_when, hdb, wp_onDb]
  refine ⟨fun _ => wp_addRefund fun s' hs' => ?_, fun _ => ⟨t.books.current.refund, rfl, le_rfl, by omega⟩⟩
  have hsum : (t.books.current.refund + selfdestructRefundGas).toNat =
      t.books.current.refund.toNat + selfdestructRefundGas.toNat := toNat_add_of_room hroom (by decide)
  have hgas : selfdestructRefundGas.toNat = 24000 := rfl
  exact ⟨t.books.current.refund + selfdestructRefundGas, hs', by omega, by omega⟩

theorem selfdestruct_backed (hn : n < 2 ^ 40) (h : f.books.Holds base (Backed n)) :
    wp (selfdestruct vm c) (fun _ f' => f'.books.Holds base (Backed (n + 1)))
      (fun _ f' => f'.books.saved = f.books.saved) (fun _ => True) f := by
  unfold selfdestruct
  rw [wp_bind]
  refine wp_mono (gasSelfdestruct_gained hdb (h.1.room hn)) ?_ (fun _ _ h => congrArg _ h) fun _ _ => trivial
  rintro cost t ⟨r, hr, hlow, hhigh⟩
  have hsaved : t.books.saved = f.books.saved := by
    rw [hr]
    rfl
  rw [wp_bind, wp_payGas]
  refine ⟨fun _ => ?_, fun _ => hsaved⟩
  rw [wp_bind]
  refine wp_mono (opSuicide_sameBooks hdb (t.paid cost)) (fun _ f' hf' => ?_)
    (fun _ f' hf' => (congrArg _ hf').trans hsaved) fun _ _ => trivial
  have hbooks : f'.books = withRefund f.books r := hf'.trans hr
  rw [wp_pure, hbooks]
  exact ⟨h.1.gain hlow hhigh, fun i a hi ha => (h.2 i a hi ha).mono⟩

end Instructions

/-! ## Runs -/

inductive Instruction where
  | sstore (c : Contract)
  | selfdestruct (c : Contract)

def Instruction.run {σ : Type} (vm : Evm σ) (metering : Metering) : Instruction → ExecM σ Unit
  | sstore c => metering.sstore vm c
  | selfdestruct c => Vm.selfdestruct vm c

/-- A step of a transaction that began with `base` snapshots, in any frame: an instruction that is
performed, one that is given up, with a revert to a snapshot, a new snapshot, or a revert. -/
inductive TxStep (vm : Evm Seeded) (metering : Metering) (base : ℕ) : Seeded → Seeded → Prop
  | perform {i : Instruction} {f f' : Frame Seeded} (h : i.run vm metering f = .ok () f') :
      TxStep vm metering base f.interp.db f'.interp.db
  | abandon {i : Instruction} {f f' : Frame Seeded} {e : VmError} {idx : ℤ} {s : Seeded}
      (h : i.run vm metering f = .error e f') (hidx : base ≤ idx)
      (hs : vm.StateDB.revertToSnapshot idx f'.interp.db = .ok () s) : TxStep vm metering base f.interp.db s
  | snapshot {s s' : Seeded} {id : ℤ} (h : vm.StateDB.snapshot s = .ok id s') : TxStep vm metering base s s'
  | revert {s s' : Seeded} {idx : ℤ} (hidx : base ≤ idx) (h : vm.StateDB.revertToSnapshot idx s = .ok () s') :
      TxStep vm metering base s s'

inductive TxRun (vm : Evm Seeded) (metering : Metering) (base : ℕ) : ℕ → Seeded → Seeded → Prop
  | start (s : Seeded) : TxRun vm metering base 0 s s
  | step {n : ℕ} {s t u : Seeded} (h : TxRun vm metering base n s t) (hstep : TxStep vm metering base t u) :
      TxRun vm metering base (n + 1) s u

section Runs
variable {vm : Evm Seeded} {keccak256 : Bytes → Hash} {metering : Metering} {base n : ℕ} {s s' : Seeded}

section Steps
variable (hdb : vm.StateDB = storageDB keccak256) (happlies : metering.Applies vm.chainRules)
include hdb happlies

theorem instruction_backed (hn : n < 2 ^ 40) (i : Instruction) {f : Frame Seeded} (h : f.books.Holds base (Backed n)) :
    wp (i.run vm metering) (fun _ f' => f'.books.Holds base (Backed (n + 1)))
      (fun _ f' => f'.books.saved = f.books.saved) (fun _ => True) f := by
  cases i with
  | sstore c => exact sstore_backed hdb happlies hn h
  | selfdestruct c => exact selfdestruct_backed hdb hn h

omit hdb happlies in
theorem books_revert {idx : ℤ} (h : Seeded.revertToSnapshot idx s = .ok () s') :
    s.books.restore idx = some s'.books := by
  rw [Seeded.books, Checkpointed.map_restore, Seeded.revertToSnapshot_eq_ok h]
  rfl

theorem step_backed (hn : n < 2 ^ 40) (h : s.books.Holds base (Backed n)) (hstep : TxStep vm metering base s s') :
    s'.books.Holds base (Backed (n + 1)) := by
  cases hstep with
  | @perform i f f' hrun =>
    have hbacked := wp_ok (instruction_backed hdb happlies hn i h) hrun
    exact hbacked
  | @abandon i f f' e idx _ hrun hidx hs =>
    have hsaved := wp_error (instruction_backed hdb happlies hn i h) hrun
    rw [hdb] at hs
    have hholds := Checkpointed.holds_restore (P := Backed n) (fun i a hi ha => h.2 i a hi (hsaved ▸ ha)) hidx
      (books_revert hs)
    exact hholds.mono fun _ h => h.mono
  | snapshot hs =>
    rw [hdb] at hs
    cases hs
    have hsave : ({ s with db := s.db.snapshot.2 } : Seeded).books = s.books.save := by
      rw [Seeded.books, Seeded.abs_snapshot, Seeded.books, Checkpointed.map_save]
    rw [hsave]
    exact h.save.mono fun _ h => h.mono
  | revert hidx hs =>
    rw [hdb] at hs
    exact (Checkpointed.holds_restore h.2 hidx (books_revert hs)).mono fun _ h => h.mono

theorem run_backed (hn : n ≤ 2 ^ 40) (h : s.books.Holds base (Backed 0)) (hrun : TxRun vm metering base n s s') :
    s'.books.Holds base (Backed n) := by
  induction hrun with
  | start s => exact h
  | step hrun hstep ih => exact step_backed hdb happlies hn (ih (by omega) h) hstep

end Steps

/-- Before its first step nothing has been cleared, and there are no snapshots of the transaction. -/
theorem start_backed (hrefund : s.world.getRefund = 0)
    (hclean : ∀ addr key, s.world.getState addr key = s.world.getCommittedState addr key) :
    s.books.Holds s.db.snapshots.length (Backed 0) := by
  have hsame : s.books.current.current = s.books.current.original := by
    rw [books_current]
    exact funext fun p => hclean p.1 p.2
  have hzero : s.books.current.refund = 0 := by
    rw [books_current]
    exact hrefund
  refine ⟨⟨?_, ?_, ?_⟩, fun i a hi ha => ?_⟩
  · rw [hsame, cleared_self]
    exact Set.finite_empty
  · rw [hsame, cleared_self, Set.ncard_empty, Nat.mul_zero]
    exact Nat.zero_le _
  · rw [hzero]
    rfl
  · have hlen : s.books.saved.length = s.db.snapshots.length := by
      simp [Seeded.books, Checkpointed.map, Seeded.abs, Storage.StateDB.abs]
    rw [List.getElem?_eq_none (by omega)] at ha
    cases ha

/-- **The refund counter does not underflow.** A transaction begins with an empty counter and no
writes. After any of its steps, pricing a further `SSTORE` does not panic, and the counter has at least
`15000` for every slot that was not zero when the transaction began and is now. -/
theorem refund_covers_cleared (keccak256 : Bytes → Hash) (vm : Evm Seeded) (hdb : vm.StateDB = storageDB keccak256)
    (metering : Metering) (happlies : metering.Applies vm.chainRules) (s s' : Seeded)
    (hrefund : s.world.getRefund = 0)
    (hclean : ∀ addr key, s.world.getState addr key = s.world.getCommittedState addr key) (n : ℕ)
    (hn : n ≤ 2 ^ 40) (hrun : TxRun vm metering s.db.snapshots.length n s s') :
    (∀ (c : Contract) (f : Frame Seeded), f.interp.db = s' → 2 ≤ f.machine.stack.length →
      ∀ stop, metering.price vm c f ≠ .stop stop) ∧
    {p : Slot | s'.world.getCommittedState p.1 p.2 ≠ Hash.zero ∧ s'.world.getState p.1 p.2 = Hash.zero}.Finite ∧
    15000 * {p : Slot | s'.world.getCommittedState p.1 p.2 ≠ Hash.zero ∧
      s'.world.getState p.1 p.2 = Hash.zero}.ncard ≤ s'.world.getRefund.toNat := by
  have hbacked := (run_backed hdb happlies hn (start_backed hrefund hclean) hrun).1
  have hcurrent := hbacked
  rw [books_current] at hcurrent
  refine ⟨?_, hcurrent.finite, hcurrent.backed⟩
  rintro c f rfl hlength stop hstop
  obtain ⟨x, y, stack, hstack⟩ : ∃ x y stack, f.machine.stack = x :: y :: stack := by
    match f.machine.stack, hlength with
    | x :: y :: stack, _ => exact ⟨x, y, stack, rfl⟩
  have hroom : f.books.current.refund.toNat + 24000 < 2 ^ 64 := by
    have hbounded : f.books.current.refund.toNat ≤ 24000 * n := hbacked.bounded
    omega
  exact wp_stop (price_priced hdb happlies hstack hbacked.share_le hroom) hstop

end Runs

def sampleSlotStore : Storage.Store := fun key =>
  if key = CacheDB.genAccountStateKey (sampleAddress 3) (bytesToHash [2]).1 then some [7] else none

def sampleSeeded : Seeded where
  db := Storage.StateDB.newStateDB (Storage.newCacheDB (Storage.newOverlayDB sampleSlotStore))
  rand _ _ := 0

def sampleStorageEvm : Evm Seeded := { sampleEvm with StateDB := storageDB fun _ => bytesToHash [1] }

def sampleClearing (s : Seeded) : Frame Seeded where
  machine := { Machine.init with stack := [2, 0] }
  Gas := 100000
  analysis := none
  interp := { sampleInterp [] with db := s }

theorem refund_covers_cleared_sample : ∃ s', TxRun sampleStorageEvm .eip2200 0 2 sampleSeeded s' ∧
    s'.world.getRefund = 15000 ∧ 15000 * {p : Slot | s'.world.getCommittedState p.1 p.2 ≠ Hash.zero ∧
      s'.world.getState p.1 p.2 = Hash.zero}.ncard ≤ s'.world.getRefund.toNat := by
  let t : Seeded := { sampleSeeded with db := sampleSeeded.db.snapshot.2 }
  obtain ⟨f, hf, hrefund⟩ : ∃ f, Metering.sstore sampleStorageEvm (sampleContract []) .eip2200 (sampleClearing t) =
      .ok () f ∧ f.interp.db.world.getRefund = 15000 := by
    have hresult : ((Metering.sstore sampleStorageEvm (sampleContract []) .eip2200 (sampleClearing t)).result.map
        fun r => r.2.interp.db.world.getRefund) = some 15000 := by decide +kernel
    obtain ⟨⟨_, f⟩, hf, hrefund⟩ := Option.map_eq_some_iff.mp hresult
    exact ⟨f, Ending.eq_ok_of_result hf, hrefund⟩
  have hrun : TxRun sampleStorageEvm .eip2200 0 2 sampleSeeded f.interp.db := by
    have hsnapshot : sampleStorageEvm.StateDB.snapshot sampleSeeded = .ok 0 t := rfl
    have hstore : TxStep sampleStorageEvm .eip2200 0 (sampleClearing t).interp.db f.interp.db :=
      .perform (i := .sstore (sampleContract [])) hf
    exact .step (.step (.start _) (.snapshot hsnapshot)) hstore
  have hclean : ∀ addr key, sampleSeeded.world.getState addr key = sampleSeeded.world.getCommittedState addr key := by
    intro addr key
    have hget : sampleSeeded.world.cacheDB.Get (Storage.genKey addr key) =
        sampleSeeded.world.cacheDB.backend.get (CacheDB.genAccountStateKey addr key.1) := by
      rw [CacheDB.Get, CacheDB.get_eq]
      have hnone : sampleSeeded.world.cacheDB.memdb.at?
          (Storage.makePrefixedKey Storage.ST_STORAGE (Storage.genKey addr key)) = none := Storage.Table.at?_new _
      rw [hnone]
      rfl
    exact congrArg bytesToHash hget
  have hcovers := refund_covers_cleared _ sampleStorageEvm rfl .eip2200 trivial sampleSeeded _ rfl hclean 2
    (by norm_num) hrun
  exact ⟨f.interp.db, hrun, hrefund, hcovers.2.2⟩

end Web3.Vm
