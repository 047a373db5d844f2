import Web3.Storage.Accounts
import Web3.Vm.GasTable
import Web3.Vm.Refunds

/-! # Accounts of a remote node

`RemoteDB` serves the accounts that a node has, and the hash of a record is that of its code, also if there is none.
`StateDB` takes an account for empty only if its hash is zero. -/

namespace Web3
open Storage (Store EthAccount U256 World CacheDB Account AccountOp StateDB Rand ST_ETH_ACCOUNT ST_STORAGE)

/-! ## The store -/

/-- The answers of the node, each as it was first requested; `RemoteDB` keeps them. -/
structure RemoteDB where
  nonce : Address → UInt64
  balance : Address → ℕ
  code : Address → Bytes
  storage : Address → Hash → Hash
  length_code : ∀ addr, (code addr).length < 2 ^ 63

namespace RemoteDB
variable (keccak256 : Bytes → Hash) (db : RemoteDB)

def getAccount (addr : Address) : EthAccount where
  Nonce := db.nonce addr
  Balance := some (U256.fromBig (db.balance addr))
  Code := db.code addr
  CodeHash := keccak256 (db.code addr)

/-- The panic on any other key is left out; the caches ask for these two kinds only. -/
def get : Store
  | [] => none
  | pre :: key =>
    if pre = ST_ETH_ACCOUNT then
      match (db.getAccount keccak256 (bytesToAddress key)).serialization with
      | .ok raw => some raw
      | _ => none
    else if pre = ST_STORAGE then
      some (db.storage (bytesToAddress (key.take 20)) (bytesToHash (key.drop 20))).1
    else none

end RemoteDB

/-! ## Records with the hash of their code -/

namespace Emptiness
variable {keccak256 : Bytes → Hash} {s s' : StateDB} {w w' : World} {addr other : Address} {a : EthAccount} {b : U256}

def Hashed (keccak256 : Bytes → Hash) (a : EthAccount) : Prop :=
  a = EthAccount.zero ∨ a.CodeHash = keccak256 a.Code

def Served (keccak256 : Bytes → Hash) (s : StateDB) : Prop :=
  ∀ addr, ∃ a, s.record addr = .ok a ∧ Hashed keccak256 a

theorem record_new (store : Store) (addr : Address) :
    (StateDB.newStateDB (Storage.newCacheDB (Storage.newOverlayDB store))).record addr =
      let value := (store (Storage.makePrefixedKey ST_ETH_ACCOUNT addr.1)).getD []
      if value.length = 0 then .ok EthAccount.zero else EthAccount.deserialization value := by
  have hget : (Storage.newCacheDB (Storage.newOverlayDB store)).get ST_ETH_ACCOUNT addr.1 =
      (store (Storage.makePrefixedKey ST_ETH_ACCOUNT addr.1)).getD [] := by
    rw [CacheDB.get_eq, Storage.OverlayDB.get_eq]
    simp [Storage.newCacheDB, Storage.newOverlayDB]
  change CacheDB.getEthAccount (Storage.newCacheDB (Storage.newOverlayDB store)) addr = _
  rw [CacheDB.getEthAccount, hget]

theorem record_remote (db : RemoteDB) (addr : Address) :
    (StateDB.newStateDB (Storage.newCacheDB (Storage.newOverlayDB (db.get keccak256)))).record addr =
      .ok (db.getAccount keccak256 addr) := by
  have hbalance : (db.getAccount keccak256 addr).Balance = some (U256.fromBig (db.balance addr)) := rfl
  obtain ⟨raw, hraw, hlen⟩ := EthAccount.serialization_ok hbalance
  have hcode : (db.getAccount keccak256 addr).Code.length < 2 ^ 64 := lt_trans (db.length_code addr) (by norm_num)
  have hget : db.get keccak256 (Storage.makePrefixedKey ST_ETH_ACCOUNT addr.1) = some raw := by
    have haddr : bytesToAddress addr.1 = addr := Subtype.ext (fitBytes_of_length addr.2)
    rw [Storage.makePrefixedKey, RemoteDB.get, if_pos rfl, haddr, hraw]
  rw [record_new, hget, Option.getD_some]
  simpa [hlen] using EthAccount.deserialization_append hbalance hcode hraw []

theorem served_remote (db : RemoteDB) :
    Served keccak256 (StateDB.newStateDB (Storage.newCacheDB (Storage.newOverlayDB (db.get keccak256)))) :=
  fun addr => ⟨_, record_remote db addr, .inr rfl⟩

/-- The states of `StateDB`s on such stores. -/
inductive Producible (keccak256 : Bytes → Hash) : StateDB → Prop where
  | served {s : StateDB} (h : Served keccak256 s) : Producible keccak256 s
  | call {s s' : StateDB} (addr : Address) (op : AccountOp) (h : Producible keccak256 s)
      (hcall : s.apply keccak256 (op.call addr) = .ok s') : Producible keccak256 s'

theorem run_writes (op : AccountOp) (h : w.cacheDB.getEthAccount addr = .ok a) (ha : Hashed keccak256 a) :
    (∃ p, (op.call addr).run keccak256 w = .panic p) ∨
    ∃ a', (op.call addr).run keccak256 w = w.putEthAccount op.rnd addr a' ∧
      (a'.Balance = none ∨ ∃ b, a'.Balance = some b ∧ a'.CodeHash = keccak256 a'.Code ∧ a'.Code.length < 2 ^ 64) := by
  cases hb : a.Balance with
  | some b =>
    have hhash : a.CodeHash = keccak256 a.Code := by
      rcases ha with rfl | ha
      · cases hb
      · exact ha
    refine .inr ⟨_, op.run_present h hb, .inr ?_⟩
    obtain ⟨b', hb', -⟩ : ∃ b', (op.change keccak256 a b).Balance = some b' ∧ _ := op.change_fields hb
    refine ⟨b', hb', ?_, op.length_change (CacheDB.length_code h)⟩
    cases op with
    | setCode rnd code hcode => rfl
    | _ => exact hhash
  | none =>
    cases op with
    | addBalance rnd val =>
      refine .inl ⟨EthAccount.nilPointer, ?_⟩
      rw [AccountOp.call, Storage.Op.run, World.addBalance, Storage.BalanceHandle.addBalance, h, Outcome.ok_bind,
        EthAccount.balance, hb]
      rfl
    | subBalance rnd val =>
      refine .inl ⟨EthAccount.nilPointer, ?_⟩
      rw [AccountOp.call, Storage.Op.run, World.subBalance, Storage.BalanceHandle.subBalance, h, Outcome.ok_bind,
        EthAccount.balance, hb]
      rfl
    | setNonce rnd nonce =>
      refine .inr ⟨{ a with Nonce := nonce }, ?_, .inl hb⟩
      rw [AccountOp.call, Storage.Op.run, World.setNonce, World.getEthAccount, h]
      rfl
    | setCode rnd code hcode =>
      refine .inr ⟨{ a with CodeHash := keccak256 code, Code := code }, ?_, .inl hb⟩
      rw [AccountOp.call, Storage.Op.run, World.setCode, World.getEthAccount, h]
      rfl

variable {rnd : Rand}

theorem putEthAccount_other {acct : EthAccount} (hne : other ≠ addr) (h : w.putEthAccount rnd addr acct = .ok w') :
    w'.cacheDB.getEthAccount other = w.cacheDB.getEthAccount other := by
  obtain ⟨db, hdb, h⟩ := Outcome.bind_eq_ok.mp h
  cases h
  exact CacheDB.getEthAccount_putEthAccount_ne w.cacheDB rnd (Ne.symm hne) acct db hdb

theorem putEthAccount_hashed (hput : w.putEthAccount rnd addr a = .ok w')
    (ha : a.Balance = none ∨ ∃ b, a.Balance = some b ∧ a.CodeHash = keccak256 a.Code ∧ a.Code.length < 2 ^ 64) :
    ∃ a', w'.cacheDB.getEthAccount addr = .ok a' ∧ Hashed keccak256 a' := by
  have hlost (h : Storage.Loses addr (w.putEthAccount rnd addr a)) :
      ∃ a', w'.cacheDB.getEthAccount addr = .ok a' ∧ Hashed keccak256 a' := by
    rcases h with ⟨p, hp⟩ | ⟨u, hu, hzero⟩
    · cases hput.symm.trans hp
    · obtain rfl : w' = u := Outcome.ok.inj (hput.symm.trans hu)
      exact ⟨_, hzero, .inl rfl⟩
  rcases ha with hb | ⟨b, hb, hhash, hcode⟩
  · exact hlost (World.loses_nil rnd hb)
  · cases hempty : a.isEmpty with
    | true => exact hlost (World.loses_empty rnd hempty)
    | false =>
      obtain ⟨raw, hraw, hread⟩ : ∃ raw, w.putEthAccount rnd addr a = _ ∧ _ :=
        World.putEthAccount_record rnd hempty hb hcode
      cases hput.symm.trans hraw
      exact ⟨a, hread, .inr hhash⟩

theorem Served.call (h : Served keccak256 s) {op : AccountOp} (hcall : s.apply keccak256 (op.call addr) = .ok s') :
    Served keccak256 s' := by
  have hrun := StateDB.run_of_apply hcall
  intro other
  obtain ⟨a, hrecord, ha⟩ := h addr
  rcases run_writes op hrecord ha with ⟨p, hp⟩ | ⟨a', hput, ha'⟩
  · cases hrun.symm.trans hp
  · by_cases hne : other = addr
    · subst hne
      exact putEthAccount_hashed (hput.symm.trans hrun) ha'
    · obtain ⟨c, hc, hhashed⟩ := h other
      exact ⟨c, (putEthAccount_other hne (hput.symm.trans hrun)).trans hc, hhashed⟩

theorem Producible.served_state (h : Producible keccak256 s) : Served keccak256 s := by
  induction h with
  | served h => exact h
  | call addr op _ hcall ih => exact ih.call hcall

/-! ## Emptiness -/

/-- An empty account, as EIP-161 has it. -/
def Vacant (a : Account) : Prop := a.nonce = 0 ∧ a.balance = 0 ∧ a.code = []

/-- `Empty` says whether the account is empty, and so does the part of `gasCall` that decides whether a transfer makes
a new account. -/
structure FollowsEip161 (keccak256 : Bytes → Hash) (s : Vm.Seeded) (addr : Address) : Prop where
  empty : ∃ flag, s.db.answer (.empty addr) = .ok (.flag flag) ∧ (flag = true ↔ Vacant (s.db.account addr))
  newAccount : ∀ (vm : Vm.Evm Vm.Seeded) (f : Vm.Frame Vm.Seeded), vm.StateDB = Vm.storageDB keccak256 →
    vm.chainRules.IsEIP158 = true → f.interp.db = s → ∃ charged f', Vm.callsNewAccount vm addr true f = .ok charged f' ∧
        (charged = true ↔ Vacant (s.db.account addr))

/-- The account is stored and has a nonce, a balance or a code whose hash is not zero. -/
def Occupied (keccak256 : Bytes → Hash) (s : StateDB) (addr : Address) : Prop :=
  ∃ a b, s.record addr = .ok a ∧ a.Balance = some b ∧ (a.Nonce ≠ 0 ∨ b ≠ 0 ∨ a.Code ≠ [] ∧ keccak256 a.Code ≠ Hash.zero)

theorem empty_present (h : w.cacheDB.getEthAccount addr = .ok a) (hb : a.Balance = some b) :
    w.empty addr = .ok (a.isEmpty && b.toNat = 0, w) := by
  have hbalance : Storage.BalanceHandle.getBalance w.cacheDB addr = .ok b.toNat := by
    rw [Storage.BalanceHandle.getBalance, h, Outcome.ok_bind, EthAccount.balance, hb, Outcome.ok_bind]
  simp only [World.empty, World.getEthAccount, h, Outcome.ok_bind, hbalance]

theorem empty_absent (h : w.cacheDB.getEthAccount addr = .ok a) (hb : a.Balance = none) :
    w.empty addr = .panic EthAccount.nilPointer := by
  have hbalance : Storage.BalanceHandle.getBalance w.cacheDB addr = .panic EthAccount.nilPointer := by
    rw [Storage.BalanceHandle.getBalance, h, Outcome.ok_bind, EthAccount.balance, hb]
    rfl
  simp only [World.empty, World.getEthAccount, h, Outcome.ok_bind, hbalance]

theorem isEmpty_iff (hhash : a.CodeHash = keccak256 a.Code) :
    (a.isEmpty && b.toNat = 0) = true ↔ a.Nonce = 0 ∧ b = 0 ∧ keccak256 a.Code = Hash.zero := by
  have hzero : b.toNat = 0 ↔ b = 0 := (BitVec.toNat_inj (y := 0) :)
  simp only [EthAccount.isEmpty, hhash, Bool.and_eq_true, decide_eq_true_iff, hzero]
  tauto

theorem callsNewAccount_eq {vm : Vm.Evm Vm.Seeded} {f : Vm.Frame Vm.Seeded} {flag : Bool}
    (hdb : vm.StateDB = Vm.storageDB keccak256) (hrules : vm.chainRules.IsEIP158 = true)
    (h : f.interp.db.world.empty addr = .ok (flag, f.interp.db.world)) :
    ∃ f', Vm.callsNewAccount vm addr true f = .ok flag f' := by
  have hwp : Prog.wp (Vm.callsNewAccount vm addr true) (fun charged _ => charged = flag) (fun _ _ => False)
      (fun _ => False) f := by
    rw [Vm.callsNewAccount, if_pos hrules, if_pos rfl, hdb, Vm.ExecM.onDb, Vm.ExecM.onEvm, Prog.wp_zoom,
      Vm.EvmM.onDb, Prog.wp_zoom]
    refine Vm.Seeded.wp_call (fun charged w s' hrun _ _ => ?_) fun e he => ?_
    · cases hrun.symm.trans h
      rfl
    · rcases he with he | he
      · cases he.symm.trans h
      · cases he.symm.trans h
  obtain ⟨charged, f', hf', rfl⟩ := Prog.exists_ok_of_wp hwp
  exact ⟨f', hf'⟩

theorem vacant_present (h : s.record addr = .ok a) (hb : a.Balance = some b) :
    Vacant (s.account addr) ↔ a.Nonce = 0 ∧ b = 0 ∧ a.Code = [] := by
  have hzero : b.toNat = 0 ↔ b = 0 := (BitVec.toNat_inj (y := 0) :)
  rw [Vacant, StateDB.account, h, Account.of, hb, Option.getD_some, hzero]

end Emptiness

open Emptiness

/-- **When emptiness is told right.** In the states that `StateDB`s on such stores can be in, `Empty` and the charge for
a new account are right exactly for accounts that are stored and not empty. -/
theorem follows_eip161_iff (keccak256 : Bytes → Hash) (hkeccak : keccak256 [] ≠ Hash.zero) (s : Vm.Seeded)
    (hs : Producible keccak256 s.db) (addr : Address) :
    FollowsEip161 keccak256 s addr ↔ Occupied keccak256 s.db addr := by
  obtain ⟨a, hrecord, ha⟩ := hs.served_state addr
  cases hb : a.Balance with
  | none =>
    -- the balance of an account that is not stored cannot be read
    have hpanic : s.db.answer (.empty addr) = .panic EthAccount.nilPointer := by
      rw [StateDB.answer, Storage.Read.run, empty_absent hrecord hb]
      rfl
    refine iff_of_false (fun h => ?_) ?_
    · obtain ⟨flag, hflag, -⟩ := h.empty
      cases hflag.symm.trans hpanic
    · rintro ⟨a', b, ha', hb', -⟩
      cases hrecord.symm.trans ha'
      cases hb.symm.trans hb'
  | some b =>
    have hhash : a.CodeHash = keccak256 a.Code := by
      rcases ha with rfl | ha
      · cases hb
      · exact ha
    have hempty := empty_present hrecord hb
    have hanswer : s.db.answer (.empty addr) = .ok (.flag (a.isEmpty && b.toNat = 0)) := by
      rw [StateDB.answer, Storage.Read.run, hempty]
      rfl
    have hright : ((a.isEmpty && b.toNat = 0) = true ↔ Vacant (s.db.account addr)) ↔
        a.Nonce ≠ 0 ∨ b ≠ 0 ∨ a.Code ≠ [] ∧ keccak256 a.Code ≠ Hash.zero := by
      rw [isEmpty_iff hhash, vacant_present hrecord hb]
      by_cases hcode : a.Code = []
      · have hhash : keccak256 a.Code ≠ Hash.zero := by rwa [hcode]
        tauto
      · tauto
    constructor
    · intro h
      obtain ⟨flag, hflag, hiff⟩ := h.empty
      cases hflag.symm.trans hanswer
      exact ⟨a, b, hrecord, hb, hright.mp hiff⟩
    · rintro ⟨a', b', ha', hb', hoccupied⟩
      cases hrecord.symm.trans ha'
      cases hb.symm.trans hb'
      refine ⟨⟨_, hanswer, hright.mpr hoccupied⟩, ?_⟩
      rintro vm f hdb hrules rfl
      obtain ⟨f', hf'⟩ := callsNewAccount_eq hdb hrules hempty
      exact ⟨_, f', hf', hright.mpr hoccupied⟩

/-! ## A node on which no account has been used -/

def sampleRemote (nonce : UInt64) : RemoteDB where
  nonce _ := nonce
  balance _ := 0
  code _ := []
  storage _ _ := Hash.zero
  length_code _ := by norm_num

def sampleRemoteState (nonce : UInt64) : Vm.Seeded where
  db := StateDB.newStateDB (Storage.newCacheDB (Storage.newOverlayDB ((sampleRemote nonce).get fun _ => bytesToHash [1])))
  rand _ _ := 0

/-- About to send 1 wei to the account `5`. -/
def sampleTransfer : Vm.Frame Vm.Seeded where
  machine := { Vm.Machine.init with stack := [0, 5, 1, 0, 0, 0, 0] }
  Gas := 100000
  analysis := none
  interp := { Vm.sampleInterp [] with db := sampleRemoteState 0 }

theorem follows_eip161_of_nonce : FollowsEip161 (fun _ => bytesToHash [1]) (sampleRemoteState 1) (Vm.sampleAddress 5) := by
  have hproducible : Producible (fun _ => bytesToHash [1]) (sampleRemoteState 1).db := .served (served_remote _)
  refine (follows_eip161_iff (fun _ => bytesToHash [1]) (by decide) (sampleRemoteState 1) hproducible _).mpr ?_
  exact ⟨_, _, record_remote _ _, rfl, .inl (by decide)⟩

/-- The account is empty, but the transfer is not charged for a new account. -/
theorem vacant_not_empty : Producible (fun _ => bytesToHash [1]) (sampleRemoteState 0).db ∧
    Vacant ((sampleRemoteState 0).db.account (Vm.sampleAddress 5)) ∧
    (sampleRemoteState 0).db.answer (.empty (Vm.sampleAddress 5)) = .ok (.flag false) ∧
    (Vm.gasCall Vm.sampleStorageEvm 0 sampleTransfer).result.map Prod.fst = some Vm.callValueTransferGas ∧
    ¬ FollowsEip161 (fun _ => bytesToHash [1]) (sampleRemoteState 0) (Vm.sampleAddress 5) := by
  have hrecord : (sampleRemoteState 0).db.record (Vm.sampleAddress 5) = _ := record_remote _ _
  have hvacant : Vacant ((sampleRemoteState 0).db.account (Vm.sampleAddress 5)) :=
    (vacant_present hrecord rfl).mpr ⟨rfl, rfl, rfl⟩
  have hanswer : (sampleRemoteState 0).db.answer (.empty (Vm.sampleAddress 5)) = .ok (.flag false) := by
    have hempty : (sampleRemoteState 0).db.world.empty (Vm.sampleAddress 5) = _ := empty_present hrecord rfl
    rw [StateDB.answer, Storage.Read.run, hempty]
    rfl
  refine ⟨.served (served_remote _), hvacant, hanswer, by decide +kernel, fun h => ?_⟩
  obtain ⟨flag, hflag, hiff⟩ := h.empty
  cases hflag.symm.trans hanswer
  cases hiff.mpr hvacant

end Web3
