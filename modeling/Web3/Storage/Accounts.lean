import Web3.Storage.Records
import Web3.Storage.Snapshots

/-! # Accounts as a map

`SetNonce`, `SetCode`, `AddBalance` and `SubBalance` read a record, change one field and write it back.
They act as updates of a map from addresses to accounts exactly when the record is there and the changed
one is not dropped again: an absent account has a nil balance, and `PutEthAccount` writes a tombstone for
an account without nonce and code hash, whatever its balance. -/

namespace Web3.Storage

/-! ## Records of the cache -/

namespace CacheDB

variable (db : CacheDB) (rnd : Rand)

theorem get_put (pre : UInt8) (key value key' : Bytes) :
    (db.put rnd pre key value).get pre key' = if key = key' then value else db.get pre key' := by
  rw [get_eq, get_eq, put, Table.at?_put]
  by_cases h : key = key'
  · simp [h]
  · have hne : makePrefixedKey pre key ≠ makePrefixedKey pre key' := fun he => h (List.cons.inj he).2
    rw [if_neg hne, if_neg h]

theorem getEthAccount_put_self (addr : Address) (raw : Bytes) :
    (db.put rnd ST_ETH_ACCOUNT addr.1 raw).getEthAccount addr =
      if raw.length = 0 then .ok EthAccount.zero else EthAccount.deserialization raw := by
  simp only [getEthAccount, get_put, if_true]

variable {addr other : Address}

theorem getEthAccount_put_ne (h : other ≠ addr) (raw : Bytes) :
    (db.put rnd ST_ETH_ACCOUNT addr.1 raw).getEthAccount other = db.getEthAccount other := by
  have hne : addr.1 ≠ other.1 := fun he => h (Subtype.ext he.symm)
  simp only [getEthAccount, get_put, if_neg hne]

theorem getEthAccount_putEthAccount_ne (h : addr ≠ other) (acct : EthAccount) :
    (db.putEthAccount rnd addr acct).Ensures fun db' => db'.getEthAccount other = db.getEthAccount other := by
  rw [putEthAccount]
  split
  · exact Outcome.ensures_ok (getEthAccount_put_ne _ rnd (Ne.symm h) [])
  · intro db' hdb
    obtain ⟨raw, -, hdb⟩ := Outcome.bind_eq_ok.mp hdb
    cases hdb
    exact getEthAccount_put_ne _ rnd (Ne.symm h) raw

theorem length_code {db : CacheDB} {a : EthAccount} (h : db.getEthAccount addr = .ok a) :
    a.Code.length < 2 ^ 64 := by
  rw [getEthAccount] at h
  split at h
  · cases h
    norm_num [EthAccount.zero]
  · exact EthAccount.length_code h

end CacheDB

/-! ## Reads -/

structure Account where
  nonce : UInt64
  balance : ℕ
  code : Bytes

def Account.of : Outcome EthAccount → Account
  | .ok a => ⟨a.Nonce, (a.Balance.getD 0).toNat, a.Code⟩
  | _ => ⟨0, 0, []⟩

def readField (f : EthAccount → Outcome Answer) (v : Answer) : Outcome EthAccount → Outcome Answer
  | .ok a => f a
  | .err _ => .ok v
  | .panic p => .panic p

namespace StateDB

variable (s : StateDB) (addr : Address)

def record : Outcome EthAccount := s.world.cacheDB.getEthAccount addr

def account : Account := Account.of (s.record addr)

theorem answer_getNonce : s.answer (.getNonce addr) =
      readField (fun a => .ok (.number a.Nonce.toNat)) (.number 0) (s.record addr) := by
  rw [answer, Read.run, World.getNonce, World.getEthAccount, record]
  cases s.world.cacheDB.getEthAccount addr <;> rfl

theorem answer_getCode :
    s.answer (.getCode addr) = readField (fun a => .ok (.bytes a.Code)) (.bytes []) (s.record addr) := by
  rw [answer, Read.run, World.getCode, World.getEthAccount, record]
  cases s.world.cacheDB.getEthAccount addr <;> rfl

theorem answer_getBalance : s.answer (.getBalance addr) =
      readField (fun a => a.balance >>= fun b => .ok (.number b.toNat)) (.number 0) (s.record addr) := by
  rw [answer, Read.run, World.getBalance, BalanceHandle.getBalance, record]
  cases s.world.cacheDB.getEthAccount addr with
  | ok a =>
    rw [Outcome.ok_bind, readField]
    simp only [EthAccount.balance]
    cases a.Balance <;> rfl
  | err | panic => rfl

/-- The three reads of an address answer with the fields of `a`. -/
structure ReadsAs (s : StateDB) (addr : Address) (a : Account) : Prop where
  nonce : s.answer (.getNonce addr) = .ok (.number a.nonce.toNat)
  balance : s.answer (.getBalance addr) = .ok (.number a.balance)
  code : s.answer (.getCode addr) = .ok (.bytes a.code)

/-- The three reads of an address answer, or panic, as before. -/
structure SameReads (s s' : StateDB) (addr : Address) : Prop where
  nonce : s'.answer (.getNonce addr) = s.answer (.getNonce addr)
  balance : s'.answer (.getBalance addr) = s.answer (.getBalance addr)
  code : s'.answer (.getCode addr) = s.answer (.getCode addr)

variable {s : StateDB} {addr : Address}

theorem sameReads_of_record {s' : StateDB} (h : s'.record addr = s.record addr) : SameReads s s' addr :=
  ⟨by rw [answer_getNonce, answer_getNonce, h], by rw [answer_getBalance, answer_getBalance, h],
    by rw [answer_getCode, answer_getCode, h]⟩

theorem readsAs_of_record {a : EthAccount} {b : U256} (h : s.record addr = .ok a)
    (hb : a.Balance = some b) : s.ReadsAs addr ⟨a.Nonce, b.toNat, a.Code⟩ :=
  ⟨by rw [answer_getNonce, h]; rfl,
    by rw [answer_getBalance, h, readField, EthAccount.balance, hb]; rfl,
    by rw [answer_getCode, h]; rfl⟩

theorem readsAs_of_malformed {e : String} (h : s.record addr = .err e) : s.ReadsAs addr ⟨0, 0, []⟩ :=
  ⟨by rw [answer_getNonce, h]; rfl, by rw [answer_getBalance, h]; rfl, by rw [answer_getCode, h]; rfl⟩

theorem not_readsAs_of_absent {a : Account} (h : s.record addr = .ok EthAccount.zero) : ¬ s.ReadsAs addr a := by
  intro hr
  have := hr.balance
  rw [answer_getBalance, h] at this
  cases this

end StateDB

/-! ## Updates -/

/-- A call that updates an account. The length of a Go slice is an `int`. -/
inductive AccountOp where
  | addBalance (rnd : Rand) (val : ℤ)
  | subBalance (rnd : Rand) (val : ℤ)
  | setNonce (rnd : Rand) (nonce : UInt64)
  | setCode (rnd : Rand) (code : Bytes) (hcode : code.length < 2 ^ 63)

namespace AccountOp

def call (addr : Address) : AccountOp → Op
  | addBalance rnd val => .addBalance rnd addr val
  | subBalance rnd val => .subBalance rnd addr val
  | setNonce rnd nonce => .setNonce rnd addr nonce
  | setCode rnd code _ => .setCode rnd addr code

/-- What the call means for the account; balances are modulo `2 ^ 256`. -/
def update : AccountOp → Account → Account
  | addBalance _ val, a => { a with balance := ((a.balance + val) % 2 ^ 256).toNat }
  | subBalance _ val, a => { a with balance := ((a.balance - val) % 2 ^ 256).toNat }
  | setNonce _ nonce, a => { a with nonce := nonce }
  | setCode _ code _, a => { a with code := code }

/-- The record that the call writes in place of a record with the balance `b`. -/
def change (keccak256 : Bytes → Hash) (a : EthAccount) (b : U256) : AccountOp → EthAccount
  | addBalance _ val => { a with Balance := some (b + U256.fromBig val) }
  | subBalance _ val => { a with Balance := some (b - U256.fromBig val) }
  | setNonce _ nonce => { a with Nonce := nonce }
  | setCode _ code _ => { a with CodeHash := keccak256 code, Code := code }

/-- The call moves no balance: it adds or takes a multiple of `2 ^ 256`. -/
def MovesNothing : AccountOp → Prop
  | addBalance _ val => val % 2 ^ 256 = 0
  | subBalance _ val => val % 2 ^ 256 = 0
  | _ => False

def rnd : AccountOp → Rand
  | addBalance rnd _ => rnd
  | subBalance rnd _ => rnd
  | setNonce rnd _ => rnd
  | setCode rnd _ _ => rnd

variable {keccak256 : Bytes → Hash} {w : World} {addr : Address} {a : EthAccount} {b : U256}

theorem toNat_add (b : U256) (val : ℤ) : (b + U256.fromBig val).toNat = ((b.toNat + val) % 2 ^ 256).toNat := by
  rw [U256.fromBig, BitVec.toNat_add, BitVec.toNat_ofInt]
  omega

theorem toNat_sub (b : U256) (val : ℤ) : (b - U256.fromBig val).toNat = ((b.toNat - val) % 2 ^ 256).toNat := by
  rw [U256.fromBig, BitVec.toNat_sub, BitVec.toNat_ofInt]
  omega

theorem change_fields (op : AccountOp) (hb : a.Balance = some b) : ∃ b', (op.change keccak256 a b).Balance = some b' ∧
      op.update ⟨a.Nonce, b.toNat, a.Code⟩ =
        ⟨(op.change keccak256 a b).Nonce, b'.toNat, (op.change keccak256 a b).Code⟩ := by
  cases op with
  | addBalance rnd val => exact ⟨_, rfl, by rw [update, change, toNat_add]⟩
  | subBalance rnd val => exact ⟨_, rfl, by rw [update, change, toNat_sub]⟩
  | setNonce | setCode => exact ⟨b, hb, rfl⟩

theorem length_change (op : AccountOp) (ha : a.Code.length < 2 ^ 64) :
    (op.change keccak256 a b).Code.length < 2 ^ 64 := by
  cases op with
  | setCode rnd code hcode => exact lt_trans hcode (by norm_num)
  | _ => exact ha

end AccountOp

/-! ## What a call does to the record -/

theorem EthAccount.serialization_ok {a : EthAccount} {b : U256} (hb : a.Balance = some b) :
    ∃ raw, a.serialization = .ok raw ∧ raw.length ≠ 0 := by
  refine ⟨_, by rw [EthAccount.serialization, EthAccount.balance, hb, Outcome.ok_bind], ?_⟩
  simp only [List.length_append, length_leBytes]
  omega

/-- The call ends in a panic, or with the account gone. -/
def Loses (addr : Address) (x : Outcome World) : Prop :=
  (∃ p, x = .panic p) ∨ ∃ w, x = .ok w ∧ w.cacheDB.getEthAccount addr = .ok EthAccount.zero

namespace World
variable {w : World} {addr : Address} {a : EthAccount} {b : U256}

theorem putEthAccount_empty (rnd : Rand) (h : a.isEmpty = true) :
    w.putEthAccount rnd addr a = .ok { w with cacheDB := w.cacheDB.put rnd ST_ETH_ACCOUNT addr.1 [] } := by
  simp [putEthAccount, CacheDB.putEthAccount, h]

theorem loses_empty (rnd : Rand) (h : a.isEmpty = true) : Loses addr (w.putEthAccount rnd addr a) :=
  Or.inr ⟨_, putEthAccount_empty rnd h, CacheDB.getEthAccount_put_self ..⟩

theorem loses_nil (rnd : Rand) (h : a.Balance = none) : Loses addr (w.putEthAccount rnd addr a) := by
  cases hempty : a.isEmpty with
  | true => exact loses_empty rnd hempty
  | false =>
    refine Or.inl ⟨EthAccount.nilPointer, ?_⟩
    simp [putEthAccount, CacheDB.putEthAccount, hempty, EthAccount.serialization, EthAccount.balance, h]

theorem putEthAccount_record (rnd : Rand) (hempty : a.isEmpty = false) (hb : a.Balance = some b)
    (hcode : a.Code.length < 2 ^ 64) : ∃ raw, w.putEthAccount rnd addr a =
          .ok { w with cacheDB := w.cacheDB.put rnd ST_ETH_ACCOUNT addr.1 raw } ∧
        (w.cacheDB.put rnd ST_ETH_ACCOUNT addr.1 raw).getEthAccount addr = .ok a := by
  obtain ⟨raw, hraw, hlen⟩ := EthAccount.serialization_ok hb
  refine ⟨raw, by simp [putEthAccount, CacheDB.putEthAccount, hempty, hraw], ?_⟩
  rw [CacheDB.getEthAccount_put_self, if_neg hlen]
  simpa using EthAccount.deserialization_append hb hcode hraw []

theorem orDbErr_put (rnd : Rand) (hb : a.Balance = some b) :
    w.orDbErr (w.cacheDB.putEthAccount rnd addr a) = w.putEthAccount rnd addr a := by
  cases hempty : a.isEmpty <;>
    simp [orDbErr, putEthAccount, CacheDB.putEthAccount, EthAccount.serialization, EthAccount.balance, hempty, hb]

end World

namespace AccountOp
variable {keccak256 : Bytes → Hash} {w : World} {addr : Address} {a : EthAccount} {b : U256}

theorem run_present (op : AccountOp) (h : w.cacheDB.getEthAccount addr = .ok a) (hb : a.Balance = some b) :
    (op.call addr).run keccak256 w = w.putEthAccount op.rnd addr (op.change keccak256 a b) := by
  cases op with
  | addBalance rnd val =>
    rw [call, Op.run, World.addBalance, BalanceHandle.addBalance, h, Outcome.ok_bind, EthAccount.balance,
      hb, Outcome.ok_bind, World.orDbErr_put rnd rfl]
    rfl
  | subBalance rnd val =>
    rw [call, Op.run, World.subBalance, BalanceHandle.subBalance, h, Outcome.ok_bind, EthAccount.balance,
      hb, Outcome.ok_bind, World.orDbErr_put rnd rfl]
    rfl
  | setNonce rnd nonce =>
    rw [call, Op.run, World.setNonce, World.getEthAccount, h]
    rfl
  | setCode rnd code hcode =>
    rw [call, Op.run, World.setCode, World.getEthAccount, h]
    rfl

theorem run_absent (op : AccountOp) (h : w.cacheDB.getEthAccount addr = .ok a) (hb : a.Balance = none) :
    Loses addr ((op.call addr).run keccak256 w) := by
  cases op with
  | addBalance rnd val =>
    refine Or.inl ⟨EthAccount.nilPointer, ?_⟩
    rw [call, Op.run, World.addBalance, BalanceHandle.addBalance, h, Outcome.ok_bind, EthAccount.balance, hb]
    rfl
  | subBalance rnd val =>
    refine Or.inl ⟨EthAccount.nilPointer, ?_⟩
    rw [call, Op.run, World.subBalance, BalanceHandle.subBalance, h, Outcome.ok_bind, EthAccount.balance, hb]
    rfl
  | setNonce rnd nonce =>
    rw [call, Op.run, World.setNonce, World.getEthAccount, h]
    exact World.loses_nil rnd hb
  | setCode rnd code hcode =>
    rw [call, Op.run, World.setCode, World.getEthAccount, h]
    exact World.loses_nil rnd hb

/-- A malformed record: its error is kept and a balance not touched, but any other field is written to
an account with a nil balance. -/
theorem run_malformed (op : AccountOp) {e : String} (h : w.cacheDB.getEthAccount addr = .err e) :
    (op.call addr).run keccak256 w = .ok { w with cacheDB := w.cacheDB.setDbErr e } ∧
        op.update ⟨0, 0, []⟩ = ⟨0, (op.update ⟨0, 0, []⟩).balance, []⟩ ∧
        (op.MovesNothing ↔ (op.update ⟨0, 0, []⟩).balance = 0) ∨
      Loses addr ((op.call addr).run keccak256 w) ∧ ¬ op.MovesNothing := by
  cases op with
  | addBalance rnd val =>
    refine Or.inl ⟨?_, rfl, ?_⟩
    · rw [call, Op.run, World.addBalance, BalanceHandle.addBalance, h]
      rfl
    · simp only [MovesNothing, update]
      omega
  | subBalance rnd val =>
    refine Or.inl ⟨?_, rfl, ?_⟩
    · rw [call, Op.run, World.subBalance, BalanceHandle.subBalance, h]
      rfl
    · simp only [MovesNothing, update]
      omega
  | setNonce rnd nonce =>
    refine Or.inr ⟨?_, id⟩
    rw [call, Op.run, World.setNonce, World.getEthAccount, h]
    exact World.loses_nil rnd rfl
  | setCode rnd code hcode =>
    refine Or.inr ⟨?_, id⟩
    rw [call, Op.run, World.setCode, World.getEthAccount, h]
    exact World.loses_nil rnd rfl

theorem run_panic (op : AccountOp) {p : String} (h : w.cacheDB.getEthAccount addr = .panic p) :
    (op.call addr).run keccak256 w = .panic p := by
  cases op with
  | addBalance rnd val =>
    rw [call, Op.run, World.addBalance, BalanceHandle.addBalance, h]
    rfl
  | subBalance rnd val =>
    rw [call, Op.run, World.subBalance, BalanceHandle.subBalance, h]
    rfl
  | setNonce rnd nonce =>
    rw [call, Op.run, World.setNonce, World.getEthAccount, h]
    rfl
  | setCode rnd code hcode =>
    rw [call, Op.run, World.setCode, World.getEthAccount, h]
    rfl

end AccountOp

/-! ## The map -/

namespace StateDB
variable {keccak256 : Bytes → Hash} {s : StateDB} {addr : Address} {op : AccountOp} {o : Op}

theorem apply_of_run {w : World} (h : o.run keccak256 s.world = .ok w) :
    ∃ s', s.apply keccak256 o = .ok s' ∧ s'.world = w := by
  rw [apply]
  split
  · next w' h' =>
    obtain rfl : w = w' := Outcome.ok.inj (h.symm.trans h')
    exact ⟨_, rfl, s.world_setWorld w _⟩
  · next e he => simp [h] at he
  · next p hp => simp [h] at hp

theorem run_of_apply {s' : StateDB} (h : s.apply keccak256 o = .ok s') :
    o.run keccak256 s.world = .ok s'.world := by
  rw [apply] at h
  split at h
  · next w hw =>
    cases h
    rw [world_setWorld]
    exact hw
  · cases h
  · cases h

/-- The call is the update of the map: it does not fault, the reads of its address answer with the
updated account, and those of every other address answer as before. -/
def ActsAsMap (keccak256 : Bytes → Hash) (s : StateDB) (addr : Address) (op : AccountOp) : Prop :=
  ∃ s', s.apply keccak256 (op.call addr) = .ok s' ∧ s'.ReadsAs addr (op.update (s.account addr)) ∧
    ∀ other ≠ addr, s.SameReads s' other

/-- The address has a record, and the changed one has a nonce or a code hash; or its record is malformed
and the call moves no balance. -/
def Recorded (keccak256 : Bytes → Hash) (s : StateDB) (addr : Address) (op : AccountOp) : Prop :=
  (∃ a b, s.record addr = .ok a ∧ a.Balance = some b ∧ (op.change keccak256 a b).isEmpty = false) ∨
    (∃ e, s.record addr = .err e) ∧ op.MovesNothing

theorem not_actsAsMap_of_loses (h : Loses addr ((op.call addr).run keccak256 s.world)) :
    ¬ ActsAsMap keccak256 s addr op := by
  rintro ⟨s', hs', hreads, -⟩
  have hrun := run_of_apply hs'
  rcases h with ⟨p, hp⟩ | ⟨w, hw, hrecord⟩
  · rw [hp] at hrun
    cases hrun
  · rw [hw] at hrun
    cases hrun
    exact not_readsAs_of_absent hrecord hreads

theorem actsAsMap_of_recorded {a : EthAccount} {b : U256} (h : s.record addr = .ok a)
    (hb : a.Balance = some b) (hempty : (op.change keccak256 a b).isEmpty = false) :
    ActsAsMap keccak256 s addr op := by
  obtain ⟨b', hb', hupdate⟩ : ∃ b', (op.change keccak256 a b).Balance = some b' ∧ _ := op.change_fields hb
  obtain ⟨raw, hput, hread⟩ : ∃ raw, s.world.putEthAccount op.rnd addr _ = _ ∧ _ :=
    World.putEthAccount_record op.rnd hempty hb' (op.length_change (CacheDB.length_code h))
  rw [← op.run_present h hb] at hput
  obtain ⟨s', hs', hworld⟩ := apply_of_run hput
  have haccount : s.account addr = ⟨a.Nonce, b.toNat, a.Code⟩ := by
    rw [account, h, Account.of, hb, Option.getD_some]
  refine ⟨s', hs', ?_, fun other hne => sameReads_of_record ?_⟩
  · rw [haccount, hupdate]
    refine readsAs_of_record ?_ hb'
    rw [record, hworld]
    exact hread
  · rw [record, hworld]
    exact CacheDB.getEthAccount_put_ne _ _ hne raw

/-- **When a call acts on the map of accounts**: exactly when the address has a record that the call
does not empty (or nothing is to be done to an unreadable one). -/
theorem actsAsMap_iff (keccak256 : Bytes → Hash) (s : StateDB) (addr : Address) (op : AccountOp) :
    ActsAsMap keccak256 s addr op ↔ Recorded keccak256 s addr op := by
  rw [Recorded]
  cases h : s.record addr with
  | ok a =>
    cases hb : a.Balance with
    | none =>
      have hloses : ¬ActsAsMap keccak256 s addr op := not_actsAsMap_of_loses (op.run_absent h hb)
      simp [hloses, hb]
    | some b =>
      cases hempty : (op.change keccak256 a b).isEmpty with
      | false => simp [actsAsMap_of_recorded h hb hempty, hb, hempty]
      | true =>
        have hloses : ¬ ActsAsMap keccak256 s addr op := by
          apply not_actsAsMap_of_loses
          rw [op.run_present h hb]
          exact World.loses_empty op.rnd hempty
        simp [hloses, hb, hempty]
  | err e =>
    have haccount : s.account addr = ⟨0, 0, []⟩ := by
      rw [account, h]
      rfl
    rcases (op.run_malformed h : (op.call addr).run keccak256 s.world = _ ∧ _ ∨ _) with ⟨hrun, hupdate, hmoves⟩ | ⟨hloses, hmoves⟩
    · obtain ⟨s', hs', hworld⟩ := apply_of_run hrun
      have hrecord : ∀ addr, s'.record addr = s.record addr := by
        intro addr
        rw [record, hworld]
        rfl
      have hmalformed := readsAs_of_malformed ((hrecord addr).trans h)
      simp only [reduceCtorEq, false_and, exists_false, false_or, Outcome.err.injEq, exists_eq', true_and, hmoves]
      constructor
      · rintro ⟨t, ht, hreads, -⟩
        obtain rfl : s' = t := Outcome.ok.inj (hs'.symm.trans ht)
        have hbalance := hreads.balance
        rw [haccount, hmalformed.balance] at hbalance
        simpa [eq_comm] using hbalance
      · intro hzero
        refine ⟨s', hs', ?_, fun other _ => sameReads_of_record (hrecord other)⟩
        rw [haccount, hupdate, hzero]
        exact hmalformed
    · simp [not_actsAsMap_of_loses hloses, hmoves]
  | panic p =>
    have hloses : ¬ActsAsMap keccak256 s addr op := not_actsAsMap_of_loses (Or.inl ⟨p, op.run_panic h⟩)
    simp [hloses]

/-- The first transfer to an account that is not in the store faults. -/
theorem addBalance_absent_faults :
    let s := newStateDB (newCacheDB (newOverlayDB fun _ => none))
    s.apply (fun _ => Hash.zero) (.addBalance (fun _ => 0) sampleAddress 5) = .panic EthAccount.nilPointer ∧
      ¬ ActsAsMap (fun _ => Hash.zero) s sampleAddress (.addBalance (fun _ => 0) 5) := by
  intro s
  have hfault : s.apply (fun _ => Hash.zero) (.addBalance (fun _ => 0) sampleAddress 5) =
      .panic EthAccount.nilPointer := rfl
  refine ⟨hfault, ?_⟩
  rintro ⟨s', hs', -⟩
  exact absurd (hs'.symm.trans hfault) (by simp)

end StateDB
end Web3.Storage
