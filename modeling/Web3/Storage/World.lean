import Web3.Storage.Codec
import Web3.Storage.Layers

/-! # Account and storage operations

The methods of `StateDB` other than snapshots and commits, on the values they work on: the cache, the
set of self-destructed accounts, the logs and the refund counter (`World`). An operation panics where
the source does: on a nil balance, on a truncated account record, on a refund counter below zero. A
malformed record is an error that is kept in the overlay and otherwise read as an absent account. -/

namespace Web3.Storage

/-! ## Account records in the cache -/

namespace CacheDB

def getEthAccount (db : CacheDB) (addr : Address) : Outcome EthAccount :=
  let value := db.get ST_ETH_ACCOUNT addr.1
  if value.length = 0 then .ok EthAccount.zero else EthAccount.deserialization value

def putEthAccount (db : CacheDB) (rnd : Rand) (addr : Address) (val : EthAccount) : Outcome CacheDB := do
  let raw ← if val.isEmpty then .ok [] else val.serialization
  .ok (db.put rnd ST_ETH_ACCOUNT addr.1 raw)

def delEthAccount (db : CacheDB) (rnd : Rand) (addr : Address) : CacheDB :=
  db.put rnd ST_ETH_ACCOUNT addr.1 []

def setDbErr (db : CacheDB) (err : String) : CacheDB := { db with backend := db.backend.setError err }

end CacheDB

/-! ## The balance handle -/

namespace BalanceHandle

variable (cache : CacheDB) (rnd : Rand) (addr : Address) (val : ℤ)

def subBalance : Outcome CacheDB := do
  let acct ← cache.getEthAccount addr
  let balance ← acct.balance
  cache.putEthAccount rnd addr { acct with Balance := some (balance - U256.fromBig val) }

def addBalance : Outcome CacheDB := do
  let acct ← cache.getEthAccount addr
  let balance ← acct.balance
  cache.putEthAccount rnd addr { acct with Balance := some (balance + U256.fromBig val) }

def setBalance : Outcome CacheDB := do
  let acct ← cache.getEthAccount addr
  cache.putEthAccount rnd addr { acct with Balance := some (U256.fromBig val) }

def getBalance (cache : CacheDB) (addr : Address) : Outcome ℕ := do
  let acct ← cache.getEthAccount addr
  let balance ← acct.balance
  .ok balance.toNat

end BalanceHandle

/-! ## The state -/

structure StorageLog where
  Address : Address
  Topics : List Hash
  Data : Bytes

/-- What the methods of a `StateDB` read and write. -/
structure World where
  cacheDB : CacheDB
  Suicided : Finset Address
  logs : List StorageLog
  refund : UInt64

namespace World

variable (w : World)

/-- An error of a call on the cache is kept; the state is otherwise as before the call. -/
def orDbErr (x : Outcome CacheDB) : Outcome World :=
  match x with
  | .ok db => .ok { w with cacheDB := db }
  | .err e => .ok { w with cacheDB := w.cacheDB.setDbErr e }
  | .panic p => .panic p

variable (addr : Address)

def getEthAccount : Outcome (EthAccount × World) :=
  match w.cacheDB.getEthAccount addr with
  | .ok account => .ok (account, w)
  | .err e => .ok (EthAccount.zero, { w with cacheDB := w.cacheDB.setDbErr e })
  | .panic p => .panic p

def putEthAccount (rnd : Rand) (addr : Address) (account : EthAccount) : Outcome World := do
  let db ← w.cacheDB.putEthAccount rnd addr account
  .ok { w with cacheDB := db }

/-! ### Reads -/

def getState (contract : Address) (key : Hash) : Hash :=
  bytesToHash (w.cacheDB.Get (genKey contract key))

def getCommittedState (key : Hash) : Hash :=
  bytesToHash (w.cacheDB.backend.get (CacheDB.genAccountStateKey addr key.1))

def getRefund : UInt64 := w.refund

def getLogs : List StorageLog := w.logs

def getNonce : Outcome (UInt64 × World) := do
  let (account, w) ← w.getEthAccount addr
  .ok (account.Nonce, w)

def getCodeHash : Outcome (Hash × World) := do
  let (account, w) ← w.getEthAccount addr
  .ok (account.CodeHash, w)

def getCode : Outcome (Bytes × World) := do
  let (account, w) ← w.getEthAccount addr
  .ok (account.Code, w)

def getBalance (w : World) (addr : Address) : Outcome (ℕ × World) :=
  match BalanceHandle.getBalance w.cacheDB addr with
  | .ok balance => .ok (balance, w)
  | .err e => .ok (0, { w with cacheDB := w.cacheDB.setDbErr e })
  | .panic p => .panic p

def hasSuicided : Bool := addr ∈ w.Suicided

def exist : Outcome (Bool × World) :=
  if addr ∈ w.Suicided then .ok (true, w)
  else do
    let (acct, w) ← w.getEthAccount addr
    match BalanceHandle.getBalance w.cacheDB addr with
    | .ok balance => .ok (!acct.isEmpty || balance > 0, w)
    | .err e => .ok (false, { w with cacheDB := w.cacheDB.setDbErr e })
    | .panic p => .panic p

def empty : Outcome (Bool × World) := do
  let (acct, w) ← w.getEthAccount addr
  match BalanceHandle.getBalance w.cacheDB addr with
  | .ok balance => .ok (acct.isEmpty && balance = 0, w)
  | .err e => .ok (false, { w with cacheDB := w.cacheDB.setDbErr e })
  | .panic p => .panic p

/-! ### Writes -/

def setState (rnd : Rand) (contract : Address) (key value : Hash) : World :=
  { w with cacheDB := w.cacheDB.Put rnd (genKey contract key) value.1 }

def setNonce (rnd : Rand) (addr : Address) (nonce : UInt64) : Outcome World := do
  let (account, w) ← w.getEthAccount addr
  w.putEthAccount rnd addr { account with Nonce := nonce }

def setCode (keccak256 : Bytes → Hash) (rnd : Rand) (addr : Address) (code : Bytes) : Outcome World := do
  let (account, w) ← w.getEthAccount addr
  w.putEthAccount rnd addr { account with CodeHash := keccak256 code, Code := code }

def subBalance (w : World) (rnd : Rand) (addr : Address) (val : ℤ) : Outcome World :=
  w.orDbErr (BalanceHandle.subBalance w.cacheDB rnd addr val)

def addBalance (w : World) (rnd : Rand) (addr : Address) (val : ℤ) : Outcome World :=
  w.orDbErr (BalanceHandle.addBalance w.cacheDB rnd addr val)

def suicide (rnd : Rand) (addr : Address) : Outcome (Bool × World) := do
  let (acct, w) ← w.getEthAccount addr
  if acct.isEmpty then .ok (false, w)
  else
    let w := { w with Suicided := insert addr w.Suicided }
    let w ← w.orDbErr (BalanceHandle.setBalance w.cacheDB rnd addr 0)
    .ok (true, w)

def addLog (log : StorageLog) : World := { w with logs := w.logs ++ [log] }

def addRefund (gas : UInt64) : World := { w with refund := w.refund + gas }

/-- This method panics if the refund counter goes below zero. -/
def subRefund (gas : UInt64) : Outcome World :=
  if gas > w.refund then
    .panic ("Refund counter below zero (gas: " ++ toString gas ++ " > refund: " ++ toString w.refund ++ ")")
  else .ok { w with refund := w.refund - gas }

end World
end Web3.Storage
