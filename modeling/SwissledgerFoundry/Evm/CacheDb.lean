import SwissledgerFoundry.Collections.Iteration
import SwissledgerFoundry.Primitives

/-!
# The cached database and the journal

`CacheDB` of `revm`: accounts and contracts in memory over a database that is
only read.  An account carries its code inline or has it looked up by its hash.
An execution looks into its journal first.
-/

namespace SwissledgerFoundry

structure DatabaseRef where
  basic : Address → Option AccountInfo
  codeByHash : B256 → Bytes
  storage : Address → U256 → U256
  blockHash : U256 → B256

/-- `EmptyDBWrapper`. -/
def DatabaseRef.empty (blockHash : U256 → B256) : DatabaseRef where
  basic _ := some default
  codeByHash _ := []
  storage _ _ := 0
  blockHash := blockHash

inductive AccountState where
  | notExisting
  | touched
  | storageCleared
  | none
deriving DecidableEq, Repr

def AccountState.isStorageCleared : AccountState → Bool
  | .storageCleared => true
  | _ => false

structure DbAccount where
  info : AccountInfo
  accountState : AccountState
  storage : HashMap U256 U256

/-- `DbAccount::default`, with the given data. -/
def DbAccount.ofInfo (info : AccountInfo) : DbAccount where
  info := info
  accountState := .none
  storage := ∅

def DbAccount.info? (account : DbAccount) : Option AccountInfo :=
  match account.accountState with
  | .notExisting => none
  | _ => some account.info

def DbAccount.update (account : DbAccount) (info : AccountInfo) : DbAccount where
  info := info
  accountState :=
    if account.accountState = .notExisting then .none
    else account.accountState
  storage := account.storage

structure StorageSlot where
  originalValue : U256
  presentValue : U256
deriving DecidableEq, Repr

structure Account where
  info : AccountInfo
  storage : HashMap U256 StorageSlot
  isTouched : Bool
  isCreated : Bool
  isSelfdestructed : Bool

/-- `Account::from`. -/
def Account.ofInfo (info : AccountInfo) : Account where
  info := info
  storage := ∅
  isTouched := false
  isCreated := false
  isSelfdestructed := false

/-- The account after `commit` of a change that keeps it. -/
def DbAccount.commit (dbAccount : DbAccount) (account : Account)
    (info : AccountInfo) : DbAccount where
  info := info
  accountState :=
    if account.isCreated || dbAccount.accountState.isStorageCleared then
      .storageCleared
    else .touched
  storage :=
    (if account.isCreated then ∅ else dbAccount.storage).extend
      (account.storage.entries.map fun entry => ⟨entry.1, entry.2.presentValue⟩)

structure CacheDb where
  accounts : HashMap Address DbAccount
  contracts : HashMap B256 Bytes
  blockHashes : HashMap U256 B256
  db : DatabaseRef

def CacheDb.new (db : DatabaseRef) : CacheDb where
  accounts := ∅
  contracts := (AList.insert keccakEmpty [] ∅).insert 0 []
  blockHashes := ∅
  db := db

namespace CacheDb

variable (db : CacheDb)

def basic (address : Address) : Option AccountInfo :=
  match db.accounts.lookup address with
  | some account => account.info?
  | none => db.db.basic address

def balance (address : Address) : U256 := ((db.basic address).getD default).balance

def nonce (address : Address) : UInt64 := ((db.basic address).getD default).nonce

def codeByHash (codeHash : B256) : Bytes :=
  (db.contracts.lookup codeHash).getD (db.db.codeByHash codeHash)

def storage (address : Address) (slot : U256) : U256 :=
  match db.accounts.lookup address with
  | none => db.db.storage address slot
  | some account =>
    match account.storage.lookup slot with
    | some value => value
    | none =>
      match account.accountState with
      | .storageCleared => 0
      | .notExisting => 0
      | _ => db.db.storage address slot

def blockHash (number : U256) : B256 :=
  (db.blockHashes.lookup number).getD (db.db.blockHash number)

/-- The code of an account: inline, or looked up by its hash. -/
def code (address : Address) : Bytes :=
  let info := (db.basic address).getD default
  match info.code with
  | some code => code
  | none => db.codeByHash info.codeHash

end CacheDb

/-- The code hash that `insert_contract` computes for an account whose code has
none yet. -/
def AccountInfo.hashed (keccak : Bytes → B256) (info : AccountInfo) : AccountInfo :=
  match info.code with
  | some code =>
    if !code.isEmpty && info.codeHash = keccakEmpty then
      { info with codeHash := keccak code }
    else info
  | none => info

/-- The last statement of `insert_contract`. -/
def AccountInfo.nonZero (info : AccountInfo) : AccountInfo :=
  if info.codeHash = 0 then { info with codeHash := keccakEmpty } else info

namespace CacheDb

/-- `insert_contract`: only inline code is registered. -/
def insertContract (keccak : Bytes → B256) (db : CacheDb)
    (info : AccountInfo) : CacheDb × AccountInfo :=
  let info := info.hashed keccak
  let db :=
    match info.code with
    | some code =>
      if code.isEmpty || info.codeHash ∈ db.contracts then db
      else { db with contracts := db.contracts.insert info.codeHash code }
    | none => db
  (db, info.nonZero)

def insertAccountInfo (keccak : Bytes → B256) (db : CacheDb)
    (address : Address) (info : AccountInfo) : CacheDb :=
  let (db, info) := db.insertContract keccak info
  let account := (db.accounts.lookup address).getD (.ofInfo default)
  { db with accounts := db.accounts.insert address (account.update info) }

def loadAccount (db : CacheDb) (address : Address) : CacheDb × DbAccount :=
  match db.accounts.lookup address with
  | some account => (db, account)
  | none =>
    let account :=
      match db.db.basic address with
      | some info => DbAccount.ofInfo info
      | none => { DbAccount.ofInfo default with accountState := .notExisting }
    ({ db with accounts := db.accounts.insert address account }, account)

def insertAccountStorage (db : CacheDb) (address : Address) (slot value : U256) : CacheDb :=
  let (db, account) := db.loadAccount address
  { db with
    accounts := db.accounts.insert address
      { account with storage := account.storage.insert slot value } }

def commitAccount (keccak : Bytes → B256) (db : CacheDb)
    (address : Address) (account : Account) : CacheDb :=
  if !account.isTouched then db
  else if account.isSelfdestructed then
    { db with
      accounts := db.accounts.insert address
        { info := default, accountState := .notExisting, storage := ∅ } }
  else
    let (db, info) := db.insertContract keccak account.info
    let dbAccount := (db.accounts.lookup address).getD (.ofInfo default)
    { db with accounts := db.accounts.insert address (dbAccount.commit account info) }

def commit (keccak : Bytes → B256) (db : CacheDb) (changes : List (Address × Account)) : CacheDb :=
  changes.foldl (fun db change => db.commitAccount keccak change.1 change.2) db

section

variable (keccak : Bytes → B256)

theorem insertContract_frame (db : CacheDb) (info : AccountInfo) :
    (db.insertContract keccak info).1.accounts = db.accounts ∧
      (db.insertContract keccak info).1.db = db.db := by
  unfold CacheDb.insertContract
  dsimp only
  split
  · split <;> exact ⟨rfl, rfl⟩
  · exact ⟨rfl, rfl⟩

theorem insertAccountInfo_accounts (db : CacheDb) (address : Address) (info : AccountInfo) :
    (db.insertAccountInfo keccak address info).accounts = db.accounts.insert address
        (((db.accounts.lookup address).getD (.ofInfo default)).update
          (info.hashed keccak).nonZero) := by
  have unchanged := (insertContract_frame keccak db info).1
  unfold CacheDb.insertAccountInfo
  dsimp only
  rw [unchanged]
  rfl

end

end CacheDb

structure Log where
  address : Address
  topics : List B256
  data : Bytes
deriving DecidableEq, Repr

structure JournaledState where
  state : HashMap Address Account
  depth : ℕ
  logs : List Log

def JournaledState.new : JournaledState where
  state := ∅
  depth := 0
  logs := []

namespace JournaledState

variable (journal : JournaledState) (db : CacheDb) (address : Address)

/-- `JournalInner::load_account`: the database caches what it reads. -/
def loadAccount : JournaledState × CacheDb :=
  match journal.state.lookup address with
  | some _ => (journal, db)
  | none =>
    let (db, account) := db.loadAccount address
    let loaded := Account.ofInfo (account.info?.getD default)
    ({ journal with state := journal.state.insert address loaded }, db)

/-- The account data that an execution sees. -/
def info : AccountInfo :=
  match journal.state.lookup address with
  | some account => account.info
  | none => (db.basic address).getD default

/-- The storage value that an execution sees.  A slot of an account that was
created in this execution is not looked up in the database. -/
def slot (key : U256) : U256 :=
  match journal.state.lookup address with
  | some account =>
    match account.storage.lookup key with
    | some slot => slot.presentValue
    | none => if account.isCreated then 0 else db.storage address key
  | none => db.storage address key

end JournaledState

end SwissledgerFoundry
