import SwissledgerFoundry.Evm.CacheDb
import SwissledgerFoundry.StateSnapshots

/-!
# The backend with several forks

The database of a test run: an in-memory database until a fork is selected, and
then the database of the active fork.  Each fork keeps the journaled state with
which it was left.  Which remote database a request yields is decided by the
fork handler, so it is an argument here.
-/

namespace SwissledgerFoundry.Forking

abbrev ForkId := List Char

abbrev LocalForkId := U256

/-- The fields of the block environment that the backend sets, and the rest. -/
structure BlockEnv where
  number : U256
  timestamp : U256
  rest : Bytes
deriving DecidableEq, Repr

structure EvmEnv where
  chainId : UInt64
  cfg : Bytes
  blockEnv : BlockEnv
deriving DecidableEq, Repr

structure TxEnv where
  caller : Address
  chainId : Option UInt64
deriving DecidableEq, Repr

structure Fork where
  db : CacheDb
  journaledState : JournaledState

/-- What the fork handler answers to a request for a fork. -/
structure ForkReply where
  forkId : ForkId
  remote : DatabaseRef
  evmEnv : EvmEnv

inductive BackendDatabaseSnapshot where
  | inMemory (db : CacheDb)
  | forked (id : LocalForkId) (forkId : ForkId) (idx : ℕ) (fork : Fork)

structure BackendStateSnapshot where
  db : BackendDatabaseSnapshot
  journaledState : JournaledState
  snapEvmEnv : EvmEnv

inductive RevertStateSnapshotAction where
  | revertRemove
  | revertKeep
deriving DecidableEq, Repr

inductive ForkError where
  | noMatchingLocalFork (id : LocalForkId)
  | noMatchingFork (id : ForkId)
  | requestedForkDoesNotExist (id : LocalForkId)
  | noForkActive
  | missingAccount (address : Address)
  /-- A `None` was unwrapped or an index was out of bounds. -/
  | panicked
deriving DecidableEq, Repr

structure BackendInner where
  issuedLocalForkIds : HashMap LocalForkId ForkId
  createdForks : HashMap ForkId ℕ
  forks : List (Option Fork)
  stateSnapshots : StateSnapshots BackendStateSnapshot
  hasStateSnapshotFailure : Bool
  caller : Option Address
  nextForkId : LocalForkId
  /-- In iteration order. -/
  persistentAccounts : List Address

namespace BackendInner

variable (inner : BackendInner)

def ensureForkId (id : LocalForkId) : Except ForkError ForkId :=
  match inner.issuedLocalForkIds.lookup id with
  | some forkId => .ok forkId
  | none => .error (.noMatchingLocalFork id)

def ensureForkIndex (id : ForkId) : Except ForkError ℕ :=
  match inner.createdForks.lookup id with
  | some idx => .ok idx
  | none => .error (.noMatchingFork id)

/-- `get_fork`, `get_fork_mut` and `take_fork` fail without a fork. -/
def getFork (idx : ℕ) : Option Fork := (inner.forks[idx]?).join

def setFork (idx : ℕ) (fork : Fork) : BackendInner :=
  { inner with forks := inner.forks.set idx (some fork) }

/-- The list of forks that `take_fork` leaves. -/
def takeFork (idx : ℕ) : BackendInner :=
  { inner with forks := inner.forks.set idx none }

def insertNewFork (forkId : ForkId) (db : CacheDb) (journaledState : JournaledState) :
    BackendInner × LocalForkId × ℕ :=
  let idx := inner.forks.length
  let id := inner.nextForkId
  ({ inner with
     createdForks := inner.createdForks.insert forkId idx
     nextForkId := inner.nextForkId + 1
     issuedLocalForkIds := inner.issuedLocalForkIds.insert id forkId
     forks := inner.forks ++ [some { db := db, journaledState := journaledState }] }, id, idx)

def revertStateSnapshot (id : LocalForkId)
    (forkId : ForkId) (idx : ℕ) (fork : Fork) : BackendInner :=
  { inner with
    createdForks := inner.createdForks.insert forkId idx
    issuedLocalForkIds := inner.issuedLocalForkIds.insert id forkId
    forks := inner.forks.set idx (some fork) }

end BackendInner

def mergeDbAccountData (address : Address) (active forkDb : CacheDb) : CacheDb :=
  match active.accounts.lookup address with
  | none => forkDb
  | some account =>
    let contracts :=
      match active.contracts.lookup account.info.codeHash with
      | some code => forkDb.contracts.insert account.info.codeHash code
      | none => forkDb.contracts
    let merged :=
      match forkDb.accounts.lookup address with
      | none => account
      | some forkAccount =>
        { forkAccount with storage := forkAccount.storage.extend account.storage.entries }
    { forkDb with contracts := contracts, accounts := forkDb.accounts.insert address merged }

def mergeJournaledStateData (address : Address) (active fork : JournaledState) : JournaledState :=
  match active.state.lookup address with
  | none => fork
  | some account =>
    let merged :=
      match fork.state.lookup address with
      | none => account
      | some forkAccount =>
        { account with storage := forkAccount.storage.extend account.storage.entries }
    { fork with state := fork.state.insert address merged }

/-- `merge_account_data`, without the final assignment. -/
def mergeAccountData (accounts : List Address) (active : CacheDb)
    (activeJournaledState : JournaledState) (targetFork : Fork) : Fork :=
  accounts.foldl (fun fork address =>
    { db := mergeDbAccountData address active fork.db
      journaledState := mergeJournaledStateData address
        activeJournaledState fork.journaledState }) targetFork

def BackendInner.rollFork (inner : BackendInner) (id : LocalForkId)
    (reply : ForkReply) : Except ForkError BackendInner := do
  let forkId ← inner.ensureForkId id
  let idx ← inner.ensureForkIndex forkId
  match inner.forks[idx]? with
  | none => .error .panicked
  | some fork =>
    -- a new database that keeps the persistent accounts
    let rolled := fork.map fun active =>
      { active with
        db := inner.persistentAccounts.foldl
          (fun db address => mergeDbAccountData address active.db db)
          (.new reply.remote) }
    .ok
      { inner with
        forks := inner.forks.set idx rolled
        issuedLocalForkIds := inner.issuedLocalForkIds.insert id reply.forkId
        createdForks := inner.createdForks.insert reply.forkId idx }

structure Backend where
  /-- The environments that the fork handler keeps for its forks. -/
  envs : HashMap ForkId EvmEnv
  memDb : CacheDb
  forkInitJournaledState : JournaledState
  activeForkIds : Option (LocalForkId × ℕ)
  inner : BackendInner

namespace Backend

variable (backend : Backend)

def activeForkId : Option LocalForkId := backend.activeForkIds.map Prod.fst

def isActiveFork (id : LocalForkId) : Bool := backend.activeForkId = some id

/-- The database that is read and written: the one of the active fork, or the
in-memory one.  Without the active fork in the list the code panics. -/
def database : Option CacheDb :=
  match backend.activeForkIds with
  | some (_, idx) => (backend.inner.getFork idx).map Fork.db
  | none => some backend.memDb

/-- Writes the database that `database` returns. -/
def setDatabase (db : CacheDb) : Backend :=
  match backend.activeForkIds with
  | none => { backend with memDb := db }
  | some (_, idx) =>
    match backend.inner.getFork idx with
    | none => backend
    | some fork => { backend with inner := backend.inner.setFork idx { fork with db := db } }

def createDbSnapshot : Except ForkError BackendDatabaseSnapshot :=
  match backend.activeForkIds with
  | none => .ok (.inMemory backend.memDb)
  | some (id, idx) =>
    match backend.inner.getFork idx, backend.inner.issuedLocalForkIds.lookup id with
    | some fork, some forkId => .ok (.forked id forkId idx fork)
    | _, _ => .error .panicked

def ensureFork (id : Option LocalForkId) : Except ForkError LocalForkId :=
  match id with
  | some id =>
    if id ∈ backend.inner.issuedLocalForkIds then .ok id
    else .error (.requestedForkDoesNotExist id)
  | none =>
    match backend.activeForkId with
    | some id => .ok id
    | none => .error .noForkActive

end Backend

/-- The backend with the environment and the journal of the running EVM. -/
structure Session where
  backend : Backend
  evmEnv : EvmEnv
  txEnv : TxEnv
  journaledState : JournaledState

namespace Session

def snapshotState (session : Session) : Session × Except ForkError U256 :=
  match session.backend.createDbSnapshot with
  | .error error => (session, .error error)
  | .ok db =>
    let (stateSnapshots, id) :=
      session.backend.inner.stateSnapshots.insert
        { db := db, journaledState := session.journaledState, snapEvmEnv := session.evmEnv }
    ({ session with
       backend :=
        { session.backend with
          inner := { session.backend.inner with stateSnapshots := stateSnapshots } } }, .ok id)

def cheatcodeAddress : Address := 0x7109709ECfa91a80626fF3989D68f67F5b1DD12D

def globalFailSlot : U256 := 0x6661696c65640000000000000000000000000000000000000000000000000000

/-- Whether a failed assertion is recorded in the journal. -/
def failed (journal : JournaledState) : Bool :=
  match journal.state.lookup cheatcodeAddress with
  | none => false
  | some account =>
    match account.storage.lookup globalFailSlot with
    | none => false
    | some slot => slot.presentValue ≠ 0

/-- The caller is put into a journal that lacks it, with the data it has in
the other journal, and into the database if that lacks it too. -/
def insertCaller (keccak : Bytes → B256) (caller : Address)
    (current : JournaledState) (fork : Fork) : Fork :=
  match fork.journaledState.state.lookup caller with
  | some _ => fork
  | none =>
    let callerAccount := ((current.state.lookup caller).map Account.info).getD default
    { db :=
        if caller ∈ fork.db.accounts then fork.db
        else fork.db.insertAccountInfo keccak caller callerAccount
      journaledState :=
        { fork.journaledState with
          state := fork.journaledState.state.insert caller (.ofInfo callerAccount) } }

/-- `revert_state`, whose result is the new journal.  The running EVM takes
the journal and the environment over. -/
def revertState (keccak : Bytes → B256) (session : Session) (id : U256)
    (caller : Address) (action : RevertStateSnapshotAction) :
    Session × Except ForkError Bool :=
  let inner := session.backend.inner
  match inner.stateSnapshots.stateSnapshots.lookup id with
  | none => (session, .ok false)
  | some snapshot =>
    let stateSnapshots :=
      match action with
      | .revertRemove => inner.stateSnapshots.stateSnapshots.erase id
      | .revertKeep => (inner.stateSnapshots.stateSnapshots.erase id).insert id snapshot
    let inner :=
      { inner with
        stateSnapshots := { inner.stateSnapshots with stateSnapshots := stateSnapshots }
        hasStateSnapshotFailure := inner.hasStateSnapshotFailure || failed session.journaledState }
    let backend := { session.backend with inner := inner }
    let journaledState := { snapshot.journaledState with logs := session.journaledState.logs }
    match snapshot.db with
    | .inMemory memDb =>
      ({ session with
         backend := { backend with memDb := memDb }
         journaledState := journaledState
         evmEnv := snapshot.snapEvmEnv }, .ok true)
    | .forked id forkId idx fork =>
      if idx < inner.forks.length then
        let entered := insertCaller keccak caller session.journaledState
          { fork with journaledState := journaledState }
        let fork := { fork with db := entered.db }
        ({ session with
           backend :=
            { backend with
              inner := inner.revertStateSnapshot id forkId idx fork
              activeForkIds := some (id, idx) }
           journaledState := entered.journaledState
           evmEnv := snapshot.snapEvmEnv }, .ok true)
      else ({ session with backend := backend }, .error .panicked)

def createFork (session : Session) (reply : ForkReply) : Session × LocalForkId :=
  let (inner, id, _) := session.backend.inner.insertNewFork reply.forkId
    (.new reply.remote) session.backend.forkInitJournaledState
  ({ session with
     backend :=
      { session.backend with
        envs := session.backend.envs.insert reply.forkId reply.evmEnv
        inner := inner } }, id)

end Session

/-- The block of the active fork takes the values of the running EVM. -/
def Backend.updateActiveBlock (backend : Backend) (evmEnv : EvmEnv) : Except ForkError Backend :=
  match backend.activeForkId with
  | none => .ok backend
  | some active => do
      let forkId ← backend.inner.ensureForkId active
      .ok
        { backend with
          envs :=
            match backend.envs.lookup forkId with
            | none => backend.envs
            | some env => backend.envs.insert forkId
                { env with
                  blockEnv :=
                    { env.blockEnv with
                      number := evmEnv.blockEnv.number
                      timestamp := evmEnv.blockEnv.timestamp } } }

/-- The index and the environment of a fork that is to be selected. -/
def Backend.resolve (backend : Backend) (id : LocalForkId) : Except ForkError (ℕ × EvmEnv) := do
  let forkId ← backend.inner.ensureForkId id
  let idx ← backend.inner.ensureForkIndex forkId
  match backend.envs.lookup forkId with
  | none => .error (.requestedForkDoesNotExist id)
  | some env => .ok (idx, env)

/-- A fork that was never selected gets the caller with its data there. -/
def initializeCaller (caller : Address) (callerAccount : Option Account)
    (target : Fork) : Fork × Except ForkError Unit :=
  if target.journaledState.depth = 0 then
    match callerAccount with
    | none => (target, .ok ())
    | some account =>
      let (db, dbAccount) := target.db.loadAccount caller
      match dbAccount.info? with
      | none => ({ target with db := db }, .error (.missingAccount caller))
      | some info =>
        ({ db := db
           journaledState :=
            { target.journaledState with
              state := target.journaledState.state.insert caller
                { account with info := info } } }, .ok ())
  else (target, .ok ())

/-- The inner loop of `prepare_init_journal_state`. -/
def replaceAccounts : List Address → CacheDb → JournaledState →
    (CacheDb × JournaledState) × Except ForkError Unit
  | [], db, journal => ((db, journal), .ok ())
  | address :: addresses, db, journal =>
    match journal.state.lookup address with
    | none => ((db, journal), .error .panicked)
    | some account =>
      if account.isCreated then replaceAccounts addresses db journal
      else
        let (db, dbAccount) := db.loadAccount address
        match dbAccount.info? with
        | none => ((db, journal), .error (.missingAccount address))
        | some info =>
          replaceAccounts addresses db
            { journal with state := journal.state.insert address { account with info := info } }

/-- The outer loop of `prepare_init_journal_state`. -/
def prepareForks (loaded : List Address) (init : JournaledState) :
    List (Option Fork) → List (Option Fork) × Except ForkError Unit
  | [] => ([], .ok ())
  | none :: forks =>
    let (forks, result) := prepareForks loaded init forks
    (none :: forks, result)
  | some fork :: forks =>
    match replaceAccounts loaded fork.db init with
    | ((db, _), .error error) => (some { fork with db := db } :: forks, .error error)
    | ((db, journal), .ok ()) =>
      let (forks, result) := prepareForks loaded init forks
      (some { db := db, journaledState := journal } :: forks, result)

/-- `prepare_init_journal_state`, after the initial state was set. -/
def Backend.prepareInitJournalState (precompiles : List Address)
    (backend : Backend) : Backend × Except ForkError Unit :=
  let loaded := backend.forkInitJournaledState.state.keys.filter fun address =>
    address ∉ precompiles && address ∉ backend.inner.persistentAccounts
  let (forks, result) := prepareForks loaded backend.forkInitJournaledState backend.inner.forks
  ({ backend with inner := { backend.inner with forks := forks } }, result)

/-- Leaves the active fork, or prepares all forks if none was selected yet. -/
def Session.leave (precompiles : List Address) (session : Session)
    (idx : ℕ) : Backend × Except ForkError Unit :=
  let backend := session.backend
  match backend.activeForkIds with
  | some (_, activeIdx) =>
    match backend.inner.getFork activeIdx with
    | none => (backend, .error .panicked)
    | some active =>
      let inner := backend.inner.setFork activeIdx
        { active with journaledState := session.journaledState }
      let caller := session.txEnv.caller
      match inner.getFork idx with
      | none => ({ backend with inner := inner }, .error .panicked)
      | some target =>
        let (target, result) := initializeCaller caller
          (session.journaledState.state.lookup caller) target
        ({ backend with inner := inner.setFork idx target }, result)
  | none =>
    match { backend with
        forkInitJournaledState := session.journaledState }.prepareInitJournalState precompiles with
    | (backend, .error error) => (backend, .error error)
    | (backend, .ok ()) =>
      ({ backend with
         forkInitJournaledState := { backend.forkInitJournaledState with depth := 0 } }, .ok ())

/-- The slots of a persistent account that the journal of the new fork holds
take the values of the active database. -/
def refreshSlots (values : List (Σ _ : U256, U256))
    (storage : HashMap U256 StorageSlot) : HashMap U256 StorageSlot :=
  values.foldl (fun storage entry =>
    match storage.lookup entry.1 with
    | none => storage
    | some slot => storage.insert entry.1 { slot with presentValue := entry.2 }) storage

/-- One round of the loop over the persistent accounts in `select_fork`. -/
def refreshAccount (state : CacheDb × JournaledState) (address : Address) :
    CacheDb × JournaledState :=
  let (db, dbAccount) := state.1.loadAccount address
  match state.2.state.lookup address with
  | none => (db, state.2)
  | some account =>
    (db,
      { state.2 with
        state := state.2.state.insert address
          { account with storage := refreshSlots dbAccount.storage.entries account.storage } })

/-- The last part of `select_fork`: the fork takes over the shared state.
Returns the new list of forks and the new journal. -/
def Session.handOver (keccak : Bytes → B256) (session : Session)
    (idx : ℕ) : Except ForkError Session := do
  let inner := session.backend.inner
  match inner.getFork idx with
  | none => .error .panicked
  | some fork =>
    let taken := inner.takeFork idx
    let (taken, active, journaledState) ←
      match session.backend.activeForkIds with
      | none => .ok (taken, session.backend.memDb, fork.journaledState)
      | some (_, activeIdx) =>
        match taken.getFork activeIdx with
        | none => .error .panicked
        | some active =>
          let (db, journal) := inner.persistentAccounts.foldl
            refreshAccount (active.db, fork.journaledState)
          .ok (taken.setFork activeIdx { active with db := db }, db, journal)
    let fork := insertCaller keccak session.txEnv.caller session.journaledState
      { fork with journaledState := { journaledState with depth := session.journaledState.depth } }
    let fork := mergeAccountData inner.persistentAccounts active session.journaledState fork
    .ok
      { session with
        backend := { session.backend with inner := taken.setFork idx fork }
        journaledState := fork.journaledState }

def Session.selectFork (keccak : Bytes → B256) (precompiles : List Address)
    (session : Session) (id : LocalForkId) :
    Session × Except ForkError Unit :=
  if session.backend.isActiveFork id then (session, .ok ())
  else
    match session.backend.updateActiveBlock session.evmEnv with
    | .error error => (session, .error error)
    | .ok backend =>
      let session := { session with backend := backend }
      match backend.resolve id with
      | .error error => (session, .error error)
      | .ok (idx, forkEvmEnv) =>
        match session.leave precompiles idx with
        | (backend, .error error) => ({ session with backend := backend }, .error error)
        | (backend, .ok ()) =>
          let session := { session with backend := backend }
          match session.handOver keccak idx with
          | .error error => (session, .error error)
          | .ok session =>
            ({ session with
               backend := { session.backend with activeForkIds := some (id, idx) }
               txEnv := { session.txEnv with chainId := some forkEvmEnv.chainId }
               evmEnv := forkEvmEnv }, .ok ())

/-- The accounts of the old journal that the new one has to hold. -/
def reloadAccount (journaledState : JournaledState)
    (state : JournaledState × CacheDb) (entry : Σ _ : Address, Account) :
    JournaledState × CacheDb :=
  if entry.2.isCreated then
    if entry.2.isTouched then
      (mergeJournaledStateData entry.1 journaledState state.1, state.2)
    else state
  else state.1.loadAccount state.2 entry.1

/-- The journal and the database of the active fork after it was rolled. -/
def rolledFork (backend : Backend) (journaledState : JournaledState) (db : CacheDb) : Fork :=
  let persistent := backend.inner.persistentAccounts ++ backend.inner.caller.toList
  let journal := persistent.foldl
    (fun journal address => mergeJournaledStateData address journaledState journal)
    { backend.forkInitJournaledState with depth := journaledState.depth }
  let (journal, db) := journaledState.state.entries.foldl
    (reloadAccount journaledState) (journal, db)
  { db := db, journaledState := journal }

def Session.rollFork (session : Session) (id : Option LocalForkId)
    (reply : ForkReply) : Session × Except ForkError Unit :=
  match session.backend.ensureFork id with
  | .error error => (session, .error error)
  | .ok id =>
    match session.backend.inner.ensureForkId id with
    | .error error => (session, .error error)
    | .ok _ =>
      let backend :=
        { session.backend with envs := session.backend.envs.insert reply.forkId reply.evmEnv }
      match backend.inner.rollFork id reply with
      | .error error => ({ session with backend := backend }, .error error)
      | .ok inner =>
        let backend := { backend with inner := inner }
        let session := { session with backend := backend }
        match backend.activeForkIds with
        | none => (session, .ok ())
        | some (activeId, activeIdx) =>
          if activeId = id then
            match inner.getFork activeIdx with
            | none => ({ session with evmEnv := reply.evmEnv }, .error .panicked)
            | some active =>
              let fork := rolledFork backend session.journaledState active.db
              ({ session with
                 backend := { backend with inner := inner.setFork activeIdx fork }
                 evmEnv := reply.evmEnv
                 journaledState := fork.journaledState }, .ok ())
          else (session, .ok ())

def defaultPersistentAccounts : List Address :=
  [Session.cheatcodeAddress, 0x4e59b44847b379578588920cA78FbF26c0B4956C,
    0x1804c8AB1F12E6bbf3894d4083f33e07309d1f38]

def Backend.new (blockHash : U256 → B256) : Backend where
  envs := ∅
  memDb := .new (.empty blockHash)
  forkInitJournaledState := .new
  activeForkIds := none
  inner :=
    { issuedLocalForkIds := ∅
      createdForks := ∅
      forks := []
      stateSnapshots := .empty
      hasStateSnapshotFailure := false
      caller := none
      nextForkId := 0
      persistentAccounts := defaultPersistentAccounts }

end SwissledgerFoundry.Forking
