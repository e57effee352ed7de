import SwissledgerFoundry.Forking.Frame

/-!
# Reverting a state snapshot

A snapshot of a fork brings its fork back.  A snapshot of the in-memory database
only replaces that database.
-/

namespace SwissledgerFoundry.Forking

open Session Transition AList

/-- What the running EVM changes between two operations of the backend. -/
structure Execution where
  journaledState : JournaledState
  evmEnv : EvmEnv
  txEnv : TxEnv
  db : CacheDb
  persistentAccounts : List Address
  caller : Option Address

inductive Operation where
  | execute (execution : Execution)
  | snapshotState
  | revertState (id : U256) (caller : Address)
      (action : RevertStateSnapshotAction)
  | createFork (reply : ForkReply)
  | selectFork (id : LocalForkId)
  | rollFork (id : Option LocalForkId) (reply : ForkReply)

namespace Session

def execute (session : Session) (execution : Execution) : Session :=
  let backend := session.backend.setDatabase execution.db
  { backend :=
      { backend with
        inner :=
          { backend.inner with
            persistentAccounts := execution.persistentAccounts
            caller := execution.caller } }
    evmEnv := execution.evmEnv
    txEnv := execution.txEnv
    journaledState := execution.journaledState }

/-- The session after an operation, whether it failed or not. -/
def step (keccak : Bytes → B256) (precompiles : List Address)
    (session : Session) : Operation → Session
  | .execute execution => session.execute execution
  | .snapshotState => session.snapshotState.1
  | .revertState id caller action => (session.revertState keccak id caller action).1
  | .createFork reply => (session.createFork reply).1
  | .selectFork id => (session.selectFork keccak precompiles id).1
  | .rollFork id reply => (session.rollFork id reply).1

end Session

/-- What a snapshot was taken of. -/
structure Moment where
  activeForkId : Option LocalForkId
  database : CacheDb
  evmEnv : EvmEnv

/-- A session, and the moment of the last snapshot with each id. -/
structure Watched where
  session : Session
  moments : HashMap U256 Moment

namespace Watched

variable (keccak : Bytes → B256) (precompiles : List Address)

/-- The moment that a snapshot taken now belongs to. -/
def takeMoment (watched : Watched) : HashMap U256 Moment :=
  match watched.session.snapshotState.2, watched.session.backend.database with
  | .ok id, some database =>
    watched.moments.insert id
      { activeForkId := watched.session.backend.activeForkId
        database := database
        evmEnv := watched.session.evmEnv }
  | _, _ => watched.moments

def step (watched : Watched) (operation : Operation) : Watched where
  session := watched.session.step keccak precompiles operation
  moments :=
    match operation with
    | .snapshotState => watched.takeMoment
    | _ => watched.moments

/-- A session without a fork. -/
def start (blockHash : U256 → B256) (evmEnv : EvmEnv) (txEnv : TxEnv)
    (journaledState : JournaledState) : Watched where
  session :=
    { backend := .new blockHash
      evmEnv := evmEnv
      txEnv := txEnv
      journaledState := journaledState }
  moments := ∅

end Watched

structure BackendStateSnapshot.TakenAt (snapshot : BackendStateSnapshot)
    (moment : Moment) : Prop where
  evmEnv : snapshot.snapEvmEnv = moment.evmEnv
  database :
    match snapshot.db with
    | .inMemory db => moment.activeForkId = none ∧ moment.database = db
    | .forked id _ _ fork => moment.activeForkId = some id ∧ moment.database = fork.db

/-- A snapshot of the in-memory database is reverted while no fork is active,
and a snapshot of a fork knows the caller. -/
def Session.Revertible (session : Session) (id : U256) (caller : Address) : Prop :=
  ∀ snapshot ∈ session.backend.inner.stateSnapshots.stateSnapshots.lookup id,
    match snapshot.db with
    | .inMemory _ => session.backend.activeForkIds = none
    | .forked _ _ _ fork => caller ∈ snapshot.journaledState.state ∨ caller ∈ fork.db.accounts

namespace Watched

/-- Every snapshot was taken at the moment that is noted for it. -/
structure Invariant (watched : Watched) : Prop where
  taken : ∀ {id snapshot},
    watched.session.backend.inner.stateSnapshots.stateSnapshots.lookup id = some snapshot →
    ∃ moment, watched.moments.lookup id = some moment ∧ snapshot.TakenAt moment

end Watched

theorem setDatabase_stateSnapshots (backend : Backend) (db : CacheDb) :
    (backend.setDatabase db).inner.stateSnapshots = backend.inner.stateSnapshots := by
  unfold Backend.setDatabase
  split
  · rfl
  split
  · rfl
  · rfl

theorem rollFork_stateSnapshots (session : Session) (id : Option LocalForkId) (reply : ForkReply) :
    (session.rollFork id reply).1.backend.inner.stateSnapshots =
      session.backend.inner.stateSnapshots := by
  unfold rollFork
  split
  · rfl
  split
  · rfl
  dsimp only
  split
  · rfl
  rename_i inner rolled
  have same : inner.stateSnapshots = session.backend.inner.stateSnapshots := by
    obtain ⟨_, _, _, _, _, _, rfl⟩ := rollFork_eq_ok rolled
    rfl
  split
  · exact same
  split
  · split
    · exact same
    · exact same
  · exact same

/-- Reverting keeps the other snapshots, and keeps or removes this one. -/
theorem revertState_lookup {probe : U256} {snapshot : BackendStateSnapshot} (keccak : Bytes → B256)
    (session : Session)
    (id : U256) (caller : Address) (action : RevertStateSnapshotAction)
    (found : (session.revertState keccak id caller
      action).1.backend.inner.stateSnapshots.stateSnapshots.lookup probe = some snapshot) :
    session.backend.inner.stateSnapshots.stateSnapshots.lookup probe = some snapshot := by
  unfold revertState at found
  dsimp only at found
  split at found
  · exact found
  rename_i reverted stored
  have removed : ∀ {probe snapshot},
      (session.backend.inner.stateSnapshots.stateSnapshots.erase id).lookup probe = some snapshot →
        session.backend.inner.stateSnapshots.stateSnapshots.lookup probe = some snapshot := by
    intro probe snapshot found
    exact lookup_of_erase found
  have kept : ∀ {probe snapshot}, ((session.backend.inner.stateSnapshots.stateSnapshots.erase
          id).insert id reverted).lookup probe = some snapshot →
        session.backend.inner.stateSnapshots.stateSnapshots.lookup probe = some snapshot := by
    intro probe snapshot found
    obtain ⟨rfl, rfl⟩ | ⟨_, found⟩ := lookup_of_insert found
    · exact stored
    · exact removed found
  cases action with
  | revertRemove =>
    split at found
    · exact removed found
    split at found
    · exact removed found
    · exact removed found
  | revertKeep =>
    split at found
    · exact kept found
    split at found
    · exact kept found
    · exact kept found

theorem insertCaller_db {caller : Address} (keccak : Bytes → B256) (current : JournaledState)
    {fork : Fork}
    (known : caller ∈ fork.journaledState.state ∨ caller ∈ fork.db.accounts) :
    (insertCaller keccak caller current fork).db = fork.db := by
  unfold insertCaller
  split
  · rfl
  rename_i missing
  rcases known with journaled | stored
  · exact absurd journaled (lookup_eq_none.mp missing)
  · exact if_pos stored

variable {session : Session}

theorem revertState_eq_true {caller : Address} {action : RevertStateSnapshotAction}
    {keccak : Bytes → B256} {id : U256}
    {snapshot : BackendStateSnapshot} {moment : Moment}
    (found : session.backend.inner.stateSnapshots.stateSnapshots.lookup id = some snapshot)
    (taken : snapshot.TakenAt moment)
    (revertible : session.Revertible id caller)
    (reverted : (session.revertState keccak id caller action).2 = .ok true) :
    (session.revertState keccak id caller action).1.backend.activeForkId = moment.activeForkId ∧
      (session.revertState keccak id caller action).1.backend.database = some moment.database ∧
      (session.revertState keccak id caller action).1.evmEnv = moment.evmEnv := by
  obtain ⟨evmEnv, database⟩ := taken
  have allowed := revertible snapshot found
  obtain ⟨db, journaledState, snapEvmEnv⟩ := snapshot
  unfold revertState at reverted ⊢
  simp only [found] at reverted ⊢
  cases db with
  | inMemory memDb =>
    refine ⟨?_, ?_, evmEnv⟩
    · rw [allowed, database.1]
      rfl
    · rw [Backend.database, allowed, database.2]
  | forked forkLocalId forkId idx fork =>
    dsimp only at database allowed reverted ⊢
    by_cases bound : idx < session.backend.inner.forks.length
    · simp only [if_pos bound]
      refine ⟨database.1.symm, ?_, evmEnv⟩
      have restored : (insertCaller keccak caller session.journaledState
          { fork with
            journaledState :=
              { journaledState with logs := session.journaledState.logs } }).db = fork.db :=
        insertCaller_db keccak session.journaledState allowed
      have stored := getFork_setFork bound
        { fork with
          db := (insertCaller keccak caller
            session.journaledState
            { fork with
              journaledState := { journaledState with logs := session.journaledState.logs } }).db }
      rw [database.2]
      refine (congrArg (Option.map Fork.db) stored).trans ?_
      exact congrArg some restored
    · simp [if_neg bound] at reverted

namespace Watched

variable {keccak : Bytes → B256} {precompiles : List Address}
  {watched : Watched}

/-- A snapshot is one of the database that is read now. -/
theorem createDbSnapshot_takenAt {db : BackendDatabaseSnapshot} {backend : Backend}
    (created : backend.createDbSnapshot = .ok db)
    (journaledState : JournaledState) (evmEnv : EvmEnv) :
    ∃ database, backend.database = some database ∧ BackendStateSnapshot.TakenAt
        { db := db, journaledState := journaledState, snapEvmEnv := evmEnv }
        { activeForkId := backend.activeForkId
          database := database
          evmEnv := evmEnv } := by
  unfold Backend.createDbSnapshot at created
  unfold Backend.database Backend.activeForkId
  cases active : backend.activeForkIds with
  | none =>
    simp only [active] at created ⊢
    cases created
    exact ⟨_, rfl, rfl, rfl, rfl⟩
  | some ids =>
    simp only [active] at created ⊢
    split at created
    · rename_i fork forkId held _
      cases created
      rw [held]
      exact ⟨_, rfl, rfl, rfl, rfl⟩
    · cases created

section

variable (invariant : watched.Invariant)

include invariant

/-- Operations that leave the snapshots and the moments alone. -/
theorem Invariant.frame
    (same : session.backend.inner.stateSnapshots = watched.session.backend.inner.stateSnapshots) :
    { watched with session := session }.Invariant := by
  constructor
  intro id snapshot found
  rw [same] at found
  exact invariant.taken found

theorem Invariant.snapshotState :
    { session := watched.session.snapshotState.1
      moments := watched.takeMoment : Watched }.Invariant := by
  unfold takeMoment Session.snapshotState
  cases created : watched.session.backend.createDbSnapshot with
  | error error => exact invariant
  | ok db =>
    obtain ⟨database, current, taken⟩ := createDbSnapshot_takenAt created
      watched.session.journaledState watched.session.evmEnv
    constructor
    intro id snapshot found
    simp only [current]
    change (watched.session.backend.inner.stateSnapshots.stateSnapshots.insert
      watched.session.backend.inner.stateSnapshots.id
      { db := db
        journaledState := watched.session.journaledState
        snapEvmEnv := watched.session.evmEnv }).lookup id = some snapshot at found
    change ∃ moment, (watched.moments.insert
      watched.session.backend.inner.stateSnapshots.id _).lookup id =
        some moment ∧ snapshot.TakenAt moment
    rw [lookup_insert_eq] at found ⊢
    by_cases same : id = watched.session.backend.inner.stateSnapshots.id
    · rw [if_pos same] at found ⊢
      cases found
      exact ⟨_, rfl, taken⟩
    · rw [if_neg same] at found ⊢
      exact invariant.taken found

theorem Invariant.step (operation : Operation) :
    (watched.step keccak precompiles operation).Invariant := by
  cases operation with
  | execute execution => exact invariant.frame (setDatabase_stateSnapshots _ _)
  | snapshotState => exact invariant.snapshotState
  | revertState id caller action =>
    constructor
    intro probe snapshot found
    exact invariant.taken (revertState_lookup keccak _ id caller action found)
  | createFork reply => exact invariant.frame rfl
  | selectFork id => exact invariant.frame (selectFork_keeps keccak precompiles _ id).stateSnapshots
  | rollFork id reply => exact invariant.frame (rollFork_stateSnapshots _ id reply)

end

theorem invariant_start (blockHash : U256 → B256) (evmEnv : EvmEnv)
    (txEnv : TxEnv) (journaledState : JournaledState) :
    (start blockHash evmEnv txEnv journaledState).Invariant := by
  constructor
  intro id snapshot found
  cases (lookup_empty id).symm.trans found

/-- In every state that a run reaches from a backend without a fork: a revert
that succeeds and for which the snapshot is revertible restores the active
fork, the database and the environment of the moment of the snapshot. -/
theorem run_revertState_restores (keccak : Bytes → B256)
    (precompiles : List Address) (blockHash : U256 → B256)
    (evmEnv : EvmEnv) (txEnv : TxEnv) (journaledState : JournaledState)
    (operations : List Operation) (id : U256) (caller : Address)
    (action : RevertStateSnapshotAction)
    (revertible : (run (step keccak precompiles) (start blockHash evmEnv txEnv journaledState)
      operations).session.Revertible id caller)
    (reverted : ((run (step keccak precompiles) (start blockHash evmEnv txEnv journaledState)
      operations).session.revertState keccak id caller action).2 = .ok true) :
    ∃ moment, (run (step keccak precompiles) (start blockHash evmEnv txEnv journaledState)
        operations).moments.lookup id = some moment ∧
      ((run (step keccak precompiles) (start blockHash evmEnv txEnv journaledState)
        operations).session.revertState keccak id caller
          action).1.backend.activeForkId = moment.activeForkId ∧
      ((run (step keccak precompiles) (start blockHash evmEnv txEnv journaledState)
        operations).session.revertState keccak id caller
          action).1.backend.database = some moment.database ∧
      ((run (step keccak precompiles) (start blockHash evmEnv txEnv journaledState)
        operations).session.revertState keccak id caller action).1.evmEnv = moment.evmEnv := by
  have along : Transition.Along (step keccak precompiles)
      (fun _ _ => True) (start blockHash evmEnv txEnv journaledState)
      operations :=
    along_of_forall (fun _ _ _ => trivial) _
  have invariant : (run (step keccak precompiles)
      (start blockHash evmEnv txEnv journaledState) operations).Invariant :=
    invariant_along Invariant (fun _ operation invariant _ => invariant.step operation)
      (invariant_start blockHash evmEnv txEnv journaledState) along
      operations List.prefix_rfl
  generalize run (step keccak precompiles)
    (start blockHash evmEnv txEnv journaledState) operations = watched
    at revertible reverted invariant ⊢
  cases found :
      watched.session.backend.inner.stateSnapshots.stateSnapshots.lookup id with
  | none =>
    simp only [revertState, found] at reverted
    cases reverted
  | some snapshot =>
    obtain ⟨moment, noted, taken⟩ := invariant.taken found
    exact ⟨moment, noted, revertState_eq_true found taken revertible reverted⟩

def plainEnv : EvmEnv where
  chainId := 1
  cfg := []
  blockEnv := { number := 1, timestamp := 1, rest := [] }

def plainTx : TxEnv where
  caller := 5
  chainId := some 1

/-- A fork whose accounts all have the given balance. -/
def plainReply (name : Char) (balance : U256) : ForkReply where
  forkId := [name]
  remote :=
    { DatabaseRef.empty fun _ => 0 with
      basic := fun _ => some { (default : AccountInfo) with balance := balance } }
  evmEnv := plainEnv

/-- A snapshot of the first fork brings it back after the second one was
selected. -/
theorem run_revertState_restores_first_fork : ∃ moment,
      (run (step (fun _ => 0) []) (start (fun _ => 0) plainEnv plainTx .new)
        [.createFork (plainReply 'a' 1), .createFork (plainReply 'b' 2),
          .selectFork 0, .snapshotState, .selectFork 1]).moments.lookup 0 = some moment ∧
      ((run (step (fun _ => 0) []) (start (fun _ => 0) plainEnv plainTx .new)
        [.createFork (plainReply 'a' 1), .createFork (plainReply 'b' 2),
          .selectFork 0, .snapshotState,
          .selectFork 1]).session.revertState (fun _ => 0) 0 5
            .revertKeep).1.backend.activeForkId = moment.activeForkId ∧
      ((run (step (fun _ => 0) []) (start (fun _ => 0) plainEnv plainTx .new)
        [.createFork (plainReply 'a' 1), .createFork (plainReply 'b' 2),
          .selectFork 0, .snapshotState,
          .selectFork 1]).session.revertState (fun _ => 0) 0 5
            .revertKeep).1.backend.database = some moment.database ∧
      ((run (step (fun _ => 0) []) (start (fun _ => 0) plainEnv plainTx .new)
        [.createFork (plainReply 'a' 1), .createFork (plainReply 'b' 2),
          .selectFork 0, .snapshotState,
          .selectFork 1]).session.revertState (fun _ => 0) 0 5
            .revertKeep).1.evmEnv = moment.evmEnv := by
  refine run_revertState_restores (fun _ => 0) [] (fun _ => 0) plainEnv plainTx .new
    [.createFork (plainReply 'a' 1), .createFork (plainReply 'b' 2),
      .selectFork 0, .snapshotState, .selectFork 1] 0 5 .revertKeep ?_ ?_
  · intro snapshot found
    cases found
    left
    decide +kernel
  · decide +kernel

/-- A snapshot without a fork is reverted after a fork was selected: the fork
stays active, and the reverted database is not the one that is read. -/
theorem run_revertState_keeps_fork : ∃ watched moment,
      run (step (fun _ => 0) []) (start (fun _ => 0) plainEnv plainTx .new)
        [.snapshotState, .createFork (plainReply 'a' 1), .selectFork 0] = watched ∧
      watched.moments.lookup 0 = some moment ∧
      (watched.session.revertState (fun _ => 0) 0 5 .revertKeep).2 = .ok true ∧
      moment.activeForkId = none ∧
      (watched.session.revertState (fun _ => 0) 0 5 .revertKeep).1.backend.activeForkId = some 0 ∧
      moment.database.balance 9 = 0 ∧
      ((watched.session.revertState (fun _ => 0) 0 5
        .revertKeep).1.backend.database.map (·.balance 9)) = some 1 := by
  refine ⟨_, _, rfl, rfl, ?_, ?_, ?_, ?_, ?_⟩ <;> decide +kernel

end Watched

end SwissledgerFoundry.Forking
