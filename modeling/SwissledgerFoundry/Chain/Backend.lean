import SwissledgerFoundry.Chain.Storage
import SwissledgerFoundry.StateSnapshots

/-!
# The backend of the in-memory node

Mining, state snapshots, reverting to a snapshot and rolling back to a stored
block.  The list of active snapshots is kept twice, in the backend and in the
database.  What the database holds and how historical states are kept are
parameters.
-/

namespace SwissledgerFoundry.Chain

inductive BlockchainError where
  | blockNotFound
  | dataUnavailable
deriving DecidableEq, Repr

/-- The in-memory database: its contents and their snapshots. -/
structure MemDb (Inner : Type) where
  inner : Inner
  stateSnapshots : StateSnapshots Inner

namespace MemDb

variable {Inner : Type}

def snapshotState (db : MemDb Inner) : MemDb Inner × U256 :=
  let (stateSnapshots, id) := db.stateSnapshots.insert db.inner
  ({ db with stateSnapshots := stateSnapshots }, id)

/-- `revert_state` with the action `RevertRemove`. -/
def revertState (db : MemDb Inner) (id : U256) : MemDb Inner × Bool :=
  match db.stateSnapshots.remove id with
  | (some stateSnapshot, stateSnapshots) =>
    ({ inner := stateSnapshot, stateSnapshots := stateSnapshots }, true)
  | (none, stateSnapshots) => ({ db with stateSnapshots := stateSnapshots }, false)

end MemDb

/-- The parts of the node that the chain operations call. -/
structure Components (History Inner : Type) where
  /-- Hash of a header. -/
  hashSlow : Header → B256
  /-- Records the current state under a block hash. -/
  insertState : History → B256 → Inner → History
  /-- The full state recorded under a block hash, read from memory or disk. -/
  fullState : History → B256 → Option Inner × History
  removeBlockStates : History → List B256 → History
  /-- Clears the database and writes a recorded state and block hashes. -/
  restoreState : Inner → Inner → List (ℕ × B256) → Inner
  isStateHistorySupported : Bool
  transactionBlockKeeper : Option ℕ
  isEip3675 : Bool

structure Backend (History Inner : Type) where
  storage : BlockchainStorage
  activeStateSnapshots : HashMap U256 (ℕ × B256)
  db : MemDb Inner
  states : History

/-- What executing a batch of pool transactions yields: the header fields it
fixes, the hashes of the included transactions with what was recorded of each
and its receipt, and the new database contents. -/
structure ExecutedBlock (Inner : Type) where
  difficulty : U256
  rest : Bytes
  transactions : List B256
  outcome : B256 → Bytes × Bytes
  inner : Inner

namespace Backend

variable {History Inner : Type}

/-- The header that `do_mine_block` puts on top of the best block. -/
def nextHeader (backend : Backend History Inner) (executed : ExecutedBlock Inner) : Header :=
  { parentHash := backend.storage.bestHash
    number := u64SaturatingSucc backend.storage.bestNumber
    difficulty := executed.difficulty
    rest := executed.rest }

def doMineBlock (components : Components History Inner)
    (backend : Backend History Inner) (executed : ExecutedBlock Inner) :
    Backend History Inner :=
  let states :=
    if components.isStateHistorySupported then
      components.insertState backend.states backend.storage.bestHash backend.db.inner
    else backend.states
  let header := backend.nextHeader executed
  { backend with
    states := states
    db := { backend.db with inner := executed.inner }
    storage := backend.storage.insertBlock
      components.transactionBlockKeeper components.isEip3675
      (components.hashSlow header) header.number
      { header := header, transactions := executed.transactions } executed.outcome }

def createStateSnapshot (backend : Backend History Inner) : Backend History Inner × U256 :=
  let (db, id) := backend.db.snapshotState
  ({ backend with
     db := db
     activeStateSnapshots := backend.activeStateSnapshots.insert id
       (backend.storage.bestNumber, backend.storage.bestHash) }, id)

/-- `revert_state_snapshot`.  The block of the snapshot is looked up after the
storage was changed; when it is missing the database stays as it is. -/
def revertStateSnapshot (backend : Backend History Inner) (id : U256) :
    Backend History Inner × Except BlockchainError Bool :=
  let block := backend.activeStateSnapshots.lookup id
  let backend := { backend with activeStateSnapshots := backend.activeStateSnapshots.erase id }
  match block with
  | none =>
    let (db, reverted) := backend.db.revertState id
    ({ backend with db := db }, .ok reverted)
  | some (num, hash) =>
    let backend := { backend with storage := backend.storage.revertTo num hash }
    match backend.storage.blocks.lookup hash with
    | none => (backend, .error .blockNotFound)
    | some _ =>
      let (db, reverted) := backend.db.revertState id
      ({ backend with db := db }, .ok reverted)

def rollback (components : Components History Inner)
    (backend : Backend History Inner) (commonBlock : Block) :
    Backend History Inner × Except BlockchainError Unit :=
  let hash := components.hashSlow commonBlock.header
  match components.fullState backend.states hash with
  | (none, states) => ({ backend with states := states }, .error .dataUnavailable)
  | (some commonState, states) =>
    let (storage, removedBlocks) := backend.storage.unwindTo commonBlock.header.number hash
    let removedHashes := removedBlocks.map (fun block => components.hashSlow block.header)
    let blockHashes := storage.hashes.entries.filterMap fun entry =>
      if entry.1 ≥ commonBlock.header.number - 256 then
        some (entry.1, entry.2)
      else none
    ({ backend with
       storage := storage
       states := components.removeBlockStates states removedHashes
       db :=
        { backend.db with
          inner := components.restoreState backend.db.inner commonState blockHashes } }, .ok ())

end Backend

inductive Operation (Inner : Type) where
  | doMineBlock (executed : ExecutedBlock Inner)
  | createStateSnapshot
  | revertStateSnapshot (id : U256)
  | rollback (commonBlock : Block)

section

variable {History Inner : Type} (components : Components History Inner)

/-- The backend after an operation, whether it returned an error or not. -/
def step (backend : Backend History Inner) : Operation Inner → Backend History Inner
  | .doMineBlock executed => backend.doMineBlock components executed
  | .createStateSnapshot => backend.createStateSnapshot.1
  | .revertStateSnapshot id => (backend.revertStateSnapshot id).1
  | .rollback commonBlock => (backend.rollback components commonBlock).1

/-- A backend with a genesis block and no snapshots. -/
def Backend.new (header : Header) (states : History) (inner : Inner) : Backend History Inner :=
  { storage := BlockchainStorage.new components.hashSlow header
    activeStateSnapshots := ∅
    db := { inner := inner, stateSnapshots := .empty }
    states := states }

/-- The operations that the node can be asked for: a mined block has a new
hash and brings new transactions, and the chain is rolled back to a stored
block. -/
def Operation.Admissible (backend : Backend History Inner) : Operation Inner → Prop
  | .doMineBlock executed =>
    components.hashSlow (backend.nextHeader executed) ∉ backend.storage.blocks ∧
    executed.transactions.Nodup ∧
      ∀ hash ∈ executed.transactions, hash ∉ backend.storage.transactions
  | .createStateSnapshot => True
  | .revertStateSnapshot _ => True
  | .rollback commonBlock =>
    backend.storage.blocks.lookup (components.hashSlow commonBlock.header) = some commonBlock

instance (backend : Backend History Inner) :
    (operation : Operation Inner) → Decidable (operation.Admissible components backend)
  | .doMineBlock executed =>
    have := List.decidableBAll (fun hash => hash ∉ backend.storage.transactions)
      executed.transactions
    inferInstanceAs (Decidable (_ ∧ _ ∧ _))
  | .createStateSnapshot => .isTrue trivial
  | .revertStateSnapshot _ => .isTrue trivial
  | .rollback _ => inferInstanceAs (Decidable (_ = _))

end

end SwissledgerFoundry.Chain
