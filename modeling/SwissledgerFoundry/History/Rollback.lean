import SwissledgerFoundry.Chain.Backend
import SwissledgerFoundry.History.Held
import SwissledgerFoundry.History.Restore

/-!
# Rolling back to a recorded state

The node with its chain, its database and its recorded states.  Reading a state
from disk moves the code of its accounts into its contracts, which a rollback
does not copy.
-/

namespace SwissledgerFoundry.History

open Transition Chain

open Chain (Backend)

/-- The store of recorded states, with the results of the disk writes of the
coming calls. -/
structure StateHistory where
  blocks : InMemoryBlockStates CacheDb StateSnapshot
  writes : ℕ → Writes

/-- What the node is started with. -/
structure NodeConfig where
  keccak : Bytes → B256
  iteration : IterationOrder
  hashSlow : Header → B256
  isStateHistorySupported : Bool
  transactionBlockKeeper : Option ℕ
  isEip3675 : Bool

namespace NodeConfig

variable (config : NodeConfig)

def database : FullDatabase CacheDb StateSnapshot where
  clearIntoStateSnapshot db := db.clearIntoStateSnapshot config.iteration
  initFromStateSnapshot db := db.initFromStateSnapshot config.iteration

section

variable (history : StateHistory) (hash : B256)

/-- Records a state; a call that does not end has no result. -/
def insertState (state : CacheDb) : Option StateHistory :=
  (history.blocks.insert config.database (history.writes 0) hash state).map fun blocks =>
      { blocks := blocks, writes := fun call => history.writes (call + 1) }

/-- The state that `rollback` reads, from memory or from disk. -/
def fullState : Option CacheDb × StateHistory :=
  match history.blocks.getState hash with
  | some state => (some state, history)
  | none =>
    let (state, blocks) := history.blocks.getOnDiskState config.database hash
    (state, { history with blocks := blocks })

end

def components : Components StateHistory CacheDb where
  hashSlow := config.hashSlow
  insertState history hash state := (config.insertState history hash state).getD history
  fullState := config.fullState
  removeBlockStates history hashes :=
    { history with blocks := history.blocks.removeBlockStates hashes }
  restoreState := restoreState config.keccak config.iteration
  isStateHistorySupported := config.isStateHistorySupported
  transactionBlockKeeper := config.transactionBlockKeeper
  isEip3675 := config.isEip3675

end NodeConfig

/-- The node, and the state that was recorded last under each hash. -/
structure Node where
  backend : Backend StateHistory CacheDb
  recorded : HashMap B256 CacheDb

inductive NodeOperation where
  /-- Mines a block whose execution commits the given changes. -/
  | doMineBlock (executed : ExecutedBlock (List (Address × Account)))
  | createStateSnapshot
  | revertStateSnapshot (id : U256)
  | rollback (commonBlock : Block)
  | insertAccount (address : Address) (info : AccountInfo)
  | setStorageAt (address : Address) (slot value : U256)
  | loadStates (hash : B256) (snapshot : StateSnapshot)
  | resetToInMem (genesis : Header)

namespace Node

variable (config : NodeConfig)

/-- Starts the node with an empty database. -/
def new (genesis : Header) (inMemoryLimit onDiskLimit : ℕ)
    (writes : ℕ → Writes) (blockHash : U256 → B256) : Node where
  backend := Backend.new config.components genesis
    { blocks := .new inMemoryLimit onDiskLimit, writes := writes }
    (.new (.empty blockHash))
  recorded := ∅

variable (node : Node)

/-- A chain operation that records no state. -/
def chain (operation : Chain.Operation CacheDb) : Node :=
  { node with backend := Chain.step config.components node.backend operation }

/-- Writes to the live database. -/
def write (inner : CacheDb) : Node :=
  { node with backend := { node.backend with db := { node.backend.db with inner := inner } } }

/-- `do_mine_block`: the state of the best block is recorded first. -/
def doMineBlock (executed : ExecutedBlock (List (Address × Account))) : Node :=
  let inner := node.backend.db.inner
  let executed : ExecutedBlock CacheDb :=
    { executed with inner := inner.commit config.keccak executed.inner }
  let mined := node.chain config (.doMineBlock executed)
  if config.isStateHistorySupported then
    let bestHash := node.backend.storage.bestHash
    match config.insertState node.backend.states bestHash inner with
    | none => node
    | some _ => { mined with recorded := node.recorded.insert bestHash inner }
  else mined

def loadStates (hash : B256) (snapshot : StateSnapshot) : Node :=
  let empty := node.backend.db.inner.db
  let state := (CacheDb.new empty).initFromStateSnapshot config.iteration snapshot
  match config.insertState node.backend.states hash state with
  | none => node
  | some states =>
    { backend := { node.backend with states := states }
      recorded := node.recorded.insert hash state }

/-- `reset_to_in_mem`, up to applying the genesis accounts. -/
def resetToInMem (genesis : Header) : Node :=
  { node with
    backend :=
      { node.backend with
        storage := .new config.hashSlow genesis
        states := { node.backend.states with blocks := node.backend.states.blocks.clear }
        db := { node.backend.db with inner := node.backend.db.inner.clear config.iteration } } }

def step : NodeOperation → Node
  | .doMineBlock executed => node.doMineBlock config executed
  | .createStateSnapshot => node.chain config .createStateSnapshot
  | .revertStateSnapshot id => node.chain config (.revertStateSnapshot id)
  | .rollback commonBlock => node.chain config (.rollback commonBlock)
  | .insertAccount address info =>
    node.write (node.backend.db.inner.insertAccountInfo config.keccak address info)
  | .setStorageAt address slot value =>
    node.write (node.backend.db.inner.insertAccountStorage address slot value)
  | .loadStates hash snapshot => node.loadStates config hash snapshot
  | .resetToInMem genesis => node.resetToInMem config genesis

end Node

/-- Codes are written with their own hashes. -/
def NodeOperation.Fits (table : CodeTable) (keccak : Bytes → B256) : NodeOperation → Prop
  | .doMineBlock executed => ∀ change ∈ executed.inner, table.Fits keccak change.2.info
  | .insertAccount _ info => table.Fits keccak info
  | .loadStates _ snapshot =>
    ∀ entry ∈ snapshot.accounts.entries, ∀ code ∈ entry.2.code, table.code entry.2.codeHash = code
  | _ => True

instance (table : CodeTable) (keccak : Bytes → B256)
    (operation : NodeOperation) : Decidable (operation.Fits table keccak) := by
  unfold NodeOperation.Fits
  split <;> infer_instance

section

variable (table : CodeTable) (recorded : HashMap B256 CacheDb) (hash : B256) (state : CacheDb)

/-- A state in memory reads as the recorded one. -/
def Stands : Prop :=
  state.Coherent table ∧ ∃ db, recorded.lookup hash = some db ∧ state.Same db

/-- A cleared state and its file make up a state that reads as the recorded
one. -/
def StandsOnDisk (snapshot : StateSnapshot) : Prop :=
  ∃ original : CacheDb, Stands table recorded hash original ∧ original.Splits snapshot state

end

theorem carried_stands (config : NodeConfig) (table : CodeTable)
    (recorded : HashMap B256 CacheDb) (hash : B256) :
    Carried config.database (Stands table recorded hash) (StandsOnDisk table recorded hash) where
  clear {state} stands :=
    ⟨state, stands, CacheDb.clearIntoStateSnapshot_splits config.iteration state⟩
  read := by
    rintro state snapshot ⟨original, ⟨coherent, db, found, same⟩, splits⟩
    have restored := splits.restored config.iteration
    exact ⟨restored.coherent coherent, db, found, (restored.same coherent).trans same⟩
  again := by
    rintro state snapshot ⟨original, stands, splits⟩
    exact ⟨original, stands, splits.again config.iteration⟩

variable {hash : B256}

theorem stands_insert {other : B256} {table : CodeTable} {state : CacheDb}
    {recorded : HashMap B256 CacheDb} (different : other ≠ hash) :
    Stands table (recorded.insert hash state) other = Stands table recorded other ∧
      StandsOnDisk table (recorded.insert hash state) other =
        StandsOnDisk table recorded other := by
  have same : Stands table (recorded.insert hash state) other = Stands table recorded other := by
    unfold Stands
    rw [AList.lookup_insert_ne different]
  refine ⟨same, ?_⟩
  unfold StandsOnDisk
  rw [same]

namespace Node

/-- All databases of the node match codes and hashes, and the recorded states
can be read back. -/
structure Invariant (table : CodeTable) (node : Node) : Prop where
  live : node.backend.db.inner.Coherent table
  snapshots : ∀ {id state},
    node.backend.db.stateSnapshots.stateSnapshots.lookup id = some state → state.Coherent table
  holds : node.backend.states.blocks.Holds
    (Stands table node.recorded) (StandsOnDisk table node.recorded)

variable {config : NodeConfig} {table : CodeTable} {node : Node}

theorem invariant_new (genesis : Header) (inMemoryLimit onDiskLimit : ℕ) (writes : ℕ → Writes)
    (blockHash : U256 → B256) :
    (new config genesis inMemoryLimit onDiskLimit writes blockHash).Invariant table where
  live := CacheDb.coherent_new table blockHash
  snapshots found := by cases (AList.lookup_empty _).symm.trans found
  holds := InMemoryBlockStates.holds_clear (.new inMemoryLimit onDiskLimit)

theorem Invariant.write (invariant : node.Invariant table) {inner : CacheDb}
    (coherent : inner.Coherent table) :
    (node.write inner).Invariant table :=
  { invariant with live := coherent }

theorem Invariant.insertState (invariant : node.Invariant table)
    {state : CacheDb} {states : StateHistory} (coherent : state.Coherent table)
    (inserts : config.insertState node.backend.states hash state = some states) :
    states.blocks.Holds (Stands table (node.recorded.insert hash state))
      (StandsOnDisk table (node.recorded.insert hash state)) := by
  rw [NodeConfig.insertState, Option.map_eq_some_iff] at inserts
  obtain ⟨blocks, inserted, rfl⟩ := inserts
  refine invariant.holds.insert (carried_stands config table node.recorded)
    (stands_insert) ?_ inserted
  exact ⟨coherent, state, AList.lookup_insert _, .refl state⟩

theorem chain_doMineBlock_states (executed : ExecutedBlock CacheDb) :
    (node.chain config (.doMineBlock executed)).backend.states =
      if config.isStateHistorySupported then
        (config.insertState node.backend.states node.backend.storage.bestHash
          node.backend.db.inner).getD node.backend.states
      else node.backend.states :=
  rfl

theorem Invariant.doMineBlock (invariant : node.Invariant table)
    {executed : ExecutedBlock (List (Address × Account))}
    (fits : ∀ change ∈ executed.inner, table.Fits config.keccak change.2.info) :
    (node.doMineBlock config executed).Invariant table := by
  have committed := invariant.live.commit fits
  unfold Node.doMineBlock
  dsimp only
  split
  · rename_i supported
    split
    · exact invariant
    rename_i states inserts
    refine { live := committed, snapshots := invariant.snapshots, holds := ?_ }
    rw [chain_doMineBlock_states, if_pos supported, inserts]
    exact invariant.insertState invariant.live inserts
  rename_i unsupported
  refine { live := committed, snapshots := invariant.snapshots, holds := ?_ }
  rw [chain_doMineBlock_states, if_neg unsupported]
  exact invariant.holds

variable (config) in
theorem Invariant.fullState (invariant : node.Invariant table) (hash : B256) :
    (config.fullState node.backend.states hash).2.blocks.Holds
        (Stands table node.recorded) (StandsOnDisk table node.recorded) ∧
      ∀ state ∈ (config.fullState node.backend.states hash).1,
        Stands table node.recorded hash state := by
  unfold NodeConfig.fullState
  split
  · rename_i state found
    refine ⟨invariant.holds, ?_⟩
    intro other same
    cases same
    exact invariant.holds.memory found
  · rename_i missing
    exact invariant.holds.getOnDiskState (carried_stands config table node.recorded) missing

variable {commonBlock : Block}

/-- A rollback to a state that can be read succeeds and writes this state. -/
theorem rollback_of_some {state : CacheDb} (found : state ∈ (config.fullState node.backend.states
      (config.hashSlow commonBlock.header)).1) :
    ∃ blockHashes hashes, (node.backend.rollback config.components commonBlock).2 = .ok () ∧
      (node.backend.rollback config.components commonBlock).1.db =
        { node.backend.db with
          inner := restoreState config.keccak config.iteration
            node.backend.db.inner state blockHashes } ∧
      (node.backend.rollback config.components commonBlock).1.states =
        config.components.removeBlockStates
          (config.fullState node.backend.states (config.hashSlow commonBlock.header)).2 hashes := by
  rcases read : config.fullState node.backend.states
    (config.hashSlow commonBlock.header) with ⟨_ | common, states⟩
  · simp [read] at found
  rw [read] at found
  cases found
  have full : config.components.fullState node.backend.states
      (config.components.hashSlow commonBlock.header) = (some state, states) := read
  unfold Backend.rollback
  simp only [full]
  exact ⟨_, _, trivial, rfl, rfl⟩

theorem rollback_of_none (missing : (config.fullState node.backend.states
      (config.hashSlow commonBlock.header)).1 = none) :
    (node.backend.rollback config.components commonBlock).1 =
      { node.backend with
        states := (config.fullState node.backend.states
          (config.hashSlow commonBlock.header)).2 } := by
  rcases read : config.fullState node.backend.states
    (config.hashSlow commonBlock.header) with ⟨_ | common, states⟩
  · have full : config.components.fullState node.backend.states
        (config.components.hashSlow commonBlock.header) = (none, states) := read
    unfold Backend.rollback
    simp only [full]
  · simp [read] at missing

section

variable (invariant : node.Invariant table)

include invariant

theorem Invariant.rollback (commonBlock : Block) :
    (node.chain config (.rollback commonBlock)).Invariant table := by
  obtain ⟨holds, stands⟩ := invariant.fullState config (config.hashSlow commonBlock.header)
  unfold chain Chain.step
  cases found : (config.fullState node.backend.states (config.hashSlow commonBlock.header)).1 with
  | none =>
    dsimp only
    rw [rollback_of_none found]
    exact { invariant with holds := holds }
  | some state =>
    obtain ⟨blockHashes, hashes, _, database, history⟩ := rollback_of_some found
    refine { live := ?_, snapshots := ?_, holds := ?_ }
    · rw [database]
      exact restoreState_coherent config.keccak config.iteration
        invariant.live (stands state found).1 blockHashes
    · rw [database]
      exact invariant.snapshots
    · rw [history]
      exact holds.removeBlockStates hashes

theorem Invariant.revertState (id : U256) {storage : BlockchainStorage}
    {snapshots : HashMap U256 (ℕ × B256)} :
    { node with
      backend :=
        { node.backend with
          storage := storage
          activeStateSnapshots := snapshots
          db := (node.backend.db.revertState id).1 } }.Invariant table := by
  have kept : ∀ {other state}, (node.backend.db.stateSnapshots.remove
      id).2.stateSnapshots.lookup other = some state → state.Coherent table :=
    fun found => invariant.snapshots (StateSnapshots.remove_lookup id found)
  unfold MemDb.revertState
  split
  · rename_i state removed after
    rw [after] at kept
    exact
      { live := invariant.snapshots (congrArg Prod.fst after)
        snapshots := kept
        holds := invariant.holds }
  rename_i removed after
  rw [after] at kept
  exact { invariant with snapshots := kept }

theorem Invariant.revertStateSnapshot (id : U256) :
    (node.chain config (.revertStateSnapshot id)).Invariant table := by
  unfold chain Chain.step Backend.revertStateSnapshot
  dsimp only
  split
  · exact invariant.revertState id
  split
  · exact { invariant with }
  · exact invariant.revertState id

theorem Invariant.createStateSnapshot :
    (node.chain config .createStateSnapshot).Invariant table where
  live := invariant.live
  snapshots := by
    intro id state found
    change (node.backend.db.stateSnapshots.stateSnapshots.insert
      node.backend.db.stateSnapshots.id node.backend.db.inner).lookup id = some state at found
    rcases AList.lookup_of_insert found with ⟨_, rfl⟩ | ⟨_, found⟩
    · exact invariant.live
    · exact invariant.snapshots found
  holds := invariant.holds

theorem Invariant.loadStates {snapshot : StateSnapshot}
    (fits : ∀ entry ∈ snapshot.accounts.entries, ∀ code ∈ entry.2.code,
      table.code entry.2.codeHash = code) :
    (node.loadStates config hash snapshot).Invariant table := by
  obtain ⟨blockHash, remote⟩ := invariant.live.remote
  have empty := CacheDb.coherent_new table blockHash
  have filled := empty.initFromStateSnapshot config.iteration fits
  unfold Node.loadStates
  rw [remote]
  dsimp only
  split
  · exact invariant
  rename_i states inserts
  exact
    { live := invariant.live
      snapshots := invariant.snapshots
      holds := invariant.insertState filled inserts }

theorem Invariant.step {operation : NodeOperation} (fits : operation.Fits table config.keccak) :
    (node.step config operation).Invariant table := by
  cases operation with
  | doMineBlock executed => exact invariant.doMineBlock fits
  | createStateSnapshot => exact invariant.createStateSnapshot
  | revertStateSnapshot id => exact invariant.revertStateSnapshot id
  | rollback commonBlock => exact invariant.rollback commonBlock
  | insertAccount address info =>
    exact invariant.write (invariant.live.insertAccountInfo address fits)
  | setStorageAt address slot value =>
    exact invariant.write (invariant.live.insertAccountStorage address slot value)
  | loadStates hash snapshot => exact invariant.loadStates fits
  | resetToInMem genesis =>
    exact
      { live := invariant.live.clear config.iteration
        snapshots := invariant.snapshots
        holds := InMemoryBlockStates.holds_clear _ }

end

/-- In every run that writes codes with their own hashes, a rollback to a block
whose recorded state can be read succeeds, and then the live database reads as
it did when the state was recorded, if the accounts of the state as it is read
carry their code inline. -/
theorem run_rollback_restores (config : NodeConfig) (table : CodeTable)
    (genesis : Header) (inMemoryLimit onDiskLimit : ℕ)
    (writes : ℕ → Writes) (blockHash : U256 → B256)
    (operations : List NodeOperation)
    (along : Transition.Along (step config) (fun _ operation => operation.Fits table config.keccak)
      (new config genesis inMemoryLimit onDiskLimit writes blockHash)
      operations) :
    ∀ reached, reached <+: operations → ∀ (commonBlock : Block) (state : CacheDb),
        state ∈ (config.fullState (run (step config)
            (new config genesis inMemoryLimit onDiskLimit writes blockHash)
            reached).backend.states
          (config.hashSlow commonBlock.header)).1 →
        CarriesCode table state →
        ∃ db, (run (step config) (new config genesis inMemoryLimit onDiskLimit writes blockHash)
            reached).recorded.lookup (config.hashSlow commonBlock.header) = some db ∧
          ((run (step config) (new config genesis inMemoryLimit onDiskLimit writes blockHash)
            reached).backend.rollback config.components commonBlock).2 = .ok () ∧
          ((run (step config) (new config genesis inMemoryLimit onDiskLimit writes blockHash)
            reached).backend.rollback config.components commonBlock).1.db.inner.Same db := by
  intro reached isPrefix commonBlock state found carries
  have invariant : (run (step config)
      (new config genesis inMemoryLimit onDiskLimit writes blockHash)
      reached).Invariant table :=
    invariant_along (Node.Invariant table) (fun _ _ invariant fits => invariant.step fits)
      (invariant_new genesis inMemoryLimit onDiskLimit writes blockHash)
      along reached isPrefix
  generalize run (step config) (new config genesis inMemoryLimit onDiskLimit writes blockHash)
    reached = node at found invariant ⊢
  obtain ⟨_, stands⟩ := invariant.fullState config (config.hashSlow commonBlock.header)
  obtain ⟨coherent, db, recorded, same⟩ := stands state found
  obtain ⟨blockHashes, _, succeeds, database, _⟩ := rollback_of_some found
  refine ⟨db, recorded, succeeds, ?_⟩
  rw [database]
  exact (restoreState_same config.keccak config.iteration invariant.live
    coherent carries blockHashes).trans same

def numberedConfig : NodeConfig where
  keccak code := BitVec.ofNat 256 (beValue code + 2)
  iteration := .listed
  hashSlow header := BitVec.ofNat 256 (header.number + 1)
  isStateHistorySupported := true
  transactionBlockKeeper := none
  isEip3675 := false

def genesisHeader : Header where
  parentHash := 0
  number := 0
  difficulty := 0
  rest := []

def smallCode : CodeTable where
  code codeHash := if codeHash = 98 then [0x60] else []
  empty := by decide +kernel
  zero := by decide +kernel

def smallContract : AccountInfo where
  balance := 5
  nonce := 1
  codeHash := keccakEmpty
  code := some [0x60]

def emptyBlock : ExecutedBlock (List (Address × Account)) where
  difficulty := 0
  rest := []
  transactions := []
  outcome _ := ([], [])
  inner := []

/-- The state of the genesis block is still in memory. -/
theorem run_rollback_restores_in_memory : ∃ db, (run (step numberedConfig)
        (new numberedConfig genesisHeader 3 0 (fun _ _ => true) fun _ => 0)
        [.insertAccount 7 smallContract, .doMineBlock emptyBlock]).recorded.lookup 1 = some db ∧
      ((run (step numberedConfig)
        (new numberedConfig genesisHeader 3 0 (fun _ _ => true) fun _ => 0)
        [.insertAccount 7 smallContract,
          .doMineBlock emptyBlock]).backend.rollback numberedConfig.components
            { header := genesisHeader, transactions := [] }).2 = .ok () ∧
      ((run (step numberedConfig)
        (new numberedConfig genesisHeader 3 0 (fun _ _ => true) fun _ => 0)
        [.insertAccount 7 smallContract,
          .doMineBlock emptyBlock]).backend.rollback numberedConfig.components
            { header := genesisHeader,
              transactions := [] }).1.db.inner.Same db := by
  refine run_rollback_restores numberedConfig smallCode genesisHeader 3 0
    (fun _ _ => true) (fun _ => 0)
    [.insertAccount 7 smallContract, .doMineBlock emptyBlock] ?_ _
    List.prefix_rfl { header := genesisHeader, transactions := [] } _ rfl ?_
  · decide +kernel
  · decide +kernel

/-- With one state in memory, the second block evicts the state of the genesis
block to disk.  The rollback restores balance and nonce of the contract but
not its code. -/
theorem run_rollback_loses_code : ∃ node db, run (step numberedConfig)
        (new numberedConfig genesisHeader 1 9 (fun _ _ => true) fun _ => 0)
        [.insertAccount 7 smallContract, .doMineBlock emptyBlock, .doMineBlock emptyBlock] = node ∧
      node.recorded.lookup 1 = some db ∧
      1 ∈ node.backend.states.blocks.onDiskStates ∧
      (node.backend.rollback numberedConfig.components
        { header := genesisHeader, transactions := [] }).2 = .ok () ∧
      db.code 7 = [0x60] ∧
      (node.backend.rollback numberedConfig.components
        { header := genesisHeader, transactions := [] }).1.db.inner.balance 7 = 5 ∧
      (node.backend.rollback numberedConfig.components
        { header := genesisHeader,
          transactions := [] }).1.db.inner.code 7 = [] := by
  refine ⟨_, _, rfl, rfl, ?_, ?_, ?_, ?_, ?_⟩ <;> decide +kernel

end Node

end SwissledgerFoundry.History
