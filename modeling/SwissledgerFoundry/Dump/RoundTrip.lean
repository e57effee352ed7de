import SwissledgerFoundry.Chain.Invariant
import SwissledgerFoundry.Dump.Accounts

/-!
# The dump of a node can be loaded again

The index from numbers to hashes is rebuilt while the blocks are loaded, so that
the last block wins when two have the same number.
-/

namespace SwissledgerFoundry.Dump

open List AList Node

open Chain (Header Block MinedTransaction BlockchainStorage)

section Blocks

variable (hashSlow : Header → B256) (storage : BlockchainStorage)

@[simp] theorem toBlock_ofBlock {block : Chain.Block} :
    (SerializableBlock.ofBlock block).toBlock = block := by
  have kept : SerializableTransactionType.toTransaction ∘
      SerializableTransactionType.ofTransaction = id := rfl
  rw [SerializableBlock.ofBlock, SerializableBlock.toBlock, map_map, kept, map_id]

@[simp] theorem toMined_ofMined {transaction : Chain.MinedTransaction} :
    (SerializableTransaction.ofMined transaction).toMined = transaction :=
  rfl

variable (blocks : List SerializableBlock)

theorem loadBlocks_blocks : (loadBlocks hashSlow storage blocks).blocks =
      storage.blocks.extend (blocks.map fun block =>
        ⟨hashSlow block.toBlock.header, block.toBlock⟩) := by
  rw [extend, foldl_map]
  exact (foldl_hom BlockchainStorage.blocks fun _ _ => rfl).symm

theorem loadBlocks_hashes : (loadBlocks hashSlow storage blocks).hashes =
      storage.hashes.extend (blocks.map fun block =>
        ⟨block.toBlock.header.number, hashSlow block.toBlock.header⟩) := by
  induction blocks generalizing storage with
  | nil => rfl
  | cons block blocks ih => exact ih _

theorem loadBlocks_transactions : (loadBlocks hashSlow storage blocks).transactions =
      storage.transactions := by
  induction blocks generalizing storage with
  | nil => rfl
  | cons block blocks ih => exact ih _

theorem mem_loadBlocks_hashes {number : ℕ} : number ∈ (loadBlocks hashSlow storage blocks).hashes ↔
      number ∈ storage.hashes ∨ ∃ block ∈ blocks, block.header.number = number := by
  induction blocks generalizing storage with
  | nil => exact ⟨.inl, fun stored => stored.resolve_right (by simp)⟩
  | cons block blocks ih =>
    refine (ih (loadBlock hashSlow storage block)).trans ?_
    rw [loadBlock, mem_insert, exists_mem_cons_iff, ← or_assoc, or_comm (a := number = _), eq_comm]
    rfl

theorem loadTransactions_eq (transactions : List SerializableTransaction) :
    loadTransactions storage transactions =
      { storage with
        transactions := storage.transactions.extend
          (transactions.map fun transaction =>
            ⟨transaction.toMined.info.transactionHash, transaction.toMined⟩) } := by
  induction transactions generalizing storage with
  | nil => rfl
  | cons transaction transactions ih => exact ih _

end Blocks

/-- The tables agree with what they hold: blocks and transactions are stored
under their own hashes, and numbers lead to blocks with that number. -/
structure Keyed (hashSlow : Header → B256) (storage : BlockchainStorage) : Prop where
  hashed : ∀ {hash block}, storage.blocks.lookup hash = some block → hashSlow block.header = hash
  indexed : ∀ {number hash}, storage.hashes.lookup number = some hash →
    ∃ block, storage.blocks.lookup hash = some block ∧ block.header.number = number
  keyed : ∀ {hash transaction},
    storage.transactions.lookup hash = some transaction → transaction.info.transactionHash = hash

/-- The best block is the one its number leads to, too. -/
structure Indexed (hashSlow : Header → B256) (storage : BlockchainStorage) :
    Prop extends Keyed hashSlow storage where
  best : storage.hashes.lookup storage.bestNumber = some storage.bestHash

/-- Every stored block is the one its number leads to. -/
def Unambiguous (storage : BlockchainStorage) : Prop :=
  ∀ {hash block}, storage.blocks.lookup hash = some block →
    storage.hashes.lookup block.header.number = some hash

theorem Indexed.of_storeInvariant {hashSlow : Chain.Header → B256} {genesis : ℕ}
    {storage : BlockchainStorage}
    (invariant : Chain.StoreInvariant hashSlow genesis storage)
    (keyed : ∀ {hash transaction},
      storage.transactions.lookup hash = some transaction →
        transaction.info.transactionHash = hash) :
    Indexed hashSlow storage ∧ Unambiguous storage :=
  ⟨{ hashed := invariant.hashed
     indexed := invariant.indexed
     best := invariant.best
     keyed := keyed }, invariant.stored⟩

section Storage

variable {hashSlow : Header → B256} {storage : BlockchainStorage}
  (iteration : IterationOrder)

theorem Indexed.map_serializedBlocks (indexed : Indexed hashSlow storage) :
    ((serializedBlocks iteration storage).map fun block =>
      (⟨hashSlow block.toBlock.header, block.toBlock⟩ : Σ _ : B256, Block)) =
      iteration.order storage.blocks := by
  rw [serializedBlocks, map_map]
  refine (map_congr_left ?_).trans (map_id _)
  intro entry member
  simp [Function.comp_apply, toBlock_ofBlock, indexed.hashed (iteration.mem_order.mp member)]

theorem Indexed.map_serializedTransactions (indexed : Indexed hashSlow storage) :
    ((serializedTransactions iteration storage).map fun transaction =>
      (⟨transaction.toMined.info.transactionHash, transaction.toMined⟩ :
        Σ _ : B256, MinedTransaction)) =
      iteration.order storage.transactions := by
  rw [serializedTransactions, map_map]
  refine (map_congr_left ?_).trans (map_id _)
  intro entry member
  simp [Function.comp_apply, toMined_ofMined, indexed.keyed (iteration.mem_order.mp member)]

def numbered (hashSlow : Header → B256) (iteration : IterationOrder)
    (storage : BlockchainStorage) : List (Σ _ : ℕ, B256) :=
  (serializedBlocks iteration storage).map fun block =>
    ⟨block.toBlock.header.number, hashSlow block.toBlock.header⟩

theorem mem_numbered {number : ℕ} {hash : B256} :
    (⟨number, hash⟩ : Σ _ : ℕ, B256) ∈ numbered hashSlow iteration storage ↔
      ∃ key block, storage.blocks.lookup key = some block ∧
        block.header.number = number ∧ hashSlow block.header = hash := by
  rw [numbered, serializedBlocks, map_map, mem_map]
  constructor
  · rintro ⟨entry, member, same⟩
    cases same
    exact ⟨entry.1, entry.2, iteration.mem_order.mp member, rfl, rfl⟩
  rintro ⟨key, block, found, rfl, rfl⟩
  refine ⟨⟨key, block⟩, iteration.mem_order.mpr found, ?_⟩
  rw [Function.comp_apply, toBlock_ofBlock]

theorem nodupKeys_numbered (unambiguous : Unambiguous storage) :
    (numbered hashSlow iteration storage).NodupKeys := by
  rw [numbered, serializedBlocks, map_map, List.NodupKeys, List.keys, map_map]
  refine Nodup.map_on ?_ (iteration.nodupKeys storage.blocks).nodup
  intro left leftMember right rightMember sameNumber
  simp only [Function.comp_apply, toBlock_ofBlock] at sameNumber
  have leftFound := iteration.mem_order.mp leftMember
  have rightFound := iteration.mem_order.mp rightMember
  have leftIndexed := unambiguous leftFound
  rw [sameNumber, unambiguous rightFound] at leftIndexed
  have sameHash : right.1 = left.1 := Option.some.inj leftIndexed
  rw [sameHash, leftFound] at rightFound
  exact Sigma.ext sameHash.symm (heq_of_eq (Option.some.inj rightFound))

/-- The rebuilt index is the one the blocks were stored with. -/
theorem Indexed.lookup_numbered (indexed : Indexed hashSlow storage)
    (unambiguous : Unambiguous storage) (number : ℕ) :
    (numbered hashSlow iteration storage).dlookup number = storage.hashes.lookup number := by
  apply Option.ext
  intro hash
  rw [← Option.mem_def, mem_dlookup_iff (nodupKeys_numbered iteration unambiguous), mem_numbered]
  constructor
  · rintro ⟨key, block, found, rfl, rfl⟩
    rw [indexed.hashed found]
    exact unambiguous found
  intro leads
  obtain ⟨block, found, number⟩ := indexed.indexed leads
  exact ⟨hash, block, found, number, indexed.hashed found⟩

/-- The storage that is filled from a dump. -/
def reloaded (hashSlow : Header → B256) (iteration : IterationOrder)
    (storage : BlockchainStorage) : BlockchainStorage :=
  loadTransactions (loadBlocks hashSlow emptyStorage (serializedBlocks iteration storage))
    (serializedTransactions iteration storage)

section

variable (indexed : Indexed hashSlow storage)

include indexed

theorem Indexed.reloaded_blocks (hash : B256) :
    (reloaded hashSlow iteration storage).blocks.lookup hash = storage.blocks.lookup hash := by
  rw [reloaded, loadTransactions_eq, loadBlocks_blocks,
    indexed.map_serializedBlocks, lookup_extend_order]
  exact Option.or_none

theorem Indexed.reloaded_hashes (unambiguous : Unambiguous storage) (number : ℕ) :
    (reloaded hashSlow iteration storage).hashes.lookup number = storage.hashes.lookup number := by
  rw [reloaded, loadTransactions_eq, loadBlocks_hashes, ← numbered,
    lookup_extend (nodupKeys_numbered iteration unambiguous)]
  exact (congrArg (·.or none)
    (indexed.lookup_numbered iteration unambiguous number)).trans Option.or_none

theorem Indexed.reloaded_transactions (hash : B256) :
    (reloaded hashSlow iteration storage).transactions.lookup hash =
      storage.transactions.lookup hash := by
  rw [reloaded, loadTransactions_eq, loadBlocks_transactions,
    indexed.map_serializedTransactions, lookup_extend_order]
  exact Option.or_none

end

end Storage

/-- Two dumps with the same contents; tables are written in any order.  Of the
historical states, only whether there are any. -/
structure SerializableState.Same {Historical : Type}
    (left right : SerializableState Historical) : Prop where
  block : left.block = right.block
  accounts : ∀ address, Option.Rel SerializableAccountRecord.Same
    (left.accounts.lookup address) (right.accounts.lookup address)
  bestBlockNumber : left.bestBlockNumber = right.bestBlockNumber
  blocks : left.blocks.Perm right.blocks
  transactions : left.transactions.Perm right.transactions
  historicalStates : left.historicalStates.isSome = right.historicalStates.isSome

/-- Two storages that no lookup tells apart. -/
structure SameStorage (left right : BlockchainStorage) : Prop where
  blocks : ∀ hash, left.blocks.lookup hash = right.blocks.lookup hash
  hashes : ∀ number, left.hashes.lookup number = right.hashes.lookup number
  bestNumber : left.bestNumber = right.bestNumber
  bestHash : left.bestHash = right.bestHash
  transactions : ∀ hash, left.transactions.lookup hash = right.transactions.lookup hash

theorem SameStorage.serializedBlocks {left right : Chain.BlockchainStorage}
    (same : SameStorage left right)
    (first second : IterationOrder) :
    (serializedBlocks first left).Perm (serializedBlocks second right) :=
  (first.order_perm second same.blocks).map _

theorem SameStorage.serializedTransactions {left right : Chain.BlockchainStorage}
    (same : SameStorage left right)
    (first second : IterationOrder) :
    (serializedTransactions first left).Perm (serializedTransactions second right) :=
  (first.order_perm second same.transactions).map _

section Node

variable {History Historical Fees : Type}
  (components : Components History Historical Fees)
  (dumping loading : IterationOrder) (preserveHistoricalStates : Bool)
  (node : Node History Fees)
  (blockHash : U256 → B256) (blockEnv : BlockEnv) (fees : Fees)
  (states : History)

section

variable (indexed : Indexed components.hashSlow node.storage)
  (unambiguous : Unambiguous node.storage)

include indexed unambiguous

/-- The storage of the loaded node: the reloaded tables, with the best block
taken from the index. -/
theorem loadBest_reloaded :
    loadBest none node.storage.bestNumber (reloaded components.hashSlow dumping node.storage) =
      ({ reloaded components.hashSlow dumping node.storage with
        bestNumber := node.storage.bestNumber
        bestHash := node.storage.bestHash }, .ok ()) := by
  rw [loadBest, loadBestHash, indexed.reloaded_hashes dumping unambiguous, indexed.best]

theorem loadState_serializedState :
    loadState components loading (empty blockHash blockEnv fees states)
        (node.serializedState components dumping preserveHistoricalStates) =
      (loadRest components loading
        { empty blockHash blockEnv fees states with
          storage := { reloaded components.hashSlow dumping node.storage with
            bestNumber := node.storage.bestNumber
            bestHash := node.storage.bestHash }
          blockEnv := node.blockEnv }
        (node.serializedState components dumping preserveHistoricalStates),
        .ok true) := by
  unfold loadState
  simp only [serializedState, Option.getD_some, empty]
  rw [← reloaded, loadBest_reloaded components dumping node indexed unambiguous]

theorem reloaded_same : SameStorage
      { reloaded components.hashSlow dumping node.storage with
        bestNumber := node.storage.bestNumber
        bestHash := node.storage.bestHash }
      node.storage where
  blocks := indexed.reloaded_blocks dumping
  hashes := indexed.reloaded_hashes dumping unambiguous
  bestNumber := rfl
  bestHash := rfl
  transactions := indexed.reloaded_transactions dumping

end

/-- Loading the dump of a node into an empty one reproduces its accounts, its
blocks and its transactions, and the same dump again. -/
def Reproduces : Prop :=
  let dump := node.serializedState components dumping preserveHistoricalStates
  ∃ loaded, loadState components loading (empty blockHash blockEnv fees states) dump =
      (loaded, .ok true) ∧
    loaded.db.Same node.db ∧
    SameStorage loaded.storage node.storage ∧
    ∀ dumpingAgain, (loaded.serializedState components dumpingAgain
      preserveHistoricalStates).Same dump

theorem Indexed.reproduces (inMemory : node.db.InMemory)
    (indexed : Indexed components.hashSlow node.storage)
    (unambiguous : Unambiguous node.storage) :
    Reproduces components dumping loading preserveHistoricalStates node blockHash blockEnv fees
      states := by
  have tables := reloaded_same components dumping node indexed unambiguous
  refine ⟨_, loadState_serializedState components dumping loading
    preserveHistoricalStates node blockHash blockEnv fees states indexed
    unambiguous, ?_, tables, ?_⟩
  · exact loadAccounts_same components.keccak dumping loading node.db blockHash inMemory
  intro dumpingAgain
  refine
    { block := rfl
      accounts := dumpAccounts_loadAccounts components.keccak dumping
        loading node.db blockHash dumpingAgain
      bestBlockNumber := rfl
      blocks := tables.serializedBlocks dumpingAgain dumping
      transactions := tables.serializedTransactions dumpingAgain dumping
      historicalStates := ?_ }
  cases preserveHistoricalStates <;> rfl

/-- Whatever the best block is, the index is the rebuilt one. -/
theorem loadState_hashes :
    (loadState components loading (empty blockHash blockEnv fees states)
        (node.serializedState components dumping preserveHistoricalStates)).1.storage.hashes =
      (reloaded components.hashSlow dumping node.storage).hashes := by
  unfold loadState
  simp only [serializedState, Option.getD_some, empty]
  rw [← reloaded, loadBest, loadBestHash]
  split <;> rename_i found <;> split at found <;> cases found <;> rfl

theorem numbered_reversed (hashSlow : Header → B256) (iteration : IterationOrder)
    (storage : BlockchainStorage) :
    numbered hashSlow iteration.reversed storage =
      (numbered hashSlow iteration storage).reverse := by
  simp [numbered, serializedBlocks, IterationOrder.reversed]

/-- The last block of a number is the first one in the reversed order, so that
both orders give the index only if there is one block for each number. -/
theorem Indexed.unambiguous (indexed : Indexed components.hashSlow node.storage)
    (reproduces : ∀ dumping, Reproduces components dumping loading preserveHistoricalStates node
      blockHash blockEnv fees states) : Unambiguous node.storage := by
  have index : ∀ dumping number,
      (numbered components.hashSlow dumping node.storage).reverse.dlookup number =
        node.storage.hashes.lookup number := by
    intro dumping number
    obtain ⟨loaded, loads, -, same, -⟩ := reproduces dumping
    have hashes := loadState_hashes components dumping loading preserveHistoricalStates node
      blockHash blockEnv fees states
    rw [loads, reloaded, loadTransactions_eq, loadBlocks_hashes, ← numbered] at hashes
    rw [← same.hashes, hashes, lookup_extend_reverse]
    exact Option.or_none.symm
  have nodup : ((numbered components.hashSlow .listed node.storage).map Sigma.snd).Nodup := by
    have keys := indexed.map_serializedBlocks .listed
    have hashes : (numbered components.hashSlow .listed node.storage).map Sigma.snd =
        (IterationOrder.listed.order node.storage.blocks).keys := by
      rw [← keys, numbered, List.keys, map_map, map_map]
      rfl
    rw [hashes]
    exact IterationOrder.listed.nodupKeys node.storage.blocks
  intro hash block stored
  have member : (⟨block.header.number, hash⟩ : Σ _ : ℕ, B256) ∈
      numbered components.hashSlow .listed node.storage :=
    (mem_numbered .listed).mpr ⟨hash, block, stored, rfl, indexed.hashed stored⟩
  have last := index .listed block.header.number
  have first := index IterationOrder.listed.reversed block.header.number
  rw [numbered_reversed, reverse_reverse] at first
  rw [← first]
  exact dlookup_of_reverse nodup (first.trans last.symm) member

end Node

section Failing

variable {History Historical Fees : Type}

/-- What no reader of the node tells apart from before. -/
structure Unchanged (before after : Node History Fees) : Prop where
  storage : SameStorage after.storage before.storage
  blockEnv : after.blockEnv = before.blockEnv
  db : after.db = before.db
  fees : after.fees = before.fees
  states : after.states = before.states

theorem unchanged_iff (node : Node History Fees) (storage : BlockchainStorage) (block : BlockEnv) :
    Unchanged node { node with storage := storage, blockEnv := block } ↔
      SameStorage storage node.storage ∧ node.blockEnv = block :=
  ⟨fun unchanged => ⟨unchanged.storage, unchanged.blockEnv.symm⟩,
    fun ⟨storage, blockEnv⟩ => ⟨storage, blockEnv.symm, rfl, rfl, rfl⟩⟩

/-- The best number of the dump leads to a block, or is not used; or the dump
only repeats what the node has. -/
def Harmless (hashSlow : Header → B256) (node : Node History Fees)
    (state : SerializableState Historical) (block : BlockEnv) : Prop :=
  let best := state.bestBlockNumber.getD (saturatingTo block.number)
  (∃ number hash, node.fork = some (number, hash) ∧ best ≤ number) ∨ best ∈ node.storage.hashes ∨
    (∃ loaded ∈ state.blocks, loaded.header.number = best) ∨
    node.storage.blocks.Repeats
        (state.blocks.map fun block => ⟨hashSlow block.toBlock.header, block.toBlock⟩) ∧
      node.storage.hashes.Repeats
        (state.blocks.map fun block =>
          ⟨block.toBlock.header.number, hashSlow block.toBlock.header⟩) ∧
      node.storage.transactions.Repeats
        (state.transactions.map fun transaction =>
          ⟨transaction.toMined.info.transactionHash, transaction.toMined⟩) ∧
      node.blockEnv = block ∧ node.storage.bestNumber = best

theorem loadBest_cases (fork : Option (ℕ × B256)) (best : ℕ) (storage : BlockchainStorage) :
    ((∃ number hash, fork = some (number, hash) ∧ best ≤ number) ∨ best ∈ storage.hashes) ∧
        (∃ after, loadBest fork best storage = (after, .ok ())) ∨
      ¬ ((∃ number hash, fork = some (number, hash) ∧ best ≤ number) ∨ best ∈ storage.hashes) ∧
        loadBest fork best storage =
          ({ storage with bestNumber := best }, .error (.bestHashNotFound best)) := by
  have byNumber : best ∈ storage.hashes ∧ (∃ after, loadBestHash best storage = (after, .ok ())) ∨
      best ∉ storage.hashes ∧ loadBestHash best storage =
        ({ storage with bestNumber := best }, .error (.bestHashNotFound best)) := by
    unfold loadBestHash
    cases found : storage.hashes.lookup best with
    | none => exact .inr ⟨lookup_eq_none.mp found, rfl⟩
    | some hash => exact .inl ⟨lookup_isSome.mp (by rw [found]; rfl), _, rfl⟩
  unfold loadBest
  cases fork with
  | none => simpa using byNumber
  | some fork =>
    obtain ⟨number, hash⟩ := fork
    by_cases newer : best > number
    · simpa [newer, newer.not_ge] using byNumber
    · exact .inl ⟨.inl ⟨number, hash, rfl, by omega⟩, by simp [newer]⟩

/-- The tables after the blocks and the transactions are loaded, with another
best number. -/
theorem sameStorage_loaded_iff (hashSlow : Header → B256) (storage : BlockchainStorage)
    (blocks : List SerializableBlock) (transactions : List SerializableTransaction) (best : ℕ) :
    SameStorage { loadTransactions (loadBlocks hashSlow storage blocks) transactions with
        bestNumber := best } storage ↔
      storage.blocks.Repeats
          (blocks.map fun block => ⟨hashSlow block.toBlock.header, block.toBlock⟩) ∧
        storage.hashes.Repeats
          (blocks.map fun block =>
            ⟨block.toBlock.header.number, hashSlow block.toBlock.header⟩) ∧
        storage.transactions.Repeats
          (transactions.map fun transaction =>
            ⟨transaction.toMined.info.transactionHash, transaction.toMined⟩) ∧
        storage.bestNumber = best := by
  have bestHash : (loadBlocks hashSlow storage blocks).bestHash = storage.bestHash := by
    induction blocks generalizing storage with
    | nil => rfl
    | cons block blocks ih => exact ih _
  rw [← extend_same_iff, ← extend_same_iff, ← extend_same_iff, loadTransactions_eq,
    ← loadBlocks_blocks, ← loadBlocks_hashes]
  constructor
  · intro same
    refine ⟨same.blocks, same.hashes, ?_, same.bestNumber.symm⟩
    simpa [loadBlocks_transactions] using same.transactions
  · rintro ⟨sameBlocks, sameHashes, sameTransactions, sameBest⟩
    refine ⟨sameBlocks, sameHashes, sameBest.symm, bestHash, ?_⟩
    simpa [loadBlocks_transactions] using sameTransactions

/-- A dump that cannot be loaded changes nothing, if and only if it is
harmless. -/
theorem loadState_error_unchanged_iff (components : Components History Historical Fees)
    (iteration : IterationOrder) (node : Node History Fees)
    (state : SerializableState Historical) :
    (∀ error, (node.loadState components iteration state).2 = .error error →
        Unchanged node (node.loadState components iteration state).1) ↔
      ∀ block ∈ state.block, Harmless components.hashSlow node state block := by
  unfold loadState
  cases hasBlock : state.block with
  | none => simp
  | some block =>
    simp only [Option.mem_def, Option.some.injEq, forall_eq', Harmless]
    set best := state.bestBlockNumber.getD (saturatingTo block.number)
    have cases := loadBest_cases node.fork best (loadTransactions
      (loadBlocks components.hashSlow node.storage state.blocks) state.transactions)
    rw [loadTransactions_eq, mem_loadBlocks_hashes, ← loadTransactions_eq] at cases
    obtain ⟨leads, after, loaded⟩ | ⟨missing, loaded⟩ := cases
    · rw [loaded]
      exact iff_of_true nofun (leads.imp_right (Or.imp_right .inl))
    rw [loaded]
    simp only [Except.error.injEq, forall_eq', unchanged_iff, sameStorage_loaded_iff]
    rw [not_or, not_or] at missing
    simp only [missing, false_or]
    tauto

end Failing

/-- Components whose header hash is read off the fields that storage does not
look at. -/
def plainComponents : Components Unit Unit Unit where
  keccak code := BitVec.ofNat 256 (beValue code)
  hashSlow header := BitVec.ofNat 256 (beValue header.rest)
  serializedStates states := states
  loadStates _ states := states
  nextFees fees _ := fees

/-- The genesis header of a node that is started at the given time. -/
def genesisHeader (time : UInt8) : Header where
  parentHash := 0
  number := 0
  difficulty := 0
  rest := [time]

def emptyNode : Node Unit Unit := empty (fun _ => 0) { number := 0, rest := [] } () ()

def startedNode (time : UInt8) : Node Unit Unit :=
  { emptyNode with storage := BlockchainStorage.new plainComponents.hashSlow (genesisHeader time) }

theorem indexed_startedNode {time : UInt8} :
    Indexed plainComponents.hashSlow (startedNode time).storage ∧
      Unambiguous (startedNode time).storage := by
  refine Indexed.of_storeInvariant (Chain.new_invariant) ?_
  intro hash transaction found
  cases (lookup_empty hash).symm.trans found

def contractDb : CacheDb :=
  ((CacheDb.new (.empty fun _ => 0)).insertAccountInfo plainComponents.keccak
    7 { balance := 3, nonce := 1, codeHash := keccakEmpty, code := some [0x60]
        }).insertAccountStorage 7 2 5

/-- A started node into which the accounts of another were loaded. -/
def contractNode : Node Unit Unit :=
  { startedNode 1 with
    db := loadAccounts plainComponents.keccak .listed
      (CacheDb.new (.empty fun _ => 0)) (dumpAccounts .listed contractDb) }

/-- The node that was started at time 2 and loaded the dump of the one that
was started at time 1. -/
def mergedNode : Node Unit Unit :=
  ((startedNode 2).loadState plainComponents .listed
    ((startedNode 1).serializedState plainComponents .listed false)).1

def bareDump (bestNumber : ℕ) : SerializableState Unit where
  block := some emptyNode.blockEnv
  accounts := ∅
  bestBlockNumber := some bestNumber
  blocks := []
  transactions := []
  historicalStates := none

/-- The best number is not that of a block, but it stays. -/
theorem loadState_error_changes :
    let loaded := (startedNode 1).loadState plainComponents .listed (bareDump 5)
    loaded.2 = .error (.bestHashNotFound 5) ∧
      (startedNode 1).storage.bestNumber = 0 ∧ loaded.1.storage.bestNumber = 5 := by
  decide +kernel

end SwissledgerFoundry.Dump
