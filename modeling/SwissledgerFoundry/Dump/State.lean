import SwissledgerFoundry.Chain.Storage
import SwissledgerFoundry.Evm.CacheDb

/-!
# Dumping and loading the state of a node

A dump holds the accounts with their code and storage, the stored blocks and the
mined transactions.  The index of the block numbers and the best hash follow
from the blocks.
-/

namespace SwissledgerFoundry.Dump

open Chain (Header Block TransactionInfo MinedTransaction BlockchainStorage)

structure SerializableAccountRecord where
  nonce : UInt64
  balance : U256
  code : Bytes
  storage : HashMap U256 U256

/-- A transaction with or without the wrapper of an impersonated sender. -/
inductive SerializableTransactionType where
  | typedTransaction (hash : B256)
  | maybeImpersonatedTransaction (hash : B256)
deriving DecidableEq

def SerializableTransactionType.ofTransaction (hash : B256) : SerializableTransactionType :=
  .maybeImpersonatedTransaction hash

def SerializableTransactionType.toTransaction : SerializableTransactionType → B256
  | .typedTransaction hash => hash
  | .maybeImpersonatedTransaction hash => hash

structure SerializableBlock where
  header : Header
  transactions : List SerializableTransactionType
deriving DecidableEq

def SerializableBlock.ofBlock (block : Block) : SerializableBlock where
  header := block.header
  transactions := block.transactions.map .ofTransaction

def SerializableBlock.toBlock (block : SerializableBlock) : Block where
  header := block.header
  transactions := block.transactions.map SerializableTransactionType.toTransaction

structure SerializableTransaction where
  info : TransactionInfo
  receipt : Bytes
  blockHash : B256
  blockNumber : ℕ
deriving DecidableEq

def SerializableTransaction.ofMined (transaction : MinedTransaction) : SerializableTransaction where
  info := transaction.info
  receipt := transaction.receipt
  blockHash := transaction.blockHash
  blockNumber := transaction.blockNumber

def SerializableTransaction.toMined (transaction : SerializableTransaction) : MinedTransaction where
  info := transaction.info
  receipt := transaction.receipt
  blockHash := transaction.blockHash
  blockNumber := transaction.blockNumber

/-- The block environment; `rest` stands for the fields that loading does not
read. -/
structure BlockEnv where
  number : U256
  rest : Bytes
deriving DecidableEq

structure SerializableState (Historical : Type) where
  block : Option BlockEnv
  accounts : HashMap Address SerializableAccountRecord
  bestBlockNumber : Option ℕ
  blocks : List SerializableBlock
  transactions : List SerializableTransaction
  historicalStates : Option Historical

section

variable (iteration : IterationOrder) (db : CacheDb)

/-- The record of one account: its code is looked up if it is not inline. -/
def accountRecord
    (account : DbAccount) : SerializableAccountRecord where
  nonce := account.info.nonce
  balance := account.info.balance
  code := account.info.code.getD (db.codeByHash account.info.codeHash)
  storage := AList.extend ∅ (iteration.order account.storage)

def dumpAccounts : HashMap Address SerializableAccountRecord :=
  AList.extend ∅ ((iteration.order db.accounts).map fun entry =>
    ⟨entry.1, accountRecord iteration db entry.2⟩)

end

/-- What `load_state` inserts for a record.  The code hash is set when the
account is inserted. -/
def recordInfo (oldNonce : UInt64) (record : SerializableAccountRecord) : AccountInfo where
  balance := record.balance
  nonce := max oldNonce record.nonce
  codeHash := keccakEmpty
  code := if record.code.isEmpty then none else some record.code

section

variable (keccak : Bytes → B256) (iteration : IterationOrder) (db : CacheDb)

def loadAccount (entry : Σ _ : Address, SerializableAccountRecord) : CacheDb :=
  let oldNonce := ((db.basic entry.1).map AccountInfo.nonce).getD 0
  let db := db.insertAccountInfo keccak entry.1 (recordInfo oldNonce entry.2)
  (iteration.order entry.2.storage).foldl
    (fun db slot => db.insertAccountStorage entry.1 slot.1 slot.2) db

/-- `Db::load_state`. -/
def loadAccounts (accounts : HashMap Address SerializableAccountRecord) : CacheDb :=
  (iteration.order accounts).foldl (loadAccount keccak iteration) db

end

def emptyStorage : BlockchainStorage where
  blocks := ∅
  hashes := ∅
  bestHash := 0
  bestNumber := 0
  genesisHash := 0
  transactions := ∅
  totalDifficulty := 0

section

variable (iteration : IterationOrder) (storage : BlockchainStorage)

def serializedBlocks : List SerializableBlock :=
  (iteration.order storage.blocks).map fun entry => .ofBlock entry.2

def serializedTransactions : List SerializableTransaction :=
  (iteration.order storage.transactions).map fun entry => .ofMined entry.2

end

section

variable (hashSlow : Header → B256) (storage : BlockchainStorage)

def loadBlock (block : SerializableBlock) : BlockchainStorage :=
  let block := block.toBlock
  let blockHash := hashSlow block.header
  { storage with
    blocks := storage.blocks.insert blockHash block
    hashes := storage.hashes.insert block.header.number blockHash
    genesisHash := if block.header.number = 0 then blockHash else storage.genesisHash }

def loadBlocks (blocks : List SerializableBlock) : BlockchainStorage :=
  blocks.foldl (loadBlock hashSlow) storage

end

def loadTransaction (storage : BlockchainStorage)
    (transaction : SerializableTransaction) : BlockchainStorage :=
  { storage with
    transactions := storage.transactions.insert
      transaction.toMined.info.transactionHash transaction.toMined }

def loadTransactions (storage : BlockchainStorage)
    (transactions : List SerializableTransaction) : BlockchainStorage :=
  transactions.foldl loadTransaction storage

/-- The parts of the node that dumping and loading call. -/
structure Components (History Historical Fees : Type) where
  keccak : Bytes → B256
  hashSlow : Header → B256
  serializedStates : History → Historical
  loadStates : History → Historical → History
  /-- The fees of the block after the given one. -/
  nextFees : Fees → Header → Fees

structure Node (History Fees : Type) where
  storage : BlockchainStorage
  db : CacheDb
  blockEnv : BlockEnv
  fees : Fees
  states : History
  /-- Number and hash of the forked block. -/
  fork : Option (ℕ × B256)

inductive LoadError where
  | bestHashNotFound (number : ℕ)
deriving DecidableEq

/-- The block with the largest number, the last of several. -/
def latestBlock (blocks : List SerializableBlock) : Option SerializableBlock :=
  blocks.foldl (fun latest block =>
    match latest with
    | none => some block
    | some found =>
      if found.header.number ≤ block.header.number then some block
      else some found) none

namespace Node

variable {History Historical Fees : Type}

def serializedState (components : Components History Historical Fees)
    (iteration : IterationOrder) (preserveHistoricalStates : Bool)
    (node : Node History Fees) : SerializableState Historical where
  block := some node.blockEnv
  accounts := dumpAccounts iteration node.db
  bestBlockNumber := some node.storage.bestNumber
  blocks := serializedBlocks iteration node.storage
  transactions := serializedTransactions iteration node.storage
  historicalStates :=
    if preserveHistoricalStates then
      some (components.serializedStates node.states)
    else none

/-- The best block is looked up by its number.  The number is set before that
and stays when there is no hash for it. -/
def loadBestHash (bestNumber : ℕ) (storage : BlockchainStorage) :
    BlockchainStorage × Except LoadError Unit :=
  match storage.hashes.lookup bestNumber with
  | none => ({ storage with bestNumber := bestNumber },
      .error (.bestHashNotFound bestNumber))
  | some bestHash => ({ storage with bestNumber := bestNumber, bestHash := bestHash }, .ok ())

/-- The best block after loading: that of the fork, unless the state is
newer. -/
def loadBest (fork : Option (ℕ × B256)) (bestNumber : ℕ) (storage : BlockchainStorage) :
    BlockchainStorage × Except LoadError Unit :=
  match fork with
  | some (number, hash) =>
    if bestNumber > number then loadBestHash bestNumber storage
    else ({ storage with bestNumber := number, bestHash := hash }, .ok ())
  | none => loadBestHash bestNumber storage

def saturatingTo (number : U256) : ℕ := min number.toNat u64Max

section

variable (components : Components History Historical Fees)
  (iteration : IterationOrder)
  (node : Node History Fees)
  (state : SerializableState Historical)

/-- What `load_state` does after the best block is set. -/
def loadRest : Node History Fees :=
  { node with
    fees := (latestBlock state.blocks).elim node.fees
      fun latest => components.nextFees node.fees latest.header
    db := loadAccounts components.keccak iteration node.db state.accounts
    states := state.historicalStates.elim node.states (components.loadStates node.states) }

def loadState : Node History Fees × Except LoadError Bool :=
  let storage := loadTransactions (loadBlocks components.hashSlow node.storage state.blocks)
    state.transactions
  match state.block with
  | none => (loadRest components iteration { node with storage := storage } state, .ok true)
  | some block =>
    let best := state.bestBlockNumber.getD (saturatingTo block.number)
    match loadBest node.fork best storage with
    | (storage, .error error) => ({ node with storage := storage, blockEnv := block }, .error error)
    | (storage, .ok ()) =>
      (loadRest components iteration { node with storage := storage, blockEnv := block } state,
        .ok true)

end

/-- A node with nothing in it. -/
def empty (blockHash : U256 → B256) (blockEnv : BlockEnv) (fees : Fees)
    (states : History) : Node History Fees where
  storage := emptyStorage
  db := CacheDb.new (.empty blockHash)
  blockEnv := blockEnv
  fees := fees
  states := states
  fork := none

end Node

end SwissledgerFoundry.Dump
