import SwissledgerFoundry.Collections.HashMap
import SwissledgerFoundry.Primitives

/-!
# Blockchain storage of the in-memory node

Blocks by hash, an index from block numbers to hashes and a table of the mined
transactions.  Block numbers are unsigned 64-bit counters.
-/

namespace SwissledgerFoundry.Chain

def u64Succ (number : ℕ) : ℕ := (number + 1) % 2 ^ 64

def u64SaturatingSucc (number : ℕ) : ℕ := min (number + 1) u64Max

/-- The inclusive range `start..=finish`. -/
def rangeInclusive (start finish : ℕ) : List ℕ := List.range' start (finish + 1 - start)

variable {number : ℕ}

theorem mem_rangeInclusive {start finish : ℕ} :
    number ∈ rangeInclusive start finish ↔ start ≤ number ∧ number ≤ finish := by
  rw [rangeInclusive, List.mem_range'_1]
  omega

theorem u64Succ_of_lt (below : number < u64Max) : u64Succ number = number + 1 := by
  unfold u64Succ u64Max at *
  omega

theorem u64SaturatingSucc_of_lt (below : number < u64Max) :
    u64SaturatingSucc number = number + 1 := by
  unfold u64SaturatingSucc
  omega

/-- A block header.  `rest` stands for the header fields that chain storage
never reads; the header hash covers them too. -/
structure Header where
  parentHash : B256
  number : ℕ
  difficulty : U256
  rest : Bytes
deriving DecidableEq, Repr

/-- A stored block with the hashes of the transactions of its body. -/
structure Block where
  header : Header
  transactions : List B256
deriving DecidableEq, Repr

/-- What was recorded of an execution; `rest` stands for the fields that chain
storage never reads. -/
structure TransactionInfo where
  transactionHash : B256
  rest : Bytes
deriving DecidableEq, Repr

structure MinedTransaction where
  info : TransactionInfo
  receipt : Bytes
  blockHash : B256
  blockNumber : ℕ
deriving DecidableEq, Repr

structure BlockchainStorage where
  blocks : HashMap B256 Block
  hashes : HashMap ℕ B256
  bestHash : B256
  bestNumber : ℕ
  genesisHash : B256
  transactions : HashMap B256 MinedTransaction
  totalDifficulty : U256

namespace BlockchainStorage

def new (hashSlow : Header → B256) (header : Header) : BlockchainStorage :=
  let genesisHash := hashSlow header
  { blocks := (∅ : HashMap B256 Block).insert genesisHash
      { header := header, transactions := [] }
    hashes := (∅ : HashMap ℕ B256).insert header.number genesisHash
    bestHash := genesisHash
    bestNumber := header.number
    genesisHash := genesisHash
    transactions := ∅
    totalDifficulty := 0 }

/-- Removes the stored transactions of a block and empties its body. -/
def removeBlockTransactions (storage : BlockchainStorage) (blockHash : B256) : BlockchainStorage :=
  match storage.blocks.lookup blockHash with
  | none => storage
  | some block =>
    { storage with
      transactions := storage.transactions.eraseAll block.transactions
      blocks := storage.blocks.insert blockHash
        { block with transactions := [] } }

def removeBlockTransactionsByNumber (storage : BlockchainStorage)
    (number : ℕ) : BlockchainStorage :=
  match storage.hashes.lookup number with
  | none => storage
  | some hash => storage.removeBlockTransactions hash

/-- The body of the loop of `unwind_to`, with the blocks removed so far. -/
def unwindNumber (unwound : BlockchainStorage × List Block) (number : ℕ) :
    BlockchainStorage × List Block :=
  match unwound.1.hashes.lookup number with
  | none => unwound
  | some hash =>
    let storage := unwound.1.removeBlockTransactionsByNumber number
    let removed := unwound.2 ++ (storage.blocks.lookup hash).toList
    ({ storage with
       blocks := storage.blocks.erase hash
       hashes := storage.hashes.erase number }, removed)

variable (storage : BlockchainStorage)

/-- `unwind_to`: the given block remains. -/
def unwindTo (blockNumber : ℕ) (blockHash : B256) : BlockchainStorage × List Block :=
  let (unwound, removed) :=
    (rangeInclusive (u64Succ blockNumber) storage.bestNumber).foldl unwindNumber (storage, [])
  ({ unwound with bestHash := blockHash, bestNumber := blockNumber }, removed)

/-- The body of the loop of `revert_state_snapshot`. -/
def revertNumber (number : ℕ) : BlockchainStorage :=
  match storage.hashes.lookup number with
  | none => storage
  | some hash =>
    let storage := { storage with hashes := storage.hashes.erase number }
    match storage.blocks.lookup hash with
    | none => storage
    | some block =>
      { storage with
        blocks := storage.blocks.erase hash
        transactions := storage.transactions.eraseAll block.transactions }

/-- Removes what is newer than the snapshot block and makes it the best
block. -/
def revertTo (number : ℕ) (hash : B256) : BlockchainStorage :=
  let reverted :=
    (rangeInclusive (u64Succ number) storage.bestNumber).reverse.foldl revertNumber storage
  { reverted with bestNumber := number, bestHash := hash }

/-- Records the mined transactions of a block, each with the fields of its
info and its receipt. -/
def insertTransactions (outcome : B256 → Bytes × Bytes) (blockHash : B256)
    (blockNumber : ℕ) (hashes : List B256) : BlockchainStorage :=
  { storage with
    transactions := hashes.foldl
      (fun transactions hash => transactions.insert hash
        { info := { transactionHash := hash, rest := (outcome hash).1 }
          receipt := (outcome hash).2
          blockHash := blockHash
          blockNumber := blockNumber })
      storage.transactions }

/-- With a transaction block keeper, the transactions of the block that falls
out of its window are dropped. -/
def dropOldTransactions (transactionBlockKeeper : Option ℕ) (blockNumber : ℕ) : BlockchainStorage :=
  match transactionBlockKeeper with
  | none => storage
  | some keeper =>
    if storage.blocks.size > keeper then
      storage.removeBlockTransactionsByNumber (blockNumber - keeper)
    else storage

/-- The part of `do_mine_block` that writes the new block. -/
def insertBlock (transactionBlockKeeper : Option ℕ) (isEip3675 : Bool) (blockHash : B256)
    (blockNumber : ℕ) (block : Block) (outcome : B256 → Bytes × Bytes) : BlockchainStorage :=
  let storage :=
    { storage with
      bestNumber := blockNumber
      bestHash := blockHash
      totalDifficulty :=
        if isEip3675 then storage.totalDifficulty
        else U256.saturatingAdd storage.totalDifficulty block.header.difficulty
      blocks := storage.blocks.insert blockHash block
      hashes := storage.hashes.insert blockNumber blockHash }
  (storage.insertTransactions outcome blockHash blockNumber
    block.transactions).dropOldTransactions transactionBlockKeeper blockNumber

end BlockchainStorage

end SwissledgerFoundry.Chain
