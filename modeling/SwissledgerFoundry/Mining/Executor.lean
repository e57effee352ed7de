import SwissledgerFoundry.Collections.Transition
import SwissledgerFoundry.Pool.Inner

/-!
# Executing a batch of pool transactions

`execute_pool_transactions` over any block executor.  A transaction of the batch
is included, reported as invalid or as not valid yet, or skipped without a
report.
-/

namespace SwissledgerFoundry.Mining

open Pool List

def saturatingAdd (left right : UInt64) : UInt64 :=
  if left.toNat + right.toNat < 2 ^ 64 then left + right
  else UInt64.ofNat u64Max

/-- The gas settings that `execute_pool_transactions` reads. -/
structure PoolTxGasConfig where
  disableBlockGasLimit : Bool
  txGasLimitCap : Option UInt64
  txGasLimitCapResolved : UInt64
  maxBlobGasPerBlock : UInt64
  isCancun : Bool
deriving DecidableEq, Repr

/-- How the executor refuses a transaction.  The first case are the errors
whose text contains `not valid yet`. -/
inductive ExecutionError where
  | notValidYet
  | validation
  | other
deriving DecidableEq, Repr

/-- The transaction is executed or refused for good. -/
def ExecutionError.settles {α : Type} : Except ExecutionError α → Bool
  | .ok _ => true
  | .error error => error = .validation

/-- The block executor, the validator and the transactions as
`execute_pool_transactions` sees them.  `transact` executes and commits; it
returns the gas that the transaction used. -/
structure BlockExecutor (Chain : Type) where
  gasLimit : UInt64
  basic : Chain → Address → Option AccountInfo
  transactionGasLimit : PoolTransaction → UInt64
  blobGasUsed : PoolTransaction → Option UInt64
  validator : PoolTransaction → AccountInfo → Bool
  transact : Chain → PoolTransaction → Except ExecutionError (Chain × UInt64)

/-- What is known after a part of the batch. -/
structure Execution (Chain : Type) where
  chain : Chain
  cumulativeGasUsed : UInt64
  blobGasUsed : UInt64
  included : List PoolTransaction
  invalid : List PoolTransaction
  notYetValid : List PoolTransaction

def Execution.start {Chain : Type} (chain : Chain) : Execution Chain where
  chain := chain
  cumulativeGasUsed := 0
  blobGasUsed := 0
  included := []
  invalid := []
  notYetValid := []

namespace BlockExecutor

variable {Chain : Type} (executor : BlockExecutor Chain)
  (gasConfig : PoolTxGasConfig)

/-- The checks of the gas of a transaction, after the given amounts of gas and
blob gas. -/
def hasGas (cumulativeGas blobGas : UInt64) (poolTx : PoolTransaction) : Bool :=
  let gasLimit := executor.transactionGasLimit poolTx
  !(!gasConfig.disableBlockGasLimit &&
      decide (executor.gasLimit < saturatingAdd cumulativeGas gasLimit)) &&
    !(gasConfig.txGasLimitCap.isNone && decide (gasConfig.txGasLimitCapResolved < gasLimit)) &&
    !decide (gasConfig.maxBlobGasPerBlock <
      saturatingAdd blobGas ((executor.blobGasUsed poolTx).getD 0))

/-- One round of the loop of `execute_pool_transactions`. -/
def executeTransaction (execution : Execution Chain) (poolTx : PoolTransaction) : Execution Chain :=
  match executor.basic execution.chain poolTx.sender with
  | none => execution
  | some account =>
    if executor.hasGas gasConfig execution.cumulativeGasUsed execution.blobGasUsed poolTx then
      if executor.validator poolTx account then
        match executor.transact execution.chain poolTx with
        | .ok (chain, gasUsed) =>
          { execution with
            chain := chain
            cumulativeGasUsed := execution.cumulativeGasUsed + gasUsed
            blobGasUsed :=
              if gasConfig.isCancun then
                saturatingAdd execution.blobGasUsed ((executor.blobGasUsed poolTx).getD 0)
              else execution.blobGasUsed
            included := execution.included ++ [poolTx] }
        | .error .notValidYet => { execution with notYetValid := execution.notYetValid ++ [poolTx] }
        | .error .validation => { execution with invalid := execution.invalid ++ [poolTx] }
        | .error .other => execution
      else { execution with invalid := execution.invalid ++ [poolTx] }
    else execution

def executePoolTransactions (chain : Chain)
    (poolTransactions : List PoolTransaction) : Execution Chain :=
  poolTransactions.foldl (executor.executeTransaction gasConfig) (.start chain)

/-- What a round does to a transaction. -/
inductive Executes (execution : Execution Chain) (poolTx : PoolTransaction) : Execution Chain → Prop
  | included {chain : Chain} {gasUsed blobGasUsed : UInt64}
      (transacts : executor.transact execution.chain poolTx = .ok (chain, gasUsed)) :
      Executes execution poolTx
        { execution with
          chain := chain
          cumulativeGasUsed := execution.cumulativeGasUsed + gasUsed
          blobGasUsed := blobGasUsed
          included := execution.included ++ [poolTx] }
  | invalid : Executes execution poolTx
      { execution with invalid := execution.invalid ++ [poolTx] }
  | notYetValid : Executes execution poolTx
      { execution with notYetValid := execution.notYetValid ++ [poolTx] }
  | skipped : Executes execution poolTx execution

theorem executes_executeTransaction (execution : Execution Chain) (poolTx : PoolTransaction) :
    executor.Executes execution poolTx
      (executor.executeTransaction gasConfig execution poolTx) := by
  unfold executeTransaction
  split
  · exact .skipped
  split
  · split
    · split
      · rename_i transacts
        exact .included transacts
      · exact .notYetValid
      · exact .invalid
      · exact .skipped
    · exact .invalid
  · exact .skipped

variable {chain : Chain} {poolTransactions : List PoolTransaction}

theorem executePoolTransactions_induction {motive : Execution Chain → Prop}
    (start : motive (.start chain))
    (round : ∀ {execution poolTx after}, poolTx ∈ poolTransactions →
      executor.Executes execution poolTx after → motive execution →
      motive after) :
    motive (executor.executePoolTransactions gasConfig chain poolTransactions) := by
  apply foldlRecOn poolTransactions _ start
  intro execution holds poolTx member
  exact round member (executor.executes_executeTransaction gasConfig execution poolTx) holds

theorem mem_batch_of_mem_outcome {poolTx : PoolTransaction} (reported :
      poolTx ∈ (executor.executePoolTransactions gasConfig chain poolTransactions).included ∨
        poolTx ∈ (executor.executePoolTransactions gasConfig chain poolTransactions).invalid) :
    poolTx ∈ poolTransactions := by
  refine executor.executePoolTransactions_induction gasConfig
    (motive := fun execution => poolTx ∈ execution.included ∨
      poolTx ∈ execution.invalid → poolTx ∈ poolTransactions) ?_ ?_ reported
  · simp [Execution.start]
  intro execution other after member executes earlier
  cases executes with
  | included transacts =>
    simp only [mem_append, mem_singleton]
    rintro ((included | rfl) | invalid)
    · exact earlier (.inl included)
    · exact member
    · exact earlier (.inr invalid)
  | invalid =>
    simp only [mem_append, mem_singleton]
    rintro (included | invalid | rfl)
    · exact earlier (.inl included)
    · exact earlier (.inr invalid)
    · exact member
  | _ => exact earlier

/-- A round includes the transaction or reports it as invalid: the account of
its sender is read, the gas and the blob gas that are left suffice for it, and the
executor accepts it or refuses it for good. -/
def Resolves (execution : Execution Chain) (poolTx : PoolTransaction) : Prop :=
  ∃ account ∈ executor.basic execution.chain poolTx.sender,
    executor.hasGas gasConfig execution.cumulativeGasUsed execution.blobGasUsed poolTx ∧
      (executor.validator poolTx account →
        ExecutionError.settles (executor.transact execution.chain poolTx))

instance (execution : Execution Chain) (poolTx : PoolTransaction) :
    Decidable (executor.Resolves gasConfig execution poolTx) :=
  inferInstanceAs (Decidable (∃ _ ∈ _, _))

section

variable {executor : BlockExecutor Chain} {gasConfig : PoolTxGasConfig}
  {execution : Execution Chain} {poolTx other : PoolTransaction}

theorem Resolves.reported (resolves : executor.Resolves gasConfig execution poolTx) :
    poolTx ∈ (executor.executeTransaction gasConfig execution poolTx).included ∨
      poolTx ∈ (executor.executeTransaction gasConfig execution poolTx).invalid := by
  obtain ⟨account, found, hasGas, settles⟩ := resolves
  rw [executeTransaction, Option.mem_def.mp found]
  simp only [hasGas, if_true]
  split
  · rename_i valid
    specialize settles valid
    split
    · simp
    all_goals simp_all [ExecutionError.settles]
  · simp

theorem Executes.reported {after : Execution Chain}
    (executes : executor.Executes execution other after)
    (reported : poolTx ∈ execution.included ∨ poolTx ∈ execution.invalid) :
    poolTx ∈ after.included ∨ poolTx ∈ after.invalid := by
  cases executes with
  | included transacts => exact reported.imp_left (mem_append_left _)
  | invalid => exact reported.imp_right (mem_append_left _)
  | _ => exact reported

/-- A transaction that every round it has resolves is reported. -/
theorem reported_of_along {txs : List PoolTransaction}
    {allowed : Execution Chain → PoolTransaction → Prop}
    (along : Transition.Along (executor.executeTransaction gasConfig) allowed execution txs)
    (resolves : ∀ execution, allowed execution poolTx →
      executor.Resolves gasConfig execution poolTx)
    (member : poolTx ∈ txs ∨ poolTx ∈ execution.included ∨ poolTx ∈ execution.invalid) :
    poolTx ∈ (txs.foldl (executor.executeTransaction gasConfig) execution).included ∨
      poolTx ∈ (txs.foldl (executor.executeTransaction gasConfig) execution).invalid := by
  induction txs generalizing execution with
  | nil => exact member.resolve_left not_mem_nil
  | cons tx txs ih =>
    refine ih along.2 ?_
    rcases member with member | reported
    · rcases mem_cons.mp member with rfl | later
      · exact .inr (resolves execution along.1).reported
      · exact .inl later
    · exact .inr ((executor.executes_executeTransaction gasConfig execution tx).reported reported)

end

/-- The transaction is valid on the chain and its gas fits an empty block. -/
def Executable (chain : Chain) (poolTx : PoolTransaction) : Prop :=
  poolTx ∈ (executor.executePoolTransactions gasConfig chain [poolTx]).included

instance (chain : Chain) (poolTx : PoolTransaction) :
    Decidable (executor.Executable gasConfig chain poolTx) :=
  inferInstanceAs (Decidable (_ ∈ _))

theorem Executable.hasGas {poolTx : PoolTransaction} {executor : BlockExecutor Chain}
    (executable : executor.Executable gasConfig chain poolTx) :
    executor.hasGas gasConfig 0 0 poolTx := by
  by_contra exceeded
  simp only [Executable, executePoolTransactions, foldl_cons,
    foldl_nil, executeTransaction, Execution.start, exceeded] at executable
  split at executable <;> cases executable

end BlockExecutor

/-- An executor of transactions that only use up a nonce and gas. -/
def nonceExecutor (gasLimit : UInt64) (gas : PoolTransaction → UInt64) :
    BlockExecutor (Address → UInt64) where
  gasLimit := gasLimit
  basic nonces address :=
    some { balance := 0, nonce := nonces address, codeHash := 0, code := none }
  transactionGasLimit := gas
  blobGasUsed _ := none
  validator tx account := decide (account.nonce ≤ tx.nonce)
  transact nonces tx :=
    if tx.nonce = nonces tx.sender ∧ tx.nonce.toNat < u64Max then
      .ok (Function.update nonces tx.sender (tx.nonce + 1), gas tx)
    else .error .validation

/-- Gas settings without blobs and without a cap for a transaction. -/
def PoolTxGasConfig.plain : PoolTxGasConfig where
  disableBlockGasLimit := false
  txGasLimitCap := some 30
  txGasLimitCapResolved := 30
  maxBlobGasPerBlock := 0
  isCancun := true

structure MinedBlockOutcome where
  included : List PoolTransaction
  invalid : List PoolTransaction
  notYetValid : List PoolTransaction
deriving DecidableEq, Repr

def MinedBlockOutcome.markers (outcome : MinedBlockOutcome) : List TxMarker :=
  outcome.included.flatMap (·.provides)

def Execution.outcome {Chain : Type} (execution : Execution Chain) : MinedBlockOutcome where
  included := execution.included
  invalid := execution.invalid
  notYetValid := execution.notYetValid

/-- `on_mined_block`, without the delayed notifications. -/
def onMinedBlock (order : HashOrder) (pool : PoolInner)
    (outcome : MinedBlockOutcome) : Except Halt (PoolInner × PruneResult) :=
  (pool.removeInvalid (outcome.invalid.map (·.hash))).bind fun (pool, _) =>
    pool.pruneMarkers order outcome.markers

end SwissledgerFoundry.Mining
