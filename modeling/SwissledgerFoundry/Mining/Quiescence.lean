import SwissledgerFoundry.Mining.Service
import SwissledgerFoundry.Pool.Runs

/-!
# What auto-mining leaves behind

A transaction that is skipped because the gas of the block is used up is neither
pruned nor reported, so it stays ready and nobody is notified of it.
-/

namespace SwissledgerFoundry.Mining

open List Pool Transition

/-- The transactions that leave the pool once all batches are mined. -/
def BlockProducer.awaited (producer : BlockProducer) : List PoolTransaction :=
  (match producer.blockMining with
    | none => []
    | some (.running transactions) => transactions
    | some (.finished outcome) => outcome.included ++ outcome.invalid) ++
    producer.queued.flatten

theorem BlockProducer.awaited_spawn (producer : BlockProducer) :
    producer.spawn.awaited = producer.awaited := by
  obtain ⟨blockMining, queued⟩ := producer
  cases blockMining with
  | none => cases queued <;> rfl
  | some mining => rfl

namespace Node

variable {Chain : Type} {executor : BlockExecutor Chain}
  {gasConfig : PoolTxGasConfig} {node after : Node Chain}

/-- No block is in progress, the queue and the channel are empty, and the
miner has nothing to do. -/
structure Quiescent (node : Node Chain) : Prop where
  idle : node.producer.blockMining = none
  unqueued : node.producer.queued = []
  unnotified : node.miner.rx = []
  pending : ∃ miner, node.miner.poll node.pool = .ok (miner, none)

/-- The miner is going to poll the pool, or the transaction is in the queue. -/
def Retries (node : Node Chain) (tx : PoolTransaction) : Prop :=
  node.miner.rx ≠ [] ∨ node.miner.hasPendingTxs ≠ some false ∨ tx ∈ node.producer.queued.flatten

instance (node : Node Chain) (tx : PoolTransaction) : Decidable (node.Retries tx) :=
  inferInstanceAs (Decidable (_ ∨ _))

/-- In the round of a transaction whose gas fits an empty block, the transaction
is included or invalid, unless it is tried again. -/
def SkipsNone (executor : BlockExecutor Chain) (gasConfig : PoolTxGasConfig)
    (node : Node Chain) : Event → Prop
  | .submit tx _ => RpcShaped tx
  | .complete =>
    match node.producer.blockMining with
    | some (.running transactions) =>
      Along (executor.executeTransaction gasConfig)
        (fun execution tx => executor.hasGas gasConfig 0 0 tx →
          node.Retries tx ∨ executor.Resolves gasConfig execution tx)
        (.start node.chain) transactions
    | _ => True
  | .renotify => True
  | .poll _ => True

instance (executor : BlockExecutor Chain) (gasConfig : PoolTxGasConfig)
    (node : Node Chain) (event : Event) :
    Decidable (node.SkipsNone executor gasConfig event) := by
  unfold SkipsNone
  split
  case h_2 => split <;> infer_instance
  all_goals infer_instance

/-- For every ready transaction whose gas fits an empty block, the miner is
going to poll the pool, or the transaction leaves the pool once all batches are
mined. -/
structure Covers (executor : BlockExecutor Chain)
    (gasConfig : PoolTxGasConfig) (node : Node Chain) : Prop where
  awaited : ∀ {hash tx}, node.pool.readyTransactions.readyTx.lookup hash = some tx →
    executor.hasGas gasConfig 0 0 tx.tx →
    node.miner.rx ≠ [] ∨ node.miner.hasPendingTxs ≠ some false ∨ tx.tx ∈ node.producer.awaited

theorem Covers.complete (covers : node.Covers executor gasConfig)
    (skipsNone : node.SkipsNone executor gasConfig .complete) :
    (node.complete executor gasConfig).Covers executor gasConfig := by
  unfold Node.complete
  split
  · rename_i transactions running
    simp only [SkipsNone, running] at skipsNone
    constructor
    intro hash tx found fits
    rcases covers.awaited found fits with notified | armed | awaited
    · exact .inl notified
    · exact .inr (.inl armed)
    simp only [BlockProducer.awaited, running] at awaited
    rcases mem_append.mp awaited with executed | queued
    · by_cases retried : node.Retries tx.tx
      · exact retried.imp_right (Or.imp_right (mem_append_right _))
      right; right
      apply mem_append_left
      refine mem_append.mpr (BlockExecutor.reported_of_along skipsNone ?_ (.inl executed))
      intro execution allowed
      exact (allowed fits).resolve_left retried
    · right; right
      exact mem_append_right _ queued
  · exact covers

section

variable (covers : node.Covers executor gasConfig)

include covers

variable {budget : ℕ}

theorem Covers.settle {outcome : MinedBlockOutcome} {pool : PoolInner}
    {result : PruneResult} {phase : Phase} {delayed : List TxHash}
    (finished : node.producer.blockMining = some (.finished outcome))
    (settles : Settles node.pool outcome pool result)
    (invariant : pool.Invariant [] budget) :
    (notify
      { node with
        pool := pool
        producer := { node.producer with blockMining := none }
        phase := phase
        delayed := delayed } result.promoted).Covers executor gasConfig := by
  constructor
  intro hash tx found fits
  by_cases nothing : result.promoted = []
  · obtain ⟨valid, unprovided, earlier, stored, same⟩ := settles.ready nothing found
    have sameTx : tx.tx = earlier.tx := by rw [ReadyTransaction.tx, same]
    rw [sameTx] at fits
    rcases covers.awaited stored fits with notified | armed | awaited
    · left
      exact foldl_notifyReady_ne_nil settles.promoted (.inl notified)
    · exact .inr (.inl armed)
    right; right
    rw [← sameTx] at awaited
    obtain ⟨ownHash, shaped⟩ := invariant.ready.shaped found
    simp only [BlockProducer.awaited, finished] at awaited
    rcases mem_append.mp awaited with reported | queued
    · rcases mem_append.mp reported with included | invalid
      · have provides : toMarker tx.tx.nonce tx.tx.sender ∈ tx.tx.provides := by
          rw [shaped.provides]
          exact mem_singleton_self _
        refine absurd provides (unprovided _ ?_)
        exact mem_flatMap.mpr ⟨tx.tx, included, provides⟩
      · refine absurd ?_ valid
        rw [← ownHash]
        exact mem_map_of_mem invalid
    · exact mem_append_right _ queued
  · left
    exact foldl_notifyReady_ne_nil settles.promoted (.inr nothing)

variable {tx : ReadyTransaction}

/-- After the miner was polled, it is going to poll again, or the transaction
is in its batch or was awaited before. -/
theorem Covers.polls {unwrapped : Prop} {next : ReadyTransactionMiner}
    {batch : Option (List PoolTransaction)}
    (polls : Polls unwrapped node.miner node.pool next batch)
    (isUnwrapped : unwrapped) {hash : TxHash}
    (stored : node.pool.readyTransactions.readyTx.lookup hash = some tx)
    (fits : executor.hasGas gasConfig 0 0 tx.tx) :
    next.hasPendingTxs ≠ some false ∨ tx.tx ∈ node.producer.awaited ∨
      ∃ transactions, batch = some transactions ∧ tx.tx ∈ transactions := by
  by_cases drained : next.hasPendingTxs = some false
  · right
    rcases covers.awaited stored fits with notified | armed | awaited
    · right
      exact polls.mem_batch isUnwrapped drained (.inl notified) stored
    · right
      exact polls.mem_batch isUnwrapped drained (.inr armed) stored
    · exact .inl awaited
  · exact .inl drained

theorem Covers.advances {event : Event}
    (advances : Advances executor gasConfig budget node event after)
    (skipsNone : node.SkipsNone executor gasConfig event)
    (invariant : after.pool.Invariant [] (budget + submitted [event]))
    (bounded : budget ≤ 2 ^ 64) : after.Covers executor gasConfig := by
  cases advances with
  | rejected => exact covers
  | entered adds isReady =>
    constructor
    intro hash tx found fits
    left
    exact foldl_notifyListener_ne_nil (.inr (cons_ne_nil _ _))
  | waits adds same =>
    constructor
    intro hash tx found fits
    rw [same] at found
    exact covers.awaited found fits
  | completed => exact covers.complete skipsNone
  | renotified =>
    constructor
    intro hash tx found fits
    exact (covers.awaited found fits).imp_left fun notified =>
      foldl_notifyListener_ne_nil (.inl notified)
  | spawned =>
    constructor
    intro hash tx found fits
    rw [BlockProducer.awaited_spawn]
    exact covers.awaited found fits
  | settled joined finished returned settles => exact covers.settle finished settles invariant
  | drained mining polls =>
    constructor
    intro hash tx found fits
    rcases covers.polls polls bounded found fits with armed | awaited | ⟨_, none, _⟩
    · exact .inr (.inl armed)
    · exact .inr (.inr awaited)
    · cases none
  | queued mining polls =>
    constructor
    intro hash tx found fits
    rcases covers.polls polls bounded found fits with armed | awaited | ⟨transactions, same, member⟩
    · exact .inr (.inl armed)
    · right; right
      simp only [BlockProducer.awaited, flatten_append, ← append_assoc]
      exact mem_append_left _ awaited
    obtain rfl := Option.some.inj same
    right; right
    simp [BlockProducer.awaited, member]
  | _ => exact ⟨covers.awaited⟩

theorem Covers.not_executable (quiescent : node.Quiescent)
    (invariant : node.pool.Invariant [] budget) (bounded : budget ≤ 2 ^ 64)
    (positive : 1 ≤ node.miner.maxTransactions) {hash : TxHash}
    (stored : node.pool.readyTransactions.readyTx.lookup hash = some tx) :
    ¬ executor.Executable gasConfig node.chain tx.tx := by
  intro executable
  obtain ⟨miner, pending⟩ := quiescent.pending
  obtain ⟨next, batch, polled, polls⟩ := node.miner.poll_eq_ok invariant
  cases pending.symm.trans polled
  rcases covers.polls polls bounded stored executable.hasGas with armed | awaited | ⟨_, none, _⟩
  · exact armed (polls.drained_of_none positive)
  · simp [BlockProducer.awaited, quiescent.idle, quiescent.unqueued] at awaited
  · cases none

end

def Allowed (executor : BlockExecutor Chain) (gasConfig : PoolTxGasConfig)
    (state : Except Halt (Node Chain)) (event : Event) : Prop :=
  ∀ node, state = .ok node → node.SkipsNone executor gasConfig event

instance (executor : BlockExecutor Chain) (gasConfig : PoolTxGasConfig)
    (state : Except Halt (Node Chain)) (event : Event) :
    Decidable (Allowed executor gasConfig state event) :=
  Except.decidableForallOk _ _

/-- In every run in which no block skips a transaction that fits an empty block
and is not tried again, a node without work holds no executable transaction. -/
theorem run_quiescent (executor : BlockExecutor Chain)
    (gasConfig : PoolTxGasConfig) (maxTransactions : ℕ)
    (positive : 1 ≤ maxTransactions) (chain : Chain) (events : List Event)
    (skipsNone : Transition.Along (step executor gasConfig)
      (Allowed executor gasConfig) (.ok (start maxTransactions chain)) events)
    (bounded : submitted events ≤ 2 ^ 64) :
    ∀ reached, reached <+: events → ∃ node, run (step executor gasConfig)
          (.ok (start maxTransactions chain)) reached = .ok node ∧
        (node.Quiescent → ∀ {hash tx}, node.pool.readyTransactions.readyTx.lookup hash = some tx →
          ¬ executor.Executable gasConfig node.chain tx.tx) := by
  intro reached shorter
  obtain ⟨node, isReached, invariant, limit, covers⟩ :=
    run_keeps (SkipsNone executor gasConfig)
      (fun node => node.miner.maxTransactions = maxTransactions ∧ node.Covers executor gasConfig) id
      (by
        rintro budget node event after ⟨limit, covers⟩ skipsNone advances - holds few
        exact ⟨advances.maxTransactions.trans limit, covers.advances advances skipsNone holds few⟩)
      PoolInner.empty_invariant ⟨rfl, ⟨by
        intro hash tx found
        cases found⟩⟩ skipsNone bounded shorter
  refine ⟨node, isReached, ?_⟩
  intro quiescent hash tx found
  have few : submitted reached ≤ 2 ^ 64 := (shorter.sublist.countP_le).trans bounded
  exact covers.not_executable quiescent invariant few (limit ▸ positive) found

/-- Two submissions, and polls until the batch with both is mined and the
service has nothing to do. -/
def twoTransfers : List Event :=
  [.submit (rpcTransaction 10 1 0 [] 5) .asListed,
    .submit (rpcTransaction 20 2 0 [] 5) .asListed] ++
  List.replicate 7 (.poll .asListed) ++ [.complete] ++
  List.replicate 6 (.poll .asListed)

theorem run_quiescent_twoTransfers : Transition.Along (step (nonceExecutor 30 fun _ => 15) .plain)
        (Allowed (nonceExecutor 30 fun _ => 15) .plain)
        (.ok (start 10 fun _ => 0)) twoTransfers ∧
      submitted twoTransfers ≤ 2 ^ 64 ∧
      ∀ reached, reached <+: twoTransfers → ∃ node, run (step (nonceExecutor 30 fun _ => 15) .plain)
            (.ok (start 10 fun _ => 0)) reached = .ok node ∧
          (node.Quiescent → ∀ {hash tx}, node.pool.readyTransactions.readyTx.lookup hash = some tx →
            ¬ (nonceExecutor 30 fun _ => 15).Executable .plain node.chain tx.tx) := by
  have skipsNone : Transition.Along (step (nonceExecutor 30 fun _ => 15) .plain)
        (Allowed (nonceExecutor 30 fun _ => 15) .plain)
        (.ok (start 10 fun _ => 0)) twoTransfers := by
    decide +kernel
  have bounded : submitted twoTransfers ≤ 2 ^ 64 := by decide
  exact ⟨skipsNone, bounded, run_quiescent _ .plain 10 (by decide) (fun _ => 0) _ skipsNone bounded⟩

/-- Together the two transactions need more gas than a block has.  The second
one is skipped; it stays ready, it could be mined, and the service has nothing
to do. -/
theorem run_leaves_skipped_transaction :
    let executor := nonceExecutor 30 fun _ => 20
    ∃ node, run (step executor .plain) (.ok (start 10 fun _ => 0)) twoTransfers = .ok node ∧
      node.Quiescent ∧
      ∃ tx, node.pool.readyTransactions.readyTx.lookup 20 = some tx ∧
        executor.Executable .plain node.chain tx.tx := by
  refine ⟨_, rfl, ⟨rfl, rfl, rfl, _, rfl⟩, _, rfl, ?_⟩
  decide +kernel

/-- No interleaving of submissions, polls and completed blocks makes the node
panic, and the tables of its pool agree after every event. -/
theorem run_pool_consistent (executor : BlockExecutor Chain) (gasConfig : PoolTxGasConfig)
    (maxTransactions : ℕ) (chain : Chain) (events : List Event)
    (shaped : ∀ tx order, .submit tx order ∈ events → RpcShaped tx)
    (bounded : submitted events ≤ 2 ^ 64) :
    ∀ reached, reached <+: events → ∃ node, run (step executor gasConfig)
          (.ok (start maxTransactions chain)) reached = .ok node ∧ node.pool.Consistent := by
  intro reached shorter
  have few : submitted reached ≤ 2 ^ 64 := (shorter.sublist.countP_le).trans bounded
  have along : Along (step executor gasConfig) (fun state event => ∀ node, state = .ok node →
      ∀ tx order, event = .submit tx order → RpcShaped tx)
      (.ok (start maxTransactions chain)) events := by
    refine along_of_forall ?_ _
    rintro event member state node - tx order rfl
    exact shaped tx order member
  obtain ⟨node, isReached, invariant, _⟩ := run_keeps _ (fun _ => True)
    (fun allowed => allowed _ _ rfl) (fun _ _ _ _ _ _ => trivial) PoolInner.empty_invariant trivial
    along bounded shorter
  exact ⟨node, isReached, invariant.consistent few⟩

theorem run_pool_consistent_twoTransfers : submitted twoTransfers ≤ 2 ^ 64 ∧
    ∀ reached, reached <+: twoTransfers → ∃ node, run (step (nonceExecutor 30 fun _ => 15) .plain)
        (.ok (start 10 fun _ => 0)) reached = .ok node ∧ node.pool.Consistent :=
  ⟨by decide, run_pool_consistent _ _ _ _ _ (by
    intro tx order member
    rcases (by simpa [twoTransfers] using member : _ ∨ _) with ⟨rfl, -⟩ | ⟨rfl, -⟩ <;> decide)
    (by decide)⟩

end Node

end SwissledgerFoundry.Mining
