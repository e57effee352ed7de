import SwissledgerFoundry.Mining.Service
import SwissledgerFoundry.Mining.Submission

/-!
# Batches of transactions that are mined already

A miner whose last batch was full takes a batch again without being notified, so
the queue gets batches of transactions that are being mined already.
-/

namespace SwissledgerFoundry.Mining

open List Pool Transition

/-- The transactions of the block in progress. -/
def BlockProducer.running (producer : BlockProducer) : List PoolTransaction :=
  match producer.blockMining with
  | some (.running transactions) => transactions
  | _ => []

/-- Every batch has a transaction that is neither among the given ones nor in
a batch before it. -/
def FreshQueue : List TxHash → List (List PoolTransaction) → Prop
  | _, [] => True
  | seen, batch :: queued =>
    (∃ tx ∈ batch, tx.hash ∉ seen) ∧ FreshQueue (seen ++ batch.map (·.hash)) queued

variable {queued : List (List PoolTransaction)} {seen fewer : List TxHash}

theorem FreshQueue.subset (fresh : FreshQueue seen queued)
    (subset : fewer ⊆ seen) : FreshQueue fewer queued := by
  induction queued generalizing seen fewer with
  | nil => trivial
  | cons batch queued ih =>
    obtain ⟨⟨tx, member, unseen⟩, rest⟩ := fresh
    refine ⟨⟨tx, member, fun seen => unseen (subset seen)⟩, ?_⟩
    apply ih rest
    exact append_subset.mpr ⟨subset_append_of_subset_left _ subset, subset_append_right _ _⟩

theorem FreshQueue.append {batch : List PoolTransaction} (fresh : FreshQueue seen queued)
    (new : ∃ tx ∈ batch, tx.hash ∉ seen ++ queued.flatten.map (·.hash)) :
    FreshQueue seen (queued ++ [batch]) := by
  induction queued generalizing seen with
  | nil => exact ⟨by simpa using new, trivial⟩
  | cons first queued ih =>
    refine ⟨fresh.1, ih fresh.2 ?_⟩
    rwa [append_assoc, ← map_append]

namespace Node

variable {Chain : Type} {executor : BlockExecutor Chain}
  {gasConfig : PoolTxGasConfig} {node after : Node Chain}

/-- The batch that the next poll of the producer takes from the queue. -/
def taken (node : Node Chain) : Option (List PoolTransaction) :=
  match node.phase, node.producer.blockMining with
  | .spawn, none => node.producer.queued.head?
  | _, _ => none

/-- The transactions that are mined, in the block in progress or in the queue. -/
def inFlight (node : Node Chain) : List TxHash :=
  node.mined ++ node.producer.running.map (·.hash) ++ node.producer.queued.flatten.map (·.hash)

/-- Whenever the miner looks for transactions, one of those that fit a batch is
not in flight already. -/
def FindsNew (node : Node Chain) : Event → Prop
  | .submit tx _ => RpcShaped tx
  | .complete => True
  | .renotify => True
  | .poll _ =>
    node.phase = .mine → node.miner.rx ≠ [] ∨ node.miner.hasPendingTxs ≠ some false →
      ∀ txs ∈ (node.pool.readyTransactions.getTransactions.drain
          (node.pool.readyTransactions.readyTx.size + 1)).toOption,
        txs.take node.miner.maxTransactions ≠ [] →
          ∃ tx ∈ txs.take node.miner.maxTransactions, tx.hash ∉ node.inFlight

instance (node : Node Chain) : (event : Event) → Decidable (node.FindsNew event)
  | .submit _ _ => inferInstanceAs (Decidable (RpcShaped _))
  | .complete => .isTrue trivial
  | .renotify => .isTrue trivial
  | .poll _ => inferInstanceAs (Decidable (_ → _ → _))

/-- Every batch of the queue has a transaction that is in no block and in no
batch before it. -/
def Ahead (node : Node Chain) : Prop :=
  FreshQueue (node.mined ++ node.producer.running.map (·.hash)) node.producer.queued

theorem Ahead.exists_of_taken {batch : List PoolTransaction} (ahead : node.Ahead)
    (isTaken : node.taken = some batch) : ∃ tx ∈ batch, tx.hash ∉ node.mined := by
  unfold taken at isTaken
  split at isTaken
  · rename_i idle
    unfold Ahead at ahead
    cases queue : node.producer.queued with
    | nil => simp [queue] at isTaken
    | cons first queued =>
      rw [queue] at isTaken ahead
      obtain rfl := Option.some.inj isTaken
      simp only [BlockProducer.running, idle, map_nil, append_nil] at ahead
      exact ahead.1
  · cases isTaken

section

variable (ahead : node.Ahead)

include ahead

theorem Ahead.complete : (node.complete executor gasConfig).Ahead := by
  unfold Node.complete
  split
  · rename_i transactions running
    refine ahead.subset ?_
    simp only [BlockProducer.running, running, map_nil, append_nil]
    refine append_subset.mpr ⟨subset_append_left _ _,
      subset_append_of_subset_right _ (map_subset _ ?_)⟩
    intro tx included
    exact executor.mem_batch_of_mem_outcome gasConfig (.inl included)
  · exact ahead

theorem Ahead.spawn : Ahead
      { node with
        producer := node.producer.spawn
        phase := .join } := by
  obtain ⟨pool, chain, miner, ⟨blockMining, queued⟩, phase, delayed, mined⟩ := node
  cases blockMining with
  | some mining => exact ahead
  | none =>
    cases queued with
    | nil => exact ahead
    | cons batch queued =>
      have fresh := ahead.2
      simp only [BlockProducer.running, map_nil, append_nil] at fresh
      exact fresh

theorem Ahead.advances {event : Event} {budget : ℕ}
    (advances : Advances executor gasConfig budget node event after)
    (findsNew : node.FindsNew event) : after.Ahead := by
  cases advances with
  | completed => exact ahead.complete
  | spawned => exact ahead.spawn
  | settled joined finished returned settles =>
    unfold Ahead at ahead
    simp only [BlockProducer.running, finished] at ahead
    exact ahead
  | queued mining polls =>
    obtain ⟨pending, nonempty, txs, listed, rfl⟩ := polls.some_eq
    refine FreshQueue.append ahead (findsNew mining pending txs ?_ nonempty)
    rw [listed]
    rfl
  | _ => exact ahead

end

def Permitted (state : Except Halt (Node Chain)) (event : Event) : Prop :=
  ∀ node, state = .ok node → node.FindsNew event

instance (state : Except Halt (Node Chain)) (event : Event) : Decidable (Permitted state event) :=
  Except.decidableForallOk _ _

/-- In every run in which the miner finds a transaction that is not in flight
whenever it looks for transactions, each batch that is taken from the queue has a
transaction that is not mined yet. -/
theorem run_takes_unmined (executor : BlockExecutor Chain)
    (gasConfig : PoolTxGasConfig) (maxTransactions : ℕ) (chain : Chain)
    (events : List Event)
    (findsNew : Transition.Along (step executor gasConfig) Permitted
      (.ok (start maxTransactions chain)) events)
    (bounded : submitted events ≤ 2 ^ 64) :
    ∀ reached, reached <+: events → ∃ node, run (step executor gasConfig)
          (.ok (start maxTransactions chain)) reached = .ok node ∧
        ∀ batch, node.taken = some batch → ∃ tx ∈ batch, tx.hash ∉ node.mined := by
  intro reached shorter
  have first : (start maxTransactions chain).Ahead := trivial
  obtain ⟨node, isReached, _, ahead⟩ := run_keeps FindsNew Ahead id
    (fun ahead findsNew advances _ _ _ => ahead.advances advances findsNew)
    PoolInner.empty_invariant first findsNew bounded shorter
  exact ⟨node, isReached, fun batch isTaken => ahead.exists_of_taken isTaken⟩

/-- A transaction with a higher priority is submitted while the block with the
first one is being mined, so that it is the next batch of one transaction. -/
def overlappingTransfers : List Event := [.submit (rpcTransaction 10 1 0 [] 5) .asListed] ++
  List.replicate 5 (.poll .asListed) ++
  [.submit (rpcTransaction 20 2 0 [] 9) .asListed] ++
  List.replicate 2 (.poll .asListed) ++ [.complete] ++
  List.replicate 2 (.poll .asListed)

theorem run_takes_unmined_overlapping :
    Transition.Along (step (nonceExecutor 30 fun _ => 15) .plain) Permitted
        (.ok (start 1 fun _ => 0)) overlappingTransfers ∧
      submitted overlappingTransfers ≤ 2 ^ 64 ∧
      ∀ reached, reached <+: overlappingTransfers →
        ∃ node, run (step (nonceExecutor 30 fun _ => 15) .plain)
            (.ok (start 1 fun _ => 0)) reached = .ok node ∧
          ∀ batch, node.taken = some batch → ∃ tx ∈ batch, tx.hash ∉ node.mined := by
  have findsNew : Transition.Along (step (nonceExecutor 30 fun _ => 15) .plain) Permitted
        (.ok (start 1 fun _ => 0)) overlappingTransfers := by
    decide +kernel
  have bounded : submitted overlappingTransfers ≤ 2 ^ 64 := by decide
  exact ⟨findsNew, bounded, run_takes_unmined _ .plain 1 (fun _ => 0) _ findsNew bounded⟩

/-- With batches of one transaction the same transaction is taken again while
it is being mined.  After the first block, the batch that is taken from the
queue has only this transaction, which is mined already. -/
theorem run_takes_mined_batch :
    ∃ node, run (step (nonceExecutor 30 fun _ => 15) .plain) (.ok (start 1 fun _ => 0))
        ([.submit (rpcTransaction 10 1 0 [] 5) .asListed] ++
          List.replicate 7 (.poll .asListed) ++ [.complete] ++
          List.replicate 2 (.poll .asListed)) = .ok node ∧
      node.mined = [10] ∧
      ∃ batch, node.taken = some batch ∧ ∀ tx ∈ batch, tx.hash = 10 := by
  refine ⟨_, rfl, rfl, _, rfl, ?_⟩
  decide +kernel

end Node

end SwissledgerFoundry.Mining
