import SwissledgerFoundry.Mining.MinedBlock

/-!
# Auto-mining

The producer mines one block at a time and keeps a queue of batches; the miner
takes a batch from the pool when it was notified of a ready transaction or when
its last batch was full.  Blocks are completed and transactions submitted at any
time.
-/

namespace SwissledgerFoundry.Mining

open List AList Pool Option

/-- The buffer of the channel between the pool and the miner. -/
def txListenerBufferSize : ℕ := 2048

/-- `notify_listener`.  A sender has one slot of its own besides the buffer;
when the channel is full, the notification is dropped. -/
def notifyListener (rx : List TxHash) (hash : TxHash) : List TxHash :=
  if rx.length ≤ txListenerBufferSize then rx ++ [hash] else rx

def notifyReady (rx : List TxHash) : AddedTransaction → List TxHash
  | .ready added => (added.hash :: added.promoted).foldl notifyListener rx
  | .pending _ => rx

/-- The miner of `MiningMode::Auto`. -/
structure ReadyTransactionMiner where
  maxTransactions : ℕ
  hasPendingTxs : Option Bool
  rx : List TxHash

/-- `ReadyTransactionMiner::poll`; no batch stands for `Poll::Pending`. -/
def ReadyTransactionMiner.poll (miner : ReadyTransactionMiner)
    (pool : PoolInner) : Except Halt (ReadyTransactionMiner × Option (List PoolTransaction)) :=
  let hasPendingTxs := if miner.rx.isEmpty then miner.hasPendingTxs else some true
  if hasPendingTxs = some false then
    .ok ({ miner with hasPendingTxs := hasPendingTxs, rx := [] }, none)
  else
    (pool.readyTransactions.getTransactions.drain
      (pool.readyTransactions.readyTx.size + 1)).map fun txs =>
        let transactions := txs.take miner.maxTransactions
        ({ miner with
           hasPendingTxs := some (decide (miner.maxTransactions ≤ transactions.length))
           rx := [] },
          if transactions.isEmpty then none else some transactions)

inductive BlockMining where
  | running (transactions : List PoolTransaction)
  | finished (outcome : MinedBlockOutcome)

/-- The producer holds the backend if no block is being mined. -/
structure BlockProducer where
  blockMining : Option BlockMining
  queued : List (List PoolTransaction)

/-- `BlockProducer::poll_next`, first part: starts the next block if none is
in progress. -/
def BlockProducer.spawn (producer : BlockProducer) : BlockProducer :=
  match producer.blockMining, producer.queued with
  | none, transactions :: queued =>
    { blockMining := some (.running transactions), queued := queued }
  | _, _ => producer

/-- Where `NodeService::poll` is in its loop. -/
inductive Phase where
  | parked
  | spawn
  | join
  | mine
deriving DecidableEq, Repr

/-- The node.  `delayed` are the transactions of which the miner is notified
again after a second; `mined` records the transactions of all blocks. -/
structure Node (Chain : Type) where
  pool : PoolInner
  chain : Chain
  miner : ReadyTransactionMiner
  producer : BlockProducer
  phase : Phase
  delayed : List TxHash
  mined : List TxHash

inductive Event where
  | submit (tx : PoolTransaction) (order : HashOrder)
  | complete
  | renotify
  | poll (order : HashOrder)

namespace Node

variable {Chain : Type}

def start (maxTransactions : ℕ) (chain : Chain) : Node Chain where
  pool := .empty
  chain := chain
  miner := { maxTransactions := maxTransactions, hasPendingTxs := none, rx := [] }
  producer := { blockMining := none, queued := [] }
  phase := .parked
  delayed := []
  mined := []

def notify (node : Node Chain) (added : List AddedTransaction) : Node Chain :=
  { node with miner := { node.miner with rx := added.foldl notifyReady node.miner.rx } }

/-- `Pool::add_transaction`. -/
def submit (node : Node Chain) (order : HashOrder) (tx : PoolTransaction) :
    Except Halt (Node Chain) :=
  (node.pool.addTransaction order tx).map fun (pool, added) =>
    match added with
    | .ok added => notify { node with pool := pool } [added]
    | .error _ => { node with pool := pool }

/-- The block in progress is executed. -/
def complete (executor : BlockExecutor Chain) (gasConfig : PoolTxGasConfig)
    (node : Node Chain) : Node Chain :=
  match node.producer.blockMining with
  | some (.running transactions) =>
    let execution := executor.executePoolTransactions gasConfig node.chain transactions
    { node with
      chain := execution.chain
      producer := { node.producer with blockMining := some (.finished execution.outcome) }
      mined := node.mined ++ execution.included.map (·.hash) }
  | _ => node

section

variable (node : Node Chain)

/-- `BlockProducer::poll_next`, second part, and `Pool::on_mined_block` for
the block that it returns. -/
def join (order : HashOrder) : Except Halt (Node Chain) :=
  match node.producer.blockMining with
  | some (.finished outcome) =>
    (onMinedBlock order node.pool outcome).map fun (pool, result) =>
      notify
        { node with
          pool := pool
          producer := { node.producer with blockMining := none }
          phase := .spawn
          delayed := node.delayed ++ outcome.notYetValid.map (·.hash) }
        result.promoted
  | _ => .ok { node with phase := .mine }

def mine : Except Halt (Node Chain) :=
  (node.miner.poll node.pool).map fun (miner, transactions) =>
    match transactions with
    | none => { node with miner := miner, phase := .parked }
    | some transactions =>
      { node with
        miner := miner
        producer := { node.producer with queued := node.producer.queued ++ [transactions] }
        phase := .spawn }

/-- The next part of `NodeService::poll`. -/
def poll (order : HashOrder) : Except Halt (Node Chain) :=
  match node.phase with
  | .parked => .ok { node with phase := .spawn }
  | .spawn => .ok { node with producer := node.producer.spawn, phase := .join }
  | .join => node.join order
  | .mine => node.mine

end

variable (executor : BlockExecutor Chain) (gasConfig : PoolTxGasConfig)

def apply (node : Node Chain) : Event → Except Halt (Node Chain)
  | .submit tx order => node.submit order tx
  | .complete => .ok (node.complete executor gasConfig)
  | .renotify =>
    .ok
      { node with
        miner := { node.miner with rx := node.delayed.foldl notifyListener node.miner.rx }
        delayed := [] }
  | .poll order => node.poll order

def step (state : Except Halt (Node Chain)) (event : Event) : Except Halt (Node Chain) :=
  state.bind fun node => node.apply executor gasConfig event

end Node

/-- The number of submitted transactions. -/
def submitted (events : List Event) : ℕ :=
  events.countP fun event =>
    match event with
    | .submit _ _ => true
    | _ => false

theorem submitted_append (past : List Event) (event : Event) :
    submitted (past ++ [event]) = submitted past + submitted [event] :=
  countP_append

theorem notifyListener_ne_nil (rx : List TxHash) (hash : TxHash) : notifyListener rx hash ≠ [] := by
  unfold notifyListener
  split
  · exact append_ne_nil_of_right_ne_nil rx (cons_ne_nil hash [])
  rename_i full
  intro empty
  rw [empty] at full
  exact full (Nat.zero_le txListenerBufferSize)

theorem foldl_notifyListener_ne_nil {rx : List TxHash} {hashes : List TxHash}
    (notified : rx ≠ [] ∨ hashes ≠ []) :
    hashes.foldl notifyListener rx ≠ [] := by
  induction hashes generalizing rx with
  | nil => exact notified.resolve_right fun different => different rfl
  | cons hash hashes ih => exact ih (.inl (notifyListener_ne_nil rx hash))

theorem foldl_notifyReady_ne_nil {rx : List TxHash} {promoted : List AddedTransaction}
    (ready : ∀ added ∈ promoted, ∃ ready, added = .ready ready)
    (notified : rx ≠ [] ∨ promoted ≠ []) :
    promoted.foldl notifyReady rx ≠ [] := by
  induction promoted generalizing rx with
  | nil => exact notified.resolve_right fun different => different rfl
  | cons added promoted ih =>
    obtain ⟨⟨added, rfl⟩, rest⟩ := forall_mem_cons.mp ready
    apply ih rest
    left
    exact foldl_notifyListener_ne_nil (.inr (cons_ne_nil _ _))

variable {pool : PoolInner} {tx : PoolTransaction}

/-- A submitted transaction is rejected, gets ready or waits. -/
theorem adds_cases {budget : ℕ} {outcome : Except PoolError AddedTransaction} {after : PoolInner}
    (adds : pool.Adds budget tx after outcome) :
    (∃ error, outcome = .error error ∧ after = pool) ∨
      (∃ added, outcome = .ok (.ready added) ∧ tx.hash ∈ after.readyTransactions.readyTx) ∨
      (outcome = .ok (.pending tx.hash) ∧ after.readyTransactions = pool.readyTransactions) := by
  cases adds with
  | ready provided flying enqueues =>
    cases enqueues with
    | underpriced => exact .inl ⟨_, rfl, rfl⟩
    | ready promotes promotions =>
      have entered := (PoolInner.Enqueues.ready promotes promotions).mem_readyTx flying
      exact .inr (.inl ⟨_, rfl, entered⟩)
  | waits unprovided unwaiting adds => exact .inr (.inr ⟨rfl, rfl⟩)
  | _ => exact .inl ⟨_, rfl, rfl⟩

theorem mem_of_yields {ready : ReadyTransactions}
    {txs : List PoolTransaction} (yields : ready.Yields [] txs)
    {hash : TxHash} {tx : ReadyTransaction}
    (stored : ready.readyTx.lookup hash = some tx) : tx.tx ∈ txs := by
  have listed := (yields.mem_of_stored (mem_of_lookup stored)).resolve_left not_mem_nil
  obtain ⟨other, member, rfl⟩ := mem_map.mp listed
  obtain ⟨found, same, otherStored⟩ := yields.found member
  obtain rfl := some.inj (stored.symm.trans otherStored)
  rw [same]
  exact member

inductive Polls (unwrapped : Prop) (miner : ReadyTransactionMiner) (pool : PoolInner) :
    ReadyTransactionMiner → Option (List PoolTransaction) → Prop
  | idle (unnotified : miner.rx = [])
      (drained : miner.hasPendingTxs = some false) :
      Polls unwrapped miner pool
        { miner with
          hasPendingTxs := some false
          rx := [] } none
  | polled {txs : List PoolTransaction}
      (pending : miner.rx ≠ [] ∨ miner.hasPendingTxs ≠ some false)
      (listed : pool.readyTransactions.getTransactions.drain
        (pool.readyTransactions.readyTx.size + 1) = .ok txs)
      (yields : unwrapped → pool.readyTransactions.Yields [] txs) :
      Polls unwrapped miner pool
        { miner with
          hasPendingTxs :=
            some (decide (miner.maxTransactions ≤ (txs.take miner.maxTransactions).length))
          rx := [] }
        (if (txs.take miner.maxTransactions).isEmpty then none
        else some (txs.take miner.maxTransactions))

variable {miner next : ReadyTransactionMiner}
  {batch : Option (List PoolTransaction)} {unwrapped : Prop}

section

variable (polls : Polls unwrapped miner pool next batch)

include polls

theorem Polls.maxTransactions : next.maxTransactions = miner.maxTransactions := by
  cases polls <;> rfl

theorem Polls.mem_batch (isUnwrapped : unwrapped) (drained : next.hasPendingTxs = some false)
    (pending : miner.rx ≠ [] ∨ miner.hasPendingTxs ≠ some false) {hash : TxHash}
    {tx : ReadyTransaction}
    (stored : pool.readyTransactions.readyTx.lookup hash = some tx) :
    ∃ transactions, batch = some transactions ∧ tx.tx ∈ transactions := by
  cases polls with
  | idle unnotified idle =>
    exact (pending.elim (fun different => different unnotified)
      fun different => different idle).elim
  | @polled txs _ listed yields =>
    have partly : (txs.take miner.maxTransactions).length < miner.maxTransactions := by
      simpa using drained
    have all : txs.take miner.maxTransactions = txs := by
      rw [take_eq_self_iff]
      rw [length_take] at partly
      omega
    have member := mem_of_yields (yields isUnwrapped) stored
    rw [all, if_neg]
    · exact ⟨txs, rfl, member⟩
    · intro empty
      simp [isEmpty_iff.mp empty] at member

end

theorem Polls.some_eq {transactions : List PoolTransaction}
    (polls : Polls unwrapped miner pool next (some transactions)) :
    (miner.rx ≠ [] ∨ miner.hasPendingTxs ≠ some false) ∧ transactions ≠ [] ∧
      ∃ txs, pool.readyTransactions.getTransactions.drain
          (pool.readyTransactions.readyTx.size + 1) = .ok txs ∧
        transactions = txs.take miner.maxTransactions := by
  generalize isSome : some transactions = batch at polls
  cases polls with
  | idle unnotified drained => cases isSome
  | @polled txs pending listed yields =>
    split at isSome
    · cases isSome
    rename_i nonempty
    obtain rfl := some.inj isSome
    refine ⟨pending, ?_, txs, listed, rfl⟩
    intro empty
    exact nonempty (isEmpty_iff.mpr empty)

theorem ReadyTransactionMiner.poll_eq_ok {budget : ℕ} (miner : ReadyTransactionMiner)
    (invariant : pool.Invariant [] budget) :
    ∃ after batch, miner.poll pool = .ok (after, batch) ∧
      Polls (budget ≤ 2 ^ 64) miner pool after batch := by
  obtain ⟨txs, listed, yields⟩ := invariant.ready.drain_getTransactions
    (Nat.lt_succ_self pool.readyTransactions.readyTx.size)
  unfold poll
  by_cases unnotified : miner.rx = []
  · simp only [unnotified, isEmpty_nil, if_true]
    by_cases drained : miner.hasPendingTxs = some false
    · simp only [drained, if_true]
      exact ⟨_, _, rfl, .idle unnotified drained⟩
    · rw [if_neg drained, listed]
      exact ⟨_, _, rfl, .polled (.inr drained) listed yields⟩
  have nonempty : miner.rx.isEmpty = false := by simpa using unnotified
  simp only [nonempty, Bool.false_eq_true, if_false, some.injEq, Bool.true_eq_false, listed]
  exact ⟨_, _, rfl, .polled (.inl unnotified) listed yields⟩

theorem Polls.drained_of_none (polls : Polls unwrapped miner pool next none)
    (positive : 1 ≤ miner.maxTransactions) :
    next.hasPendingTxs = some false := by
  generalize pending : none = batch at polls
  cases polls with
  | idle unnotified drained => rfl
  | @polled txs _ listed yields =>
    split at pending
    · rename_i empty
      rw [isEmpty_iff.mp empty]
      simpa using Nat.pos_iff_ne_zero.mp positive
    · cases pending

namespace Node

variable {Chain : Type} {executor : BlockExecutor Chain}
  {gasConfig : PoolTxGasConfig} {budget : ℕ} {node : Node Chain}

/-- What an event does to the node. -/
inductive Advances (executor : BlockExecutor Chain)
    (gasConfig : PoolTxGasConfig) (budget : ℕ) (node : Node Chain) :
    Event → Node Chain → Prop
  | rejected {tx : PoolTransaction} {order : HashOrder} :
      Advances executor gasConfig budget node (.submit tx order) node
  | entered {tx : PoolTransaction} {order : HashOrder} {pool : PoolInner}
      {ready : AddedReady}
      (adds : node.pool.Adds (budget + 1) tx pool (.ok (.ready ready)))
      (isReady : tx.hash ∈ pool.readyTransactions.readyTx) :
      Advances executor gasConfig budget node (.submit tx order)
        (notify { node with pool := pool } [.ready ready])
  | waits {tx : PoolTransaction} {order : HashOrder} {pool : PoolInner}
      (adds : node.pool.Adds (budget + 1) tx pool (.ok (.pending tx.hash)))
      (same : pool.readyTransactions = node.pool.readyTransactions) :
      Advances executor gasConfig budget node (.submit tx order) { node with pool := pool }
  | completed : Advances executor gasConfig budget node .complete
      (node.complete executor gasConfig)
  | renotified : Advances executor gasConfig budget node .renotify
      { node with
        miner := { node.miner with rx := node.delayed.foldl notifyListener node.miner.rx }
        delayed := [] }
  | woken {order : HashOrder} :
      Advances executor gasConfig budget node (.poll order) { node with phase := .spawn }
  | spawned {order : HashOrder} :
      Advances executor gasConfig budget node (.poll order)
        { node with
          producer := node.producer.spawn
          phase := .join }
  | settled {order : HashOrder} {outcome : MinedBlockOutcome}
      {pool : PoolInner} {result : PruneResult}
      (joined : node.phase = .join)
      (finished : node.producer.blockMining = some (.finished outcome))
      (returned : onMinedBlock order node.pool outcome = .ok (pool, result))
      (settles : Settles node.pool outcome pool result) :
      Advances executor gasConfig budget node (.poll order) (notify
          { node with
            pool := pool
            producer := { node.producer with blockMining := none }
            phase := .spawn
            delayed := node.delayed ++ outcome.notYetValid.map (·.hash) }
          result.promoted)
  | unfinished {order : HashOrder} :
      Advances executor gasConfig budget node (.poll order) { node with phase := .mine }
  | drained {order : HashOrder} {miner : ReadyTransactionMiner}
      (mining : node.phase = .mine)
      (polls : Polls (budget ≤ 2 ^ 64) node.miner node.pool miner none) :
      Advances executor gasConfig budget node (.poll order)
        { node with
          miner := miner
          phase := .parked }
  | queued {order : HashOrder} {miner : ReadyTransactionMiner}
      {transactions : List PoolTransaction} (mining : node.phase = .mine)
      (polls : Polls (budget ≤ 2 ^ 64) node.miner node.pool miner (some transactions)) :
      Advances executor gasConfig budget node (.poll order)
        { node with
          miner := miner
          producer := { node.producer with queued := node.producer.queued ++ [transactions] }
          phase := .spawn }

theorem Advances.maxTransactions {event : Event} {after : Node Chain}
    (advances : Advances executor gasConfig budget node event after) :
    after.miner.maxTransactions = node.miner.maxTransactions := by
  cases advances with
  | completed =>
    unfold complete
    split <;> rfl
  | drained mining polls => exact polls.maxTransactions
  | queued mining polls => exact polls.maxTransactions
  | _ => rfl

variable (invariant : node.pool.Invariant [] budget)

include invariant

theorem submit_advances (order : HashOrder) (shaped : RpcShaped tx) :
    ∃ after, node.submit order tx = .ok after ∧ after.pool.Invariant [] (budget + 1) ∧
      Advances executor gasConfig budget node (.submit tx order) after := by
  obtain ⟨pool, outcome, added, adds, holds⟩ := invariant.adds order shaped
  rw [submit, added]
  rcases adds_cases adds with ⟨error, rfl, rfl⟩ | ⟨ready, rfl, isReady⟩ | ⟨rfl, same⟩
  · exact ⟨node, rfl, holds, .rejected⟩
  · exact ⟨_, rfl, holds, .entered adds isReady⟩
  · exact ⟨_, rfl, holds, .waits adds same⟩

theorem join_advances (order : HashOrder) (joined : node.phase = .join) :
    ∃ after, node.join order = .ok after ∧ after.pool.Invariant [] budget ∧
      Advances executor gasConfig budget node (.poll order) after := by
  unfold join
  split
  · rename_i outcome finished
    obtain ⟨pool, result, returned, holds, settles⟩ := onMinedBlock_eq_ok invariant order outcome
    refine ⟨_, ?_, holds, .settled joined finished returned settles⟩
    rw [returned]
    rfl
  · exact ⟨_, rfl, invariant, .unfinished⟩

theorem mine_advances (order : HashOrder) (mining : node.phase = .mine) :
    ∃ after, node.mine = .ok after ∧ after.pool.Invariant [] budget ∧
      Advances executor gasConfig budget node (.poll order) after := by
  obtain ⟨miner, batch, polled, polls⟩ := node.miner.poll_eq_ok invariant
  rw [mine, polled]
  cases batch with
  | none => exact ⟨_, rfl, invariant, .drained mining polls⟩
  | some transactions => exact ⟨_, rfl, invariant, .queued mining polls⟩

/-- No event makes the node panic. -/
theorem apply_advances (event : Event)
    (shaped : ∀ tx order, event = .submit tx order → RpcShaped tx) :
    ∃ after, node.apply executor gasConfig event = .ok after ∧
      after.pool.Invariant [] (budget + submitted [event]) ∧
      Advances executor gasConfig budget node event after := by
  cases event with
  | submit tx order => exact submit_advances invariant order (shaped tx order rfl)
  | complete =>
    refine ⟨_, rfl, ?_, .completed⟩
    unfold complete
    split <;> exact invariant
  | renotify => exact ⟨_, rfl, invariant, .renotified⟩
  | poll order =>
    rw [apply, poll]
    split
    · exact ⟨_, rfl, invariant, .woken⟩
    · exact ⟨_, rfl, invariant, .spawned⟩
    · rename_i joined
      exact join_advances invariant order joined
    · rename_i mining
      exact mine_advances invariant order mining

omit invariant in
/-- What every event keeps, while the ids of the pool do not wrap around, holds
in every node that a run reaches. -/
theorem run_keeps {events reached : List Event} {first : Node Chain}
    (allowed : Node Chain → Event → Prop)
    (keeps : Node Chain → Prop)
    (shaped : ∀ {node tx order}, allowed node (.submit tx order) → RpcShaped tx)
    (kept : ∀ {budget node event after}, keeps node → allowed node event →
      Advances executor gasConfig budget node event after → node.pool.Invariant [] budget →
      after.pool.Invariant [] (budget + submitted [event]) → budget ≤ 2 ^ 64 → keeps after)
    (empty : first.pool.Invariant [] 0) (starts : keeps first)
    (along : Transition.Along (step executor gasConfig)
      (fun state event => ∀ node, state = .ok node → allowed node event) (.ok first) events)
    (bounded : submitted events ≤ 2 ^ 64) (shorter : reached <+: events) :
    ∃ node, Transition.run (step executor gasConfig) (.ok first) reached = .ok node ∧
      node.pool.Invariant [] (submitted reached) ∧ keeps node := by
  have few : submitted reached ≤ 2 ^ 64 := (shorter.sublist.countP_le).trans bounded
  obtain ⟨node, isReached, invariant, holds⟩ := Transition.invariant_history
    (fun past (state : Except Halt (Node Chain)) =>
      ∃ node, state = .ok node ∧ node.pool.Invariant [] (submitted past) ∧
        (submitted past ≤ 2 ^ 64 → keeps node))
    (by
      rintro past _ event ⟨node, rfl, invariant, holds⟩ permitted
      have here := permitted node rfl
      obtain ⟨after, applied, later, advances⟩ := apply_advances invariant event
        (fun tx order same => shaped (same ▸ here))
      rw [submitted_append]
      refine ⟨after, applied, later, ?_⟩
      intro few
      have fewBefore : submitted past ≤ 2 ^ 64 := (Nat.le_add_right _ _).trans few
      exact kept (holds fewBefore) here advances invariant later fewBefore)
    [] ⟨first, rfl, empty, fun _ => starts⟩ along reached shorter
  exact ⟨node, isReached, invariant, holds few⟩

end Node

end SwissledgerFoundry.Mining
