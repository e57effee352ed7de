import SwissledgerFoundry.Mining.MinedBlock
import SwissledgerFoundry.Pool.Runs
import Mathlib.Data.List.Dedup

/-!
# Submitters and miners

A transaction is inserted into the pool after its required marker was computed,
and the markers of a block are pruned after it was executed.  A transaction that
is inserted after its marker was pruned waits forever.
-/

namespace SwissledgerFoundry.Mining

open List AList Pool UInt64 Transition

def requiredMarker (providedNonce onChainNonce : UInt64) (sender : Address) : List TxMarker :=
  if providedNonce = onChainNonce then []
  else
    let prevNonce := if providedNonce = 0 then 0 else providedNonce - 1
    if onChainNonce ≤ prevNonce then [toMarker prevNonce sender] else []

/-- The pool transaction that `send_raw_transaction` builds once it knows the
nonce of the sender. -/
def poolTransaction (onChainNonce : UInt64) (tx : PoolTransaction) : PoolTransaction :=
  { tx with
    requires := requiredMarker tx.nonce onChainNonce tx.sender
    provides := [toMarker tx.nonce tx.sender] }

/-- The nonces of the accounts on the chain: a transaction is executed with
the nonce of its sender. -/
structure NonceCount {Chain : Type} (executor : BlockExecutor Chain) where
  nonce : Chain → Address → UInt64
  used : ∀ {chain tx after gasUsed}, executor.transact chain tx = .ok (after, gasUsed) →
    tx.nonce = nonce chain tx.sender

/-- The transaction does not advance the nonce of an account with a waiting
transaction, except for that of its sender, and this one by one. -/
def NonceCount.AdvancesOwn {Chain : Type} {executor : BlockExecutor Chain}
    (counts : NonceCount executor) (pool : PoolInner) (chain : Chain)
    (tx : PoolTransaction) : Prop :=
  ∀ result ∈ (executor.transact chain tx).toOption,
    ∀ waiting ∈ pool.pendingTransactions.waitingQueue.values,
      (counts.nonce result.1 waiting.transaction.sender).toNat ≤
        (counts.nonce chain waiting.transaction.sender).toNat +
          if waiting.transaction.sender = tx.sender then 1 else 0

instance {Chain : Type} {executor : BlockExecutor Chain} (counts : NonceCount executor)
    (pool : PoolInner) (chain : Chain) (tx : PoolTransaction) :
    Decidable (counts.AdvancesOwn pool chain tx) :=
  inferInstanceAs (Decidable (∀ _ ∈ _, _))

/-- The pool and the chain, the submissions that have read the nonce of their
sender, and the executed blocks whose markers are not pruned yet. -/
structure System (Chain : Type) where
  pool : PoolInner
  chain : Chain
  submitting : List PoolTransaction
  mined : List MinedBlockOutcome

/-- A step of a submitter or of a miner.  Unfinished submissions and blocks
are named by their position. -/
inductive Action where
  | read (tx : PoolTransaction)
  | insert (index : ℕ) (order : HashOrder)
  | execute (batch : List PoolTransaction)
  | prune (index : ℕ) (order : HashOrder)

namespace System

variable {Chain : Type} {executor : BlockExecutor Chain}

def start (chain : Chain) : System Chain where
  pool := .empty
  chain := chain
  submitting := []
  mined := []

/-- Every started submission was inserted and every executed block pruned. -/
def Settled (system : System Chain) : Prop := system.submitting = [] ∧ system.mined = []

section

variable (counts : NonceCount executor)

/-- The system after a step. -/
def apply (gasConfig : PoolTxGasConfig)
    (system : System Chain) : Action → Except Halt (System Chain)
  | .read tx =>
    let onChainNonce := counts.nonce system.chain tx.sender
    .ok { system with submitting := system.submitting ++ [poolTransaction onChainNonce tx] }
  | .insert index order =>
    match system.submitting[index]? with
    | none => .ok system
    | some tx =>
      (system.pool.addTransaction order tx).map fun (pool, _) =>
        { system with pool := pool, submitting := system.submitting.eraseIdx index }
  | .execute batch =>
    let execution := executor.executePoolTransactions gasConfig system.chain batch
    .ok { system with chain := execution.chain, mined := system.mined ++ [execution.outcome] }
  | .prune index order =>
    match system.mined[index]? with
    | none => .ok system
    | some outcome =>
      (onMinedBlock order system.pool outcome).map fun (pool, _) =>
        { system with pool := pool, mined := system.mined.eraseIdx index }

def step (gasConfig : PoolTxGasConfig) (system : Except Halt (System Chain)) (action : Action) :
    Except Halt (System Chain) :=
  system.bind fun system => system.apply counts gasConfig action

/-- The marker is not used on the chain, it is provided by a ready
transaction, or a block that was executed has still to be pruned of it. -/
def StillComes (system : System Chain) (tx : PoolTransaction) (marker : TxMarker) : Prop :=
  marker ∈ requiredMarker tx.nonce (counts.nonce system.chain tx.sender) tx.sender ∨
    marker ∈ system.pool.readyTransactions.providedMarkers ∨
    ∃ outcome ∈ system.mined, marker ∈ outcome.markers

instance (counts : NonceCount executor) (system : System Chain)
    (tx : PoolTransaction) (marker : TxMarker) :
    Decidable (system.StillComes counts tx marker) :=
  inferInstanceAs (Decidable (_ ∨ _ ∨ ∃ _ ∈ _, _))

/-- Miners take their batches from the pool, no transaction of a batch advances
the nonce of a waiting one of another sender, and when a transaction is inserted,
the marker that it requires was not pruned since it was computed. -/
def Timely (gasConfig : PoolTxGasConfig) (system : System Chain) : Action → Prop
  | .read _ => True
  | .insert index _ => ∀ tx ∈ system.submitting[index]?,
      ∀ marker ∈ tx.requires, system.StillComes counts tx marker
  | .execute batch => (∀ tx ∈ batch, RpcShaped tx) ∧
      Along (executor.executeTransaction gasConfig)
        (fun execution => counts.AdvancesOwn system.pool execution.chain)
        (.start system.chain) batch
  | .prune _ _ => True

end

instance (counts : NonceCount executor) (gasConfig : PoolTxGasConfig) (system : System Chain)
    (action : Action) : Decidable (system.Timely counts gasConfig action) := by
  unfold Timely
  split <;> infer_instance

end System

theorem requiredMarker_eq (providedNonce onChainNonce : UInt64) (sender : Address) :
    requiredMarker providedNonce onChainNonce sender =
      if onChainNonce < providedNonce then
        [toMarker (providedNonce - 1) sender]
      else [] := by
  unfold requiredMarker
  by_cases same : providedNonce = onChainNonce
  · rw [if_pos same, if_neg]
    rw [same]
    exact UInt64.lt_irrefl onChainNonce
  rw [if_neg same]
  have different : providedNonce.toNat ≠ onChainNonce.toNat :=
    fun equal => same (UInt64.toNat_inj.mp equal)
  by_cases zero : providedNonce = 0
  · subst zero
    have value : (0 : UInt64).toNat = 0 := rfl
    rw [if_pos rfl, if_neg, if_neg]
    · exact UInt64.not_lt_zero
    · rw [le_iff_toNat_le]
      omega
  have positive : providedNonce.toNat ≠ 0 := fun equal => zero (UInt64.toNat_inj.mp equal)
  have previous : (providedNonce - 1).toNat = providedNonce.toNat - 1 :=
    UInt64.toNat_sub_of_le _ _ (UInt64.le_iff_toNat_le.mpr (Nat.one_le_iff_ne_zero.mpr positive))
  simp only [if_neg zero]
  apply if_congr _ rfl rfl
  rw [le_iff_toNat_le, lt_iff_toNat_lt]
  omega

theorem poolTransaction_shaped (onChainNonce : UInt64)
    (tx : PoolTransaction) : RpcShaped (poolTransaction onChainNonce tx) := by
  refine ⟨rfl, ?_⟩
  change requiredMarker tx.nonce onChainNonce tx.sender = [] ∨
    (tx.nonce ≠ 0 ∧ requiredMarker tx.nonce onChainNonce tx.sender =
      [toMarker (tx.nonce - 1) tx.sender])
  rw [requiredMarker_eq]
  by_cases ahead : onChainNonce < tx.nonce
  · right
    rw [if_pos ahead]
    refine ⟨?_, rfl⟩
    intro zero
    rw [zero] at ahead
    exact Nat.not_lt_zero _ ahead
  · exact .inl (if_neg ahead)

theorem eq_toMarker_of_requires {marker : TxMarker} {waiting tx : PoolTransaction}
    (shaped : RpcShaped waiting)
    (requires : waiting.requires = [marker])
    (sender : tx.sender = waiting.sender)
    (nonce : tx.nonce.toNat = waiting.nonce.toNat - 1) :
    marker = toMarker tx.nonce tx.sender := by
  rcases shaped.requires with nothing | ⟨positive, required⟩
  · simp [nothing] at requires
  rw [required] at requires
  rw [← head_eq_of_cons_eq requires, sender]
  congr 1
  apply UInt64.toNat_inj.mp
  rw [nonce]
  apply UInt64.toNat_sub_of_le
  apply Nat.one_le_iff_ne_zero.mpr
  exact fun zero => positive (UInt64.toNat_inj.mp zero)

section Steps

variable {Chain : Type} {executor : BlockExecutor Chain}
  {counts : NonceCount executor} {gasConfig : PoolTxGasConfig} {batch : List PoolTransaction}

/-- A nonce of a waiting transaction that the chain passes in a block is the
nonce of an included transaction. -/
theorem NonceCount.exists_included {pool : PoolInner} {chain : Chain} {nonce : ℕ}
    {waiting : PendingPoolTransaction}
    (along : Along (executor.executeTransaction gasConfig)
      (fun execution => counts.AdvancesOwn pool execution.chain) (.start chain) batch)
    (waits : waiting ∈ pool.pendingTransactions.waitingQueue.values)
    (before : (counts.nonce chain waiting.transaction.sender).toNat ≤ nonce)
    (passed : nonce < (counts.nonce (executor.executePoolTransactions gasConfig chain batch).chain
      waiting.transaction.sender).toNat) :
    ∃ tx ∈ (executor.executePoolTransactions gasConfig chain batch).included,
      tx.sender = waiting.transaction.sender ∧ tx.nonce.toNat = nonce := by
  refine invariant_along (fun execution : Execution Chain =>
      nonce < (counts.nonce execution.chain waiting.transaction.sender).toNat →
      ∃ tx ∈ execution.included, tx.sender = waiting.transaction.sender ∧ tx.nonce.toNat = nonce)
    ?_ (fun passed => absurd before (Nat.not_le.mpr passed)) along batch prefix_rfl passed
  intro execution tx earlier advancesOwn passed
  have executes := executor.executes_executeTransaction gasConfig execution tx
  generalize executor.executeTransaction gasConfig execution tx = after at executes passed ⊢
  cases executes with
  | @included next gasUsed blobGasUsed transacts =>
    have advanced := advancesOwn (next, gasUsed) (by rw [transacts]; rfl) waiting waits
    simp only at advanced passed
    by_cases already : nonce < (counts.nonce execution.chain waiting.transaction.sender).toNat
    · obtain ⟨other, included, known⟩ := earlier already
      exact ⟨other, mem_append_left _ included, known⟩
    by_cases own : waiting.transaction.sender = tx.sender
    · rw [if_pos own] at advanced
      refine ⟨tx, by simp, own.symm, ?_⟩
      rw [counts.used transacts, ← own]
      omega
    · rw [if_neg own] at advanced
      omega
  | _ => exact earlier passed

namespace System

/-- A waiting transaction is ahead of its sender, or it is unlocked as soon as
the executed blocks are pruned. -/
structure Invariant (counts : NonceCount executor) (system : System Chain) : Prop where
  pool : ∃ budget, system.pool.Invariant [] budget
  shaped : ∀ tx ∈ system.submitting, RpcShaped tx
  comes : ∀ {hash tx}, system.pool.pendingTransactions.waitingQueue.lookup hash = some tx →
    counts.nonce system.chain tx.transaction.sender < tx.transaction.nonce ∨
      ∃ outcome ∈ system.mined, ∃ marker ∈ tx.missingMarkers, marker ∈ outcome.markers

variable {system : System Chain}

theorem start_invariant (counts : NonceCount executor) (chain : Chain) :
    (start chain).Invariant counts where
  pool := ⟨0, PoolInner.empty_invariant⟩
  shaped _ none := absurd none not_mem_nil
  comes := by nofun

theorem lookup_of_adds {pool after : PoolInner} {budget : ℕ}
    {tx : PoolTransaction} {outcome : Except PoolError AddedTransaction}
    (adds : pool.Adds budget tx after outcome) {hash : TxHash}
    {waiting : PendingPoolTransaction}
    (found : after.pendingTransactions.waitingQueue.lookup hash = some waiting) :
    pool.pendingTransactions.waitingQueue.lookup hash = some waiting ∨
      (waiting.transaction = tx ∧ ∃ marker ∈ tx.requires,
        marker ∉ pool.readyTransactions.providedMarkers ∧
        marker ∈ waiting.missingMarkers) := by
  cases adds with
  | ready provided flying enqueues =>
    left
    exact PoolInner.keeping_waiting.enqueues enqueues flying (fun earlier => earlier) found
  | waits unprovided unwaiting adds =>
    rw [adds.queue] at found
    obtain ⟨_, rfl⟩ | ⟨_, found⟩ := lookup_of_insert found
    · obtain ⟨marker, required, absent⟩ := unprovided
      refine .inr ⟨rfl, marker, required, absent, ?_⟩
      apply mem_dedup.mpr
      exact mem_filter.mpr ⟨required, by simpa using absent⟩
    · exact .inl found
  | _ => exact .inl found

section

variable (invariant : system.Invariant counts)

include invariant

theorem Invariant.insert {index : ℕ} {order : HashOrder}
    (timely : system.Timely counts gasConfig (.insert index order)) :
    ∃ after, system.apply counts gasConfig (.insert index order) =
      .ok after ∧ after.Invariant counts := by
  cases started : system.submitting[index]? with
  | none =>
    refine ⟨system, ?_, invariant⟩
    simp only [apply, started]
  | some tx =>
    obtain ⟨budget, poolInvariant⟩ := invariant.pool
    have shaped := invariant.shaped tx (mem_of_getElem? started)
    obtain ⟨pool, outcome, added, adds, holds⟩ := poolInvariant.adds order shaped
    refine ⟨_, by simp only [apply, started, added]; rfl, ⟨_, holds⟩, ?_, ?_⟩
    · intro other member
      exact invariant.shaped other (mem_of_mem_eraseIdx member)
    intro hash waiting found
    rcases lookup_of_adds adds found with earlier | ⟨rfl, marker, required, absent, missing⟩
    · exact invariant.comes earlier
    rcases timely _ started marker required with ahead | provided | unpruned
    · left
      rw [requiredMarker_eq] at ahead
      split at ahead
      · assumption
      · cases ahead
    · exact absurd provided absent
    · obtain ⟨block, member, pruned⟩ := unpruned
      exact .inr ⟨block, member, marker, missing, pruned⟩

theorem Invariant.execute (timely : system.Timely counts gasConfig (.execute batch)) :
    ∃ after, system.apply counts gasConfig (.execute batch) = .ok after ∧
      after.Invariant counts := by
  refine ⟨_, rfl, invariant.pool, invariant.shaped, ?_⟩
  intro hash waiting found
  rcases invariant.comes found with ahead | ⟨block, member, unpruned⟩
  · by_cases still : counts.nonce (executor.executePoolTransactions gasConfig system.chain
          batch).chain waiting.transaction.sender < waiting.transaction.nonce
    · exact .inl still
    right
    obtain ⟨budget, poolInvariant⟩ := invariant.pool
    obtain ⟨_, waitingShaped, marker, requires, missing⟩ := poolInvariant.pending.shaped found
    rw [lt_iff_toNat_lt] at ahead still
    have passed : waiting.transaction.nonce.toNat - 1 <
        (counts.nonce (executor.executePoolTransactions gasConfig
          system.chain batch).chain waiting.transaction.sender).toNat := by
      omega
    have waits : waiting ∈ system.pool.pendingTransactions.waitingQueue.values :=
      mem_values_iff.mpr ⟨hash, found⟩
    obtain ⟨tx, included, sender, nonce⟩ :=
      NonceCount.exists_included timely.2 waits (Nat.le_sub_one_of_lt ahead) passed
    have member := executor.mem_batch_of_mem_outcome gasConfig (.inl included)
    refine ⟨_, mem_append_right _ (mem_singleton_self _), marker, by simp [missing], ?_⟩
    apply mem_flatMap.mpr
    refine ⟨tx, included, ?_⟩
    rw [(timely.1 tx member).provides, mem_singleton]
    exact eq_toMarker_of_requires waitingShaped requires sender nonce
  · exact .inr ⟨block, mem_append_left _ member, unpruned⟩

theorem Invariant.prune (index : ℕ) (order : HashOrder) :
    ∃ after, system.apply counts gasConfig (.prune index order) =
      .ok after ∧ after.Invariant counts := by
  cases executed : system.mined[index]? with
  | none =>
    refine ⟨system, ?_, invariant⟩
    simp only [apply, executed]
  | some outcome =>
    obtain ⟨budget, poolInvariant⟩ := invariant.pool
    obtain ⟨pool, result, returned, holds, settles⟩ :=
      onMinedBlock_eq_ok poolInvariant order outcome
    refine ⟨{ system with pool := pool, mined := system.mined.eraseIdx index },
      by simp only [apply, executed, returned]; rfl, ⟨_, holds⟩,
      invariant.shaped, ?_⟩
    intro hash waiting found
    obtain ⟨earlier, unmissed⟩ := settles.waiting found
    rcases invariant.comes earlier with ahead | ⟨block, member, marker, missing, unpruned⟩
    · exact .inl ahead
    right
    refine ⟨block, ?_, marker, missing, unpruned⟩
    obtain ⟨position, stored⟩ := mem_iff_getElem?.mp member
    refine mem_eraseIdx_iff_getElem?.mpr ⟨position, ?_, stored⟩
    rintro rfl
    rw [executed] at stored
    obtain rfl := Option.some.inj stored
    exact unmissed marker unpruned missing

theorem Invariant.apply {action : Action} (timely : system.Timely counts gasConfig action) :
    ∃ after, system.apply counts gasConfig action = .ok after ∧ after.Invariant counts := by
  cases action with
  | read tx =>
    refine ⟨_, rfl, invariant.pool, ?_, invariant.comes⟩
    rw [forall_mem_append, forall_mem_singleton]
    exact ⟨invariant.shaped, poolTransaction_shaped _ tx⟩
  | insert index order => exact invariant.insert timely
  | execute batch => exact invariant.execute timely
  | prune index order => exact invariant.prune index order

end

/-- The step is taken in a state that allows it. -/
def Allowed (counts : NonceCount executor) (gasConfig : PoolTxGasConfig)
    (state : Except Halt (System Chain)) (action : Action) : Prop :=
  ∀ system, state = .ok system → system.Timely counts gasConfig action

instance (counts : NonceCount executor) (gasConfig : PoolTxGasConfig)
    (state : Except Halt (System Chain)) (action : Action) :
    Decidable (Allowed counts gasConfig state action) :=
  Except.decidableForallOk _ _

end System

end Steps

def nonceExecutorCount (gasLimit : UInt64) (gas : PoolTransaction → UInt64) :
    NonceCount (nonceExecutor gasLimit gas) where
  nonce nonces := nonces
  used := by
    intro nonces tx after gasUsed transacts
    simp only [nonceExecutor] at transacts
    split at transacts
    · rename_i valid
      exact valid.1
    · cases transacts

namespace System

end System

end SwissledgerFoundry.Mining
