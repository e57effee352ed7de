import SwissledgerFoundry.Pool.Promotion
import SwissledgerFoundry.Pool.Pruning
import SwissledgerFoundry.Pool.Iteration

/-!
# The operations of the pool

Every operation is made of a few kinds of parts, and the relations below say of
which.  `Keeping` collects what a property has to satisfy so that the operations
keep it in addition to the invariant.
-/

namespace SwissledgerFoundry.Pool

open List AList PendingPoolTransaction PendingTransactions

/-- What a round of `add_ready_transaction` reports of a promoted
transaction. -/
def AddedReady.record (ready : AddedReady) (hash : TxHash) :
    Except PoolError (List PoolTransaction) → AddedReady
  | .ok replacedTransactions =>
    { ready with
      promoted := ready.promoted ++ [hash]
      removed := ready.removed ++ replacedTransactions }
  | .error _ => { ready with discarded := ready.discarded ++ [hash] }

theorem AddedReady.removed_record (ready : AddedReady) (hash : TxHash)
    (added : Except PoolError (List PoolTransaction)) :
    (ready.record hash added).removed = ready.removed ++ added.toOption.getD [] := by
  cases added with
  | ok replacedTransactions => rfl
  | error error => exact (append_nil _).symm

/-- What `prune_markers` reports of an imported transaction. -/
def PruneResult.record (result : PruneResult) (hash : TxHash) :
    Except PoolError AddedTransaction → PruneResult
  | .ok added => { result with promoted := result.promoted ++ [added] }
  | .error _ => { result with failed := result.failed ++ [hash] }

namespace PoolInner

open ReadyTransactions

section Invariant

variable {pool after : PoolInner} {budget : ℕ} {inFlight : List PendingPoolTransaction}
  (invariant : pool.Invariant inFlight budget)

include invariant

theorem Invariant.budget_le {larger : ℕ} (enough : budget ≤ larger) :
    pool.Invariant inFlight larger :=
  { invariant with
    ready := invariant.ready.of_imp fun small => enough.trans small
    numbered := by
      obtain ⟨count, numbered, counted⟩ := invariant.numbered
      exact ⟨count, numbered, counted.trans enough⟩ }

theorem Invariant.subperm {fewer : List PendingPoolTransaction} (subperm : fewer.Subperm inFlight) :
    pool.Invariant fewer budget where
  ready := invariant.ready
  pending := invariant.pending
  disjoint := invariant.disjoint
  missing := invariant.missing
  complete member := invariant.complete (subperm.subset member)
  apart member := invariant.apart (subperm.subset member)
  nodup := by
    obtain ⟨reordered, perm, sublist⟩ := subperm
    apply ((perm.map _).nodup_iff).mp
    exact (sublist.map _).nodup invariant.nodup
  numbered := by
    obtain ⟨count, numbered, enough⟩ := invariant.numbered
    have length := subperm.length_le
    exact ⟨count, numbered, by omega⟩

theorem Invariant.shrink {pruned : TxMarker → Prop}
    (readyInvariant : after.readyTransactions.Invariant (budget ≤ 2 ^ 64) fun _ => False)
    (pendingInvariant : after.pendingTransactions.Invariant)
    (shrinks : Shrinks pruned pool.readyTransactions after.readyTransactions)
    (kept : ∀ {hash tx}, after.pendingTransactions.waitingQueue.lookup hash = some tx →
      pool.pendingTransactions.waitingQueue.lookup hash = some tx) :
    after.Invariant inFlight budget where
  ready := readyInvariant
  pending := pendingInvariant
  disjoint := by
    intro hash isReady isWaiting
    obtain ⟨tx, found⟩ := mem_iff_exists_lookup.mp isWaiting
    apply invariant.disjoint (shrinks.mem isReady)
    exact mem_of_lookup (kept found)
  missing := by
    intro hash tx marker found isMissing provided
    apply invariant.missing (kept found) isMissing
    exact shrinks.mem_providedMarkers invariant.ready readyInvariant provided
  complete := invariant.complete
  apart := by
    intro tx member
    obtain ⟨unready, unwaiting⟩ := invariant.apart member
    refine ⟨fun isReady => unready (shrinks.mem isReady), ?_⟩
    intro isWaiting
    obtain ⟨waiting, found⟩ := mem_iff_exists_lookup.mp isWaiting
    apply unwaiting
    exact mem_of_lookup (kept found)
  nodup := invariant.nodup
  numbered := by
    obtain ⟨count, numbered, enough⟩ := invariant.numbered
    refine ⟨count, numbered.shrinks shrinks, ?_⟩
    have size : after.pendingTransactions.waitingQueue.size ≤
        pool.pendingTransactions.waitingQueue.size := by
      apply size_le
      intro hash tx found
      exact mem_of_lookup (kept found)
    omega

end Invariant

/-- The rounds of `add_ready_transaction` after the first one. -/
inductive Promotions (budget : ℕ) :
    PoolInner → List PendingPoolTransaction → AddedReady → PoolInner → AddedReady → Prop
  | done {pool : PoolInner} {ready : AddedReady} :
      Promotions budget pool [] ready pool ready
  | round {pool middle after : PoolInner} {tx : PendingPoolTransaction}
      {queue unlocked : List PendingPoolTransaction}
      {ready outcome : AddedReady}
      {added : Except PoolError (List PoolTransaction)}
      (promotes : pool.Promotes budget tx.transaction middle unlocked added)
      (later : Promotions budget middle (queue ++ unlocked)
        (ready.record tx.transaction.hash added) after outcome) :
      Promotions budget pool (tx :: queue) ready after outcome

/-- `add_ready_transaction`: the transaction is underpriced, or it enters the
ready queue and the transactions that waited for it are promoted. -/
inductive Enqueues (pool : PoolInner) (budget : ℕ) (tx : PendingPoolTransaction) :
    PoolInner → Except PoolError AddedTransaction → Prop
  | underpriced : Enqueues pool budget tx pool
      (.error (.replacementUnderpriced tx.transaction.hash))
  | ready {middle after : PoolInner}
      {unlocked : List PendingPoolTransaction}
      {replacedTx : List PoolTransaction} {outcome : AddedReady}
      (promotes : pool.Promotes budget tx.transaction middle unlocked (.ok replacedTx))
      (promotions : Promotions budget middle unlocked
        { hash := tx.transaction.hash
          promoted := []
          discarded := []
          removed := replacedTx } after outcome) :
      Enqueues pool budget tx after (.ok (.ready outcome))

variable {tx : PendingPoolTransaction} {outcome ready : AddedReady}
  (order : HashOrder)

variable {rest : List PendingPoolTransaction}

section Promotion

variable {pool after middle : PoolInner} {budget : ℕ} {queue : List PendingPoolTransaction}

section

variable {unlocked : List PendingPoolTransaction} {added : Except PoolError (List PoolTransaction)}
  (promotes : pool.Promotes budget tx.transaction middle unlocked added)

include promotes

theorem Promotes.invariant_append (invariant : pool.Invariant ((tx :: queue) ++ rest) budget) :
    middle.Invariant ((queue ++ unlocked) ++ rest) budget := by
  rw [cons_append] at invariant
  apply (promotes.invariant invariant).subperm
  apply Perm.subperm
  rw [append_assoc, append_assoc]
  exact Perm.append_left queue perm_append_comm

theorem Promotes.invariant_nil (invariant : pool.Invariant (tx :: rest) budget) :
    middle.Invariant (unlocked ++ rest) budget := by
  have single : pool.Invariant ([tx] ++ rest) budget := invariant
  exact promotes.invariant_append single

end

/-- What every round keeps holds in the end. -/
theorem Promotions.induction (promotions : Promotions budget pool queue ready after outcome)
    (invariant : pool.Invariant (queue ++ rest) budget)
    {motive : PoolInner → List PendingPoolTransaction → AddedReady → Prop}
    (start : motive pool queue ready)
    (round : ∀ {pool middle tx queue unlocked ready added},
      pool.Invariant ((tx :: queue) ++ rest) budget →
      pool.Promotes budget tx.transaction middle unlocked added →
      motive pool (tx :: queue) ready →
      motive middle (queue ++ unlocked) (ready.record tx.transaction.hash added)) :
    after.Invariant rest budget ∧ motive after [] outcome := by
  induction promotions with
  | done => exact ⟨invariant, start⟩
  | round promotes later ih =>
    exact ih (promotes.invariant_append invariant) (round invariant promotes start)

/-- The loop of `add_ready_transaction` ends without a panic once the new
transaction is ready. -/
theorem addReadyLoop_eq_ok (fuel : ℕ) (queue : List PendingPoolTransaction)
    (invariant : pool.Invariant (queue ++ rest) budget)
    (enough : queue.length + pool.pendingTransactions.waitingQueue.size ≤ fuel)
    (ready : AddedReady) :
    ∃ after outcome, addReadyLoop order fuel pool queue false ready = .ok (after, .ok outcome) ∧
      Promotions budget pool queue ready after outcome := by
  induction fuel, queue using Loop.worklist generalizing pool ready with
  | nil fuel => exact ⟨pool, ready, by rw [addReadyLoop], .done⟩
  | zero tx queue => simp at enough
  | succ fuel tx queue ih =>
    rw [length_cons] at enough
    obtain ⟨pending, unlocked, readyTxs, added, marked, inserted,
      promotes⟩ := Invariant.promotes invariant order
    have size := promotes.pending.size
    obtain ⟨after, outcome, looped, later⟩ := ih
      (queue ++ unlocked) (promotes.invariant_append invariant)
      (by
        rw [length_append]
        omega) (ready.record tx.transaction.hash added)
    refine ⟨after, outcome, ?_, .round promotes later⟩
    simp only [addReadyLoop, marked, inserted, Except.bind]
    cases added <;> exact looped

/-- The new transaction is not replaced by one that waited for it. -/
theorem Promotions.rooted {root : PoolTransaction}
    (promotions : Promotions budget pool queue ready after outcome)
    (invariant : pool.Invariant (queue ++ rest) budget)
    (rooted : Rooted root pool queue ready.removed) :
    Rooted root after [] outcome.removed := by
  apply (promotions.induction invariant
    (motive := fun pool queue ready => Rooted root pool queue ready.removed)
    rooted _).2
  intro pool middle tx queue unlocked ready added invariant promotes rooted
  rw [AddedReady.removed_record]
  exact rooted.promotes invariant promotes

/-- `add_ready_transaction` never panics and never returns
`CyclicTransaction`. -/
theorem Invariant.enqueues (invariant : pool.Invariant (tx :: rest) budget) (order : HashOrder) :
    ∃ after outcome, pool.addReadyTransaction order tx = .ok (after, outcome) ∧
      pool.Enqueues budget tx after outcome := by
  obtain ⟨pending, unlocked, ready, added, marked, inserted, promotes⟩ :=
    Invariant.promotes invariant order
  rcases promotes.ready with ⟨rfl, same, _⟩ | ⟨_, _, replacedTx, rfl, _⟩
  · refine ⟨pool, _, ?_, .underpriced⟩
    simp only [addReadyTransaction, addReadyLoop, marked, inserted, Except.bind, if_true, same]
  have size := promotes.pending.size
  have later := promotes.invariant_nil invariant
  obtain ⟨after, outcome, looped, promotions⟩ := addReadyLoop_eq_ok order
    pool.pendingTransactions.waitingQueue.size unlocked later (by omega)
    { hash := tx.transaction.hash, promoted := [], discarded := [], removed := replacedTx }
  refine ⟨after, .ok (.ready outcome), ?_, .ready promotes promotions⟩
  have acyclic : (outcome.removed.any fun removed =>
      removed.hash = tx.transaction.hash) = false := by
    rw [any_eq_false]
    intro removed member
    simpa using (promotions.rooted later (promotes.rooted invariant)).kept member
  simp only [addReadyTransaction, addReadyLoop, marked, inserted,
    Except.bind, if_true, nil_append] at looped ⊢
  simp only [looped, acyclic]
  rfl

theorem Enqueues.invariant {outcome : Except PoolError AddedTransaction}
    (enqueues : pool.Enqueues budget tx after outcome)
    (invariant : pool.Invariant (tx :: rest) budget) :
    after.Invariant rest budget := by
  cases enqueues with
  | underpriced => exact invariant.subperm (sublist_cons_self tx rest).subperm
  | ready promotes promotions =>
    exact (promotions.induction (promotes.invariant_nil invariant)
      (motive := fun _ _ _ => True) trivial fun _ _ _ => trivial).1

theorem Enqueues.mem_readyTx {added : AddedTransaction}
    (enqueues : pool.Enqueues budget tx after (.ok added))
    (invariant : pool.Invariant (tx :: rest) budget) :
    tx.transaction.hash ∈ after.readyTransactions.readyTx := by
  generalize same : Except.ok added = outcome at enqueues
  cases enqueues with
  | underpriced => cases same
  | ready promotes promotions =>
    obtain ⟨found, stored, _⟩ := (promotions.rooted
      (promotes.invariant_nil invariant) (promotes.rooted invariant)).stored
    exact mem_of_lookup stored

variable {tx : PoolTransaction}

theorem missingMarkers_new (shaped : RpcShaped tx) (provided : HashMap TxMarker TxHash) :
    ((new tx provided).missingMarkers = [] ∧ ∀ marker ∈ tx.requires, marker ∈ provided) ∨
    ∃ marker, tx.requires = [marker] ∧ marker ∉ provided ∧
      (new tx provided).missingMarkers = [marker] := by
  unfold new
  rcases shaped.requires with nothing | ⟨_, requires⟩
  · left
    rw [nothing]
    exact ⟨rfl, fun marker none => absurd none not_mem_nil⟩
  rw [requires]
  by_cases isProvided : toMarker (tx.nonce - 1) tx.sender ∈ provided
  · left
    simp only [mem_singleton, forall_eq]
    refine ⟨?_, isProvided⟩
    rw [filter_cons_of_neg (by simpa using isProvided)]
    rfl
  right
  refine ⟨_, rfl, isProvided, ?_⟩
  rw [filter_cons_of_pos (by simpa using isProvided)]
  rfl

/-- `add_transaction`: the transaction is in the pool already, enters the
ready queue, or waits for the marker that it misses. -/
inductive Adds (pool : PoolInner) (budget : ℕ) (tx : PoolTransaction) :
    PoolInner → Except PoolError AddedTransaction → Prop
  | imported : Adds pool budget tx pool (.error (.alreadyImported tx.hash))
  | ready {after : PoolInner} {outcome : Except PoolError AddedTransaction}
      (provided : ∀ marker ∈ tx.requires, marker ∈ pool.readyTransactions.providedMarkers)
      (invariant : pool.Invariant [new tx pool.readyTransactions.providedMarkers] budget)
      (enqueues : pool.Enqueues budget (new tx
        pool.readyTransactions.providedMarkers) after outcome) :
      Adds pool budget tx after outcome
  | underpriced : Adds pool budget tx pool
      (.error (.replacementUnderpriced tx.hash))
  | waits {pending : PendingTransactions}
      (unprovided : ∃ marker ∈ tx.requires, marker ∉ pool.readyTransactions.providedMarkers)
      (unwaiting : tx.hash ∉ pool.pendingTransactions.waitingQueue)
      (adds : pool.pendingTransactions.Adds (new tx
        pool.readyTransactions.providedMarkers) pending) :
      Adds pool budget tx { pool with pendingTransactions := pending } (.ok (.pending tx.hash))

theorem Invariant.adds (invariant : pool.Invariant [] budget)
    (order : HashOrder) (shaped : RpcShaped tx) :
    ∃ after outcome, pool.addTransaction order tx = .ok (after, outcome) ∧
      pool.Adds (budget + 1) tx after outcome ∧
      after.Invariant [] (budget + 1) := by
  have wider := invariant.budget_le (Nat.le_succ budget)
  obtain ⟨count, numbered, enough⟩ := invariant.numbered
  unfold addTransaction
  by_cases contained : pool.contains tx.hash
  · rw [if_pos contained]
    exact ⟨pool, _, rfl, .imported, wider⟩
  rw [if_neg contained]
  simp only [contains, decide_eq_true_eq, not_or] at contained
  obtain ⟨unwaiting, unready⟩ := contained
  have newShaped : RpcShaped (new tx pool.readyTransactions.providedMarkers).transaction := shaped
  rcases missingMarkers_new shaped pool.readyTransactions.providedMarkers with
    ⟨complete, provided⟩ | ⟨marker, requires, unprovided, missing⟩
  · simp only [isReady, complete, isEmpty_nil, if_true]
    have flying : pool.Invariant [new tx pool.readyTransactions.providedMarkers] (budget + 1) := by
      refine
        { wider with
          complete := ?_
          apart := ?_
          nodup := nodup_singleton _
          numbered := ⟨count, numbered, ?_⟩ }
      · intro pendingTx member
        rw [mem_singleton.mp member]
        exact ⟨shaped, complete⟩
      · intro pendingTx member
        rw [mem_singleton.mp member]
        exact ⟨unready, unwaiting⟩
      · rw [length_singleton]
        omega
    obtain ⟨after, outcome, added, enqueues⟩ := flying.enqueues order
    exact ⟨after, outcome, added, .ready provided flying enqueues, enqueues.invariant flying⟩
  simp only [isReady, missing, isEmpty_cons, Bool.false_eq_true, if_false]
  rcases addTransaction_eq_ok invariant.pending newShaped requires missing unwaiting with
    failed | ⟨pending, added, pendingInvariant, adds⟩
  · rw [failed]
    exact ⟨pool, _, rfl, .underpriced, wider⟩
  rw [added]
  have queue : pending.waitingQueue = pool.pendingTransactions.waitingQueue.insert tx.hash _ :=
    adds.queue
  refine ⟨{ pool with pendingTransactions := pending }, _, rfl,
    .waits ⟨marker, by simp [requires], unprovided⟩ unwaiting adds,
    { ready := wider.ready
      pending := pendingInvariant
      disjoint := ?_
      missing := ?_
      complete := fun none => absurd none not_mem_nil
      apart := fun none => absurd none not_mem_nil
      nodup := nodup_nil
      numbered := ⟨count, numbered, ?_⟩ }⟩
  · intro hash isReady isWaiting
    rw [queue, mem_insert] at isWaiting
    rcases isWaiting with rfl | isWaiting
    · exact unready isReady
    · exact invariant.disjoint isReady isWaiting
  · intro hash waiting other found isMissing
    rw [queue] at found
    obtain ⟨_, rfl⟩ | ⟨_, found⟩ := lookup_of_insert found
    · rw [missing, mem_singleton] at isMissing
      rw [isMissing]
      exact unprovided
    · exact invariant.missing found isMissing
  · rw [queue, size_insert _ unwaiting]
    omega

end Promotion

/-- One round of the first loop of `prune_markers`. -/
structure Prunes (pool : PoolInner) (budget : ℕ) (marker : TxMarker)
    (after : PoolInner) (unlocked : List PendingPoolTransaction)
    (removed : List PoolTransaction) : Prop where
  pendingInvariant : after.pendingTransactions.Invariant
  readyInvariant : after.readyTransactions.Invariant (budget ≤ 2 ^ 64) fun _ => False
  pending : PendingTransactions.Unlocks marker pool.pendingTransactions
    after.pendingTransactions unlocked
  ready : Shrinks (· = marker) pool.readyTransactions after.readyTransactions
  reports : Reports pool.readyTransactions after.readyTransactions removed
  unprovided : marker ∉ after.readyTransactions.providedMarkers

/-- The first loop of `prune_markers`. -/
inductive Prunings (budget : ℕ) : List TxMarker → PoolInner →
    List PendingPoolTransaction → List PoolTransaction → PoolInner →
      List PendingPoolTransaction → List PoolTransaction → Prop
  | done {pool : PoolInner} {inFlight : List PendingPoolTransaction}
      {pruned : List PoolTransaction} :
      Prunings budget [] pool inFlight pruned pool inFlight pruned
  | round {pool middle after : PoolInner} {marker : TxMarker}
      {markers : List TxMarker}
      {inFlight unlocked imports : List PendingPoolTransaction}
      {pruned removed all : List PoolTransaction}
      (prunes : pool.Prunes budget marker middle unlocked removed)
      (later : Prunings budget markers middle (inFlight ++ unlocked)
        (pruned ++ removed) after imports all) :
      Prunings budget (marker :: markers) pool inFlight pruned after imports all

/-- The second loop of `prune_markers`. -/
inductive Imports (budget : ℕ) : List PendingPoolTransaction → PoolInner →
    PruneResult → PoolInner → PruneResult → Prop
  | done {pool : PoolInner} {result : PruneResult} :
      Imports budget [] pool result pool result
  | round {pool middle after : PoolInner} {tx : PendingPoolTransaction}
      {inFlight : List PendingPoolTransaction}
      {result outcome : PruneResult}
      {added : Except PoolError AddedTransaction}
      (enqueues : pool.Enqueues budget tx middle added)
      (later : Imports budget inFlight middle
        (result.record tx.transaction.hash added) after outcome) :
      Imports budget (tx :: inFlight) pool result after outcome

variable {inFlight : List PendingPoolTransaction}

section Pruning

variable {pool after : PoolInner} {markers : List TxMarker}

variable {budget : ℕ}

theorem Prunes.invariant {marker : TxMarker} {unlocked : List PendingPoolTransaction}
    {removed : List PoolTransaction}
    (prunes : pool.Prunes budget marker after unlocked removed)
    (invariant : pool.Invariant inFlight budget) :
    after.Invariant (inFlight ++ unlocked) budget := by
  apply invariant.advance prunes.readyInvariant prunes.pendingInvariant
    prunes.pending (Sublist.refl inFlight)
  · intro hash isReady
    exact .inl (prunes.ready.mem isReady)
  · intro other provided
    exact .inl (prunes.ready.mem_providedMarkers invariant.ready prunes.readyInvariant provided)
  · obtain ⟨count, numbered, enough⟩ := invariant.numbered
    exact ⟨count, numbered.shrinks prunes.ready, enough⟩

theorem Invariant.pruneMarker_eq_ok (invariant : pool.Invariant inFlight budget) (order : HashOrder)
    (marker : TxMarker) (imports : List PendingPoolTransaction)
    (pruned : List PoolTransaction) :
    ∃ after unlocked removed, pruneMarker order (pool, imports, pruned) marker =
        .ok (after, imports ++ unlocked, pruned ++ removed) ∧
      pool.Prunes budget marker after unlocked removed := by
  obtain ⟨pending, unlocked, marked, pendingInvariant, unlocks⟩ :=
    markAndUnlock_eq_ok invariant.pending order marker
  obtain ⟨ready, removed, pruned, readyInvariant, shrinks, reports,
    unprovided⟩ := pruneTags_eq_ok invariant.ready marker
  refine ⟨⟨ready, pending⟩, unlocked, removed, ?_,
    { pendingInvariant := pendingInvariant
      readyInvariant := readyInvariant
      pending := unlocks
      ready := shrinks
      reports := reports
      unprovided := unprovided marker mem_cons_self }⟩
  simp only [pruneMarker, marked, pruned, Except.bind, Except.map]

theorem foldlM_pruneMarker_eq_ok (order : HashOrder)
    (markers : List TxMarker) (invariant : pool.Invariant inFlight budget)
    (pruned : List PoolTransaction) :
    ∃ after imports all,
      markers.foldlM (pruneMarker order) (pool, inFlight, pruned) = .ok (after, imports, all) ∧
      Prunings budget markers pool inFlight pruned after imports all := by
  induction markers generalizing pool inFlight pruned with
  | nil => exact ⟨pool, inFlight, pruned, rfl, .done⟩
  | cons marker markers ih =>
    obtain ⟨middle, unlocked, removed, step, prunes⟩ :=
      invariant.pruneMarker_eq_ok order marker inFlight pruned
    obtain ⟨after, imports, all, looped, later⟩ := ih
      (prunes.invariant invariant) (pruned ++ removed)
    refine ⟨after, imports, all, ?_, .round prunes later⟩
    rw [Except.foldlM_cons_eq, step]
    exact looped

/-- What every round keeps holds in the end. -/
theorem Prunings.induction {imports : List PendingPoolTransaction}
    {pruned all : List PoolTransaction}
    (prunings : Prunings budget markers pool inFlight pruned after imports
      all) (invariant : pool.Invariant inFlight budget)
    {motive : PoolInner → List PendingPoolTransaction → List PoolTransaction → Prop}
    (start : motive pool inFlight pruned)
    (round : ∀ {pool middle marker inFlight unlocked pruned removed},
      marker ∈ markers → pool.Invariant inFlight budget →
      pool.Prunes budget marker middle unlocked removed →
      motive pool inFlight pruned →
      motive middle (inFlight ++ unlocked) (pruned ++ removed)) :
    after.Invariant imports budget ∧ motive after imports all := by
  induction prunings with
  | done => exact ⟨invariant, start⟩
  | round prunes later ih =>
    exact ih (prunes.invariant invariant) (round mem_cons_self invariant prunes start)
      fun listed => round (mem_cons_of_mem _ listed)

theorem foldlM_importTransaction_eq_ok
    (invariant : pool.Invariant inFlight budget) (result : PruneResult) :
    ∃ after outcome,
      inFlight.foldlM (importTransaction order) (pool, result) = .ok (after, outcome) ∧
      Imports budget inFlight pool result after outcome := by
  induction inFlight generalizing pool result with
  | nil => exact ⟨pool, result, rfl, .done⟩
  | cons tx inFlight ih =>
    obtain ⟨middle, added, step, enqueues⟩ := invariant.enqueues order
    obtain ⟨after, outcome, looped, later⟩ := ih (enqueues.invariant invariant)
      (result.record tx.transaction.hash added)
    refine ⟨after, outcome, ?_, .round enqueues later⟩
    rw [Except.foldlM_cons_eq, importTransaction, step]
    cases added <;> exact looped

/-- What every import keeps holds in the end. -/
theorem Imports.induction {result outcome : PruneResult}
    (imports : Imports budget inFlight pool result after outcome)
    (invariant : pool.Invariant inFlight budget)
    {motive : PoolInner → List PendingPoolTransaction → PruneResult → Prop}
    (start : motive pool inFlight result)
    (round : ∀ {pool middle tx inFlight result added}, pool.Invariant (tx :: inFlight) budget →
      pool.Enqueues budget tx middle added →
      motive pool (tx :: inFlight) result →
      motive middle inFlight (result.record tx.transaction.hash added)) :
    after.Invariant [] budget ∧ motive after [] outcome := by
  induction imports with
  | done => exact ⟨invariant, start⟩
  | round enqueues later ih =>
    exact ih (enqueues.invariant invariant) (round invariant enqueues start)

theorem Invariant.pruneMarkers_eq_ok (invariant : pool.Invariant [] budget)
    (order : HashOrder) (markers : List TxMarker) :
    ∃ middle imported pruned after outcome, pool.pruneMarkers order markers = .ok (after, outcome) ∧
      Prunings budget markers pool [] [] middle imported pruned ∧
      middle.Invariant imported budget ∧
      Imports budget imported middle
        { promoted := []
          failed := []
          pruned := pruned } after outcome := by
  obtain ⟨middle, imported, pruned, marked, prunings⟩ :=
    foldlM_pruneMarker_eq_ok order markers invariant []
  obtain ⟨middleInvariant, _⟩ := prunings.induction invariant
    (motive := fun _ _ _ => True) trivial fun _ _ _ _ => trivial
  obtain ⟨after, outcome, looped, imports⟩ := foldlM_importTransaction_eq_ok order middleInvariant
    { promoted := [], failed := [], pruned := pruned }
  refine ⟨middle, imported, pruned, after, outcome, ?_, prunings, middleInvariant, imports⟩
  rw [pruneMarkers, marked]
  exact looped

end Pruning

/-- `remove_invalid`: the listed transactions left both queues, together with
the ready ones that they unlock. -/
structure Discards (pool : PoolInner) (budget : ℕ) (txHashes : List TxHash)
    (after : PoolInner) (gone removedPending : List PoolTransaction) :
    Prop where
  readyInvariant : after.readyTransactions.Invariant (budget ≤ 2 ^ 64) fun _ => False
  ready : Shrinks (fun _ => False) pool.readyTransactions after.readyTransactions
  cascades : Cascades pool.readyTransactions txHashes.reverse after.readyTransactions gone
  rooted : ReadyTransactions.Rooted pool.readyTransactions txHashes.reverse
    after.readyTransactions gone
  pending : pool.pendingTransactions.Removes txHashes after.pendingTransactions removedPending

variable {removedPending gone : List PoolTransaction} {txHashes : List TxHash}

section Removing

variable {pool after : PoolInner} {budget : ℕ}

section

variable (discards : pool.Discards budget txHashes after gone removedPending)

include discards

theorem Discards.kept {hash : TxHash}
    (found : after.pendingTransactions.waitingQueue.lookup hash = some tx) :
    pool.pendingTransactions.waitingQueue.lookup hash = some tx := by
  rw [discards.pending.queue, lookup_eraseAll] at found
  split at found
  · cases found
  · exact found

theorem Discards.invariant (invariant : pool.Invariant [] budget) : after.Invariant [] budget :=
  invariant.shrink discards.readyInvariant discards.pending.invariant discards.ready discards.kept

end

/-- `drop_transaction` leaves the waiting queue as it is. -/
structure Drops (pool : PoolInner) (budget : ℕ) (after : PoolInner) : Prop where
  readyInvariant : after.readyTransactions.Invariant (budget ≤ 2 ^ 64) fun _ => False
  ready : Shrinks (fun _ => False) pool.readyTransactions after.readyTransactions
  pending : after.pendingTransactions = pool.pendingTransactions

section

variable (invariant : pool.Invariant [] budget)

include invariant

theorem Invariant.removeInvalid_eq_ok (txHashes : List TxHash) :
    ∃ after gone removedPending, pool.removeInvalid txHashes = .ok (after, gone ++ removedPending) ∧
      pool.Discards budget txHashes after gone removedPending := by
  unfold removeInvalid
  split
  · rename_i nothing
    rw [isEmpty_iff.mp nothing]
    refine ⟨pool, [], [], rfl, invariant.ready, invariant.ready.shrinks_refl,
      .nil _, .nil _, invariant.pending, rfl, fun tracked => tracked, ?_⟩
    simp
  obtain ⟨ready, gone, looped, readyInvariant, shrinks, cascades, rooted⟩ :=
    removeWithMarkers_eq_ok invariant.ready txHashes
  refine ⟨_, gone, _, by rw [looped]; rfl, readyInvariant, shrinks, cascades, rooted, ?_⟩
  exact remove_removes invariant.pending txHashes

theorem Invariant.removeTransactionsByAddress_eq_ok (sender : Address) :
    ∃ txHashes after gone removedPending,
      pool.removeTransactionsByAddress order sender = .ok (after, gone ++ removedPending) ∧
      pool.Discards budget txHashes after gone removedPending := by
  obtain ⟨txs, drained, _⟩ := invariant.ready.drain_getTransactions
    (Nat.lt_succ_self pool.readyTransactions.readyTx.size)
  have listed : ∃ txs, pool.transactionsBySender order sender = .ok txs := by
    rw [transactionsBySender, drained]
    exact ⟨_, rfl⟩
  obtain ⟨txs, listed⟩ := listed
  rw [removeTransactionsByAddress, listed]
  exact ⟨_, invariant.removeInvalid_eq_ok _⟩

theorem Invariant.dropTransaction_eq_ok (tx : TxHash) :
    ∃ after dropped, pool.dropTransaction tx = .ok (after, dropped) ∧ pool.Drops budget after := by
  obtain ⟨ready, gone, looped, readyInvariant, shrinks, _⟩ :=
    removeWithMarkers_eq_ok invariant.ready [tx]
  refine ⟨{ pool with readyTransactions := ready },
    gone.find? (·.hash = tx), ?_, readyInvariant, shrinks, rfl⟩
  rw [dropTransaction, looped]
  rfl

theorem Invariant.clear : pool.clear.Invariant [] budget where
  ready := clear_invariant pool.readyTransactions _
  pending := empty_invariant
  disjoint := by
    intro hash isReady
    exact absurd isReady (notMem_empty hash)
  missing := by nofun
  complete := invariant.complete
  apart none := absurd none not_mem_nil
  nodup := nodup_nil
  numbered := by
    obtain ⟨count, numbered, enough⟩ := invariant.numbered
    refine ⟨count, ⟨numbered.id, ?_⟩, ?_⟩
    · nofun
    · change count + 0 + 0 ≤ budget
      omega

end

theorem Drops.invariant (drops : pool.Drops budget after)
    (invariant : pool.Invariant [] budget) : after.Invariant [] budget := by
  apply invariant.shrink drops.readyInvariant _ drops.ready
  · intro hash tx found
    rw [drops.pending] at found
    exact found
  · rw [drops.pending]
    exact invariant.pending

end Removing

/-- A property of the pool and the transactions in flight that the parts of the
operations keep. -/
structure Keeping (budget : ℕ) (Keeps : PoolInner → List PendingPoolTransaction → Prop) : Prop where
  subset : ∀ {pool inFlight fewer}, Keeps pool inFlight →
    (∀ tx ∈ fewer, tx ∈ inFlight) → Keeps pool fewer
  promotes : ∀ {pool tx rest after unlocked added},
    pool.Invariant (tx :: rest) budget → Keeps pool (tx :: rest) →
    pool.Promotes budget tx.transaction after unlocked added →
    Keeps after (rest ++ unlocked)
  shrinks : ∀ {pool after}, pool.Invariant [] budget → Keeps pool [] →
    Shrinks (fun _ => False) pool.readyTransactions after.readyTransactions →
    (∀ {hash tx}, after.pendingTransactions.waitingQueue.lookup hash = some tx →
      pool.pendingTransactions.waitingQueue.lookup hash = some tx) →
    (pool.pendingTransactions.Tracked → after.pendingTransactions.Tracked) →
    Keeps after []

section Keeping

variable {Keeps : PoolInner → List PendingPoolTransaction → Prop} {pool after : PoolInner}
  {budget : ℕ} (keeping : Keeping budget Keeps)

include keeping

theorem Keeping.promotions {queue : List PendingPoolTransaction}
    (promotions : Promotions budget pool queue ready after outcome)
    (invariant : pool.Invariant (queue ++ rest) budget)
    (keeps : Keeps pool (queue ++ rest)) : Keeps after rest := by
  refine (promotions.induction invariant
    (motive := fun pool queue _ => Keeps pool (queue ++ rest)) keeps ?_).2
  intro pool middle tx queue unlocked ready added invariant promotes keeps
  rw [cons_append] at invariant keeps
  apply keeping.subset (keeping.promotes invariant keeps promotes)
  intro other member
  simp only [mem_append] at member ⊢
  exact or_right_comm.mp member

theorem Keeping.enqueues {outcome : Except PoolError AddedTransaction}
    (enqueues : pool.Enqueues budget tx after outcome)
    (invariant : pool.Invariant (tx :: rest) budget)
    (keeps : Keeps pool (tx :: rest)) : Keeps after rest := by
  cases enqueues with
  | underpriced => exact keeping.subset keeps fun _ => mem_cons_of_mem tx
  | ready promotes promotions =>
    apply keeping.promotions promotions (promotes.invariant_nil invariant)
    apply keeping.subset (keeping.promotes invariant keeps promotes)
    intro other member
    rw [mem_append] at member ⊢
    exact member.symm

theorem Keeping.imports {result outcome : PruneResult}
    (imports : Imports budget inFlight pool result after outcome)
    (invariant : pool.Invariant inFlight budget) (keeps : Keeps pool inFlight) :
    after.Invariant [] budget ∧ Keeps after [] := by
  apply imports.induction invariant (motive := fun pool inFlight _ => Keeps pool inFlight) keeps
  intro pool middle tx inFlight result added invariant enqueues keeps
  exact keeping.enqueues enqueues invariant keeps

theorem Keeping.discards (discards : pool.Discards budget txHashes after gone removedPending)
    (invariant : pool.Invariant [] budget) (keeps : Keeps pool []) :
    Keeps after [] :=
  keeping.shrinks invariant keeps discards.ready discards.kept discards.pending.tracked

theorem Keeping.drops (drops : pool.Drops budget after)
    (invariant : pool.Invariant [] budget) (keeps : Keeps pool []) :
    Keeps after [] := by
  apply keeping.shrinks invariant keeps drops.ready
  · rw [drops.pending]
    exact fun found => found
  · rw [drops.pending]
    exact fun tracked => tracked

end Keeping

end PoolInner

end SwissledgerFoundry.Pool
