import SwissledgerFoundry.Mining.Executor
import SwissledgerFoundry.Pool.Operations

/-!
# The pool after a mined block

Once a block was mined, no transaction of the pool waits for a marker of the
block, and unless one was promoted, every ready transaction was ready before.
-/

namespace SwissledgerFoundry

open List AList

namespace Pool.PoolInner

variable {pool after : PoolInner}

variable {budget : ℕ}

theorem keeping_waiting {allowed : TxHash → PendingPoolTransaction → Prop} :
    Keeping budget fun pool _ => ∀ {hash tx},
      pool.pendingTransactions.waitingQueue.lookup hash = some tx →
      allowed hash tx where
  subset keeps _ := keeps
  promotes _ keeps promotes _ _ found := keeps (promotes.pending.kept.mp found).1
  shrinks _ keeps _ kept _ _ _ found := keeps (kept found)

/-- Every import that succeeds is reported as ready. -/
theorem Imports.promoted_eq_ready {inFlight : List PendingPoolTransaction}
    {result outcome : PruneResult}
    (imports : Imports budget inFlight pool result after outcome)
    (invariant : pool.Invariant inFlight budget)
    (readyBefore : ∀ added ∈ result.promoted, ∃ ready, added = .ready ready) :
    ∀ added ∈ outcome.promoted, ∃ ready, added = .ready ready := by
  refine (imports.induction invariant (motive := fun _ _ result => ∀ added ∈ result.promoted,
      ∃ ready, added = .ready ready) readyBefore ?_).2
  intro pool middle tx inFlight result added _ enqueues ready
  cases enqueues with
  | underpriced => exact ready
  | ready promotes promotions =>
    exact forall_mem_append.mpr ⟨ready, forall_mem_singleton.mpr ⟨_, rfl⟩⟩

/-- Without a successful import the pool stays as it is; otherwise one of the
imported transactions is ready. -/
theorem Imports.eq_or_exists {inFlight : List PendingPoolTransaction} {outcome : PruneResult}
    {pruned : List PoolTransaction}
    (imports : Imports budget inFlight pool
      { promoted := [], failed := [], pruned := pruned } after outcome)
    (invariant : pool.Invariant inFlight budget) :
    (outcome.promoted = [] ∧ after = pool) ∨ (outcome.promoted ≠ [] ∧ ∃ tx ∈ inFlight,
        tx.transaction.hash ∈ after.readyTransactions.readyTx) := by
  have finish := (imports.induction invariant
    (motive := fun middle rest result => (∀ tx ∈ rest, tx ∈ inFlight) ∧
      ((result.promoted = [] ∧ middle = pool) ∨ (result.promoted ≠ [] ∧ ∃ tx ∈ inFlight,
          tx.transaction.hash ∈ middle.readyTransactions.readyTx)))
    ⟨fun _ member => member, .inl ⟨rfl, rfl⟩⟩ (by
      intro middle next tx rest result added invariant enqueues earlier
      obtain ⟨member, others⟩ := forall_mem_cons.mp earlier.1
      refine ⟨others, ?_⟩
      cases added with
      | ok added =>
        refine .inr ⟨?_, tx, member, enqueues.mem_readyTx invariant⟩
        exact append_ne_nil_of_right_ne_nil _ (cons_ne_nil _ _)
      | error error =>
        generalize same : Except.error error = failed at enqueues
        cases enqueues with
        | underpriced => exact earlier.2
        | ready promotes promotions => cases same)).2
  exact finish.2

end Pool.PoolInner

namespace Mining

open Pool PoolInner

/-- What the pool is after `on_mined_block`. -/
structure Settles (pool : PoolInner) (outcome : MinedBlockOutcome)
    (after : PoolInner) (result : PruneResult) : Prop where
  waiting : ∀ {hash tx}, after.pendingTransactions.waitingQueue.lookup hash = some tx →
    pool.pendingTransactions.waitingQueue.lookup hash = some tx ∧
      ∀ marker ∈ outcome.markers, marker ∉ tx.missingMarkers
  ready : result.promoted = [] → ∀ {hash tx},
    after.readyTransactions.readyTx.lookup hash = some tx →
    hash ∉ outcome.invalid.map (·.hash) ∧ (∀ marker ∈ outcome.markers, marker ∉ tx.tx.provides) ∧
      ∃ earlier, pool.readyTransactions.readyTx.lookup hash =
          some earlier ∧ tx.transaction = earlier.transaction
  promoted : ∀ added ∈ result.promoted, ∃ ready, added = .ready ready
  entered : result.promoted ≠ [] →
    ∃ hash ∈ after.readyTransactions.readyTx, hash ∈ pool.pendingTransactions.waitingQueue

variable {pool middle after : PoolInner} {budget : ℕ}

/-- The first loop of `prune_markers`. -/
structure PrunesAll (pool : PoolInner) (markers : List TxMarker)
    (inFlight : List PendingPoolTransaction) (after : PoolInner)
    (imported : List PendingPoolTransaction) : Prop where
  waiting : ∀ {hash tx}, after.pendingTransactions.waitingQueue.lookup hash = some tx →
    pool.pendingTransactions.waitingQueue.lookup hash = some tx ∧
      ∀ marker ∈ markers, marker ∉ tx.missingMarkers
  ready : ∀ {hash tx}, after.readyTransactions.readyTx.lookup hash = some tx →
    ∃ earlier, pool.readyTransactions.readyTx.lookup hash = some earlier ∧
      tx.transaction = earlier.transaction
  unprovided : ∀ marker ∈ markers, marker ∉ after.readyTransactions.providedMarkers
  imported : ∀ tx ∈ imported, tx ∈ inFlight ∨
    tx.transaction.hash ∈ pool.pendingTransactions.waitingQueue

variable {inFlight imported : List PendingPoolTransaction} {markers : List TxMarker}

theorem PrunesAll.mem_providedMarkers {marker : TxMarker}
    (prunes : PrunesAll pool markers inFlight after imported)
    (invariant : pool.Invariant inFlight budget)
    (later : after.Invariant imported budget)
    (provided : marker ∈ after.readyTransactions.providedMarkers) :
    marker ∈ pool.readyTransactions.providedMarkers := by
  obtain ⟨hash, found⟩ := mem_iff_exists_lookup.mp provided
  obtain ⟨tx, stored, provides⟩ := later.ready.provided.mp found
  obtain ⟨earlier, earlierStored, same⟩ := prunes.ready stored
  apply mem_iff_exists_lookup.mpr
  refine ⟨hash, invariant.ready.provided.mpr ⟨earlier, earlierStored, ?_⟩⟩
  rw [ReadyTransaction.tx, ← same]
  exact provides

theorem prunesAll_of_prunings {pruned all : List PoolTransaction}
    (prunings : Prunings budget markers pool inFlight pruned after imported
      all) (invariant : pool.Invariant inFlight budget) :
    PrunesAll pool markers inFlight after imported := by
  induction prunings with
  | done =>
    constructor
    · intro hash tx found
      exact ⟨found, fun _ none => nomatch none⟩
    · intro hash tx found
      exact ⟨tx, found, rfl⟩
    · nofun
    · intro tx member
      exact .inl member
  | @round pool middle after marker markers inFlight unlocked imports pruned
      removed all prunes later induction =>
      have middleInvariant := prunes.invariant invariant
      have rest := induction middleInvariant
      have afterInvariant := (later.induction middleInvariant
        (motive := fun _ _ _ => True) trivial fun _ _ _ _ => trivial).1
      constructor
      · intro hash tx found
        obtain ⟨kept, others⟩ := rest.waiting found
        obtain ⟨earlier, unmissed⟩ := prunes.pending.kept.mp kept
        exact ⟨earlier, forall_mem_cons.mpr ⟨unmissed, others⟩⟩
      · intro hash tx found
        obtain ⟨kept, stored, same⟩ := rest.ready found
        obtain ⟨earlier, earlierStored, sameEarlier, _⟩ := prunes.ready.entry stored
        exact ⟨earlier, earlierStored, same.trans sameEarlier⟩
      · refine forall_mem_cons.mpr ⟨?_, rest.unprovided⟩
        intro provided
        apply prunes.unprovided
        exact rest.mem_providedMarkers middleInvariant afterInvariant provided
      intro tx member
      rcases rest.imported tx member with flies | waits
      · rcases mem_append.mp flies with earlier | isUnlocked
        · exact .inl earlier
        · exact .inr (prunes.pending.mem_of_mem_unlocked isUnlocked).1
      · exact .inr (prunes.pending.mem_waitingQueue waits)

theorem onMinedBlock_eq_ok (invariant : pool.Invariant [] budget)
    (order : HashOrder) (outcome : MinedBlockOutcome) :
    ∃ after result, onMinedBlock order pool outcome = .ok (after, result) ∧
      after.Invariant [] budget ∧ Settles pool outcome after result := by
  obtain ⟨cleared, gone, removedPending, removed, discards⟩ :=
    invariant.removeInvalid_eq_ok (outcome.invalid.map (·.hash))
  have clearedInvariant := discards.invariant invariant
  obtain ⟨middle, imported, pruned, after, result, returned, prunings, middleInvariant, imports⟩ :=
    clearedInvariant.pruneMarkers_eq_ok order outcome.markers
  have prunes := prunesAll_of_prunings prunings clearedInvariant
  obtain ⟨afterInvariant, waiting⟩ := keeping_waiting.imports imports middleInvariant prunes.waiting
  refine ⟨after, result, ?_, afterInvariant, ?_, ?_, ?_, ?_⟩
  · rw [onMinedBlock, removed]
    exact returned
  · intro hash tx found
    obtain ⟨earlier, unmissed⟩ := waiting found
    exact ⟨discards.kept earlier, unmissed⟩
  · intro nothing hash tx found
    rcases imports.eq_or_exists middleInvariant with ⟨_, rfl⟩ | ⟨something, _⟩
    · obtain ⟨stored, clearedStored, same⟩ := prunes.ready found
      obtain ⟨earlier, earlierStored, sameEarlier, _⟩ := discards.ready.entry clearedStored
      refine ⟨?_, ?_, earlier, earlierStored, same.trans sameEarlier⟩
      · intro isInvalid
        apply discards.cascades.taken (mem_reverse.mpr isInvalid)
        exact mem_of_lookup clearedStored
      intro marker pruned provides
      apply prunes.unprovided marker pruned
      apply mem_iff_exists_lookup.mpr
      exact ⟨hash, afterInvariant.ready.provided.mpr ⟨tx, found, provides⟩⟩
    · exact absurd nothing something
  · exact imports.promoted_eq_ready middleInvariant fun _ none => nomatch none
  intro something
  rcases imports.eq_or_exists middleInvariant with ⟨nothing, _⟩ | ⟨_, tx, member, isReady⟩
  · exact absurd nothing something
  refine ⟨tx.transaction.hash, isReady, ?_⟩
  rcases prunes.imported tx member with none | waits
  · cases none
  · obtain ⟨waiting, found⟩ := mem_iff_exists_lookup.mp waits
    exact mem_of_lookup (discards.kept found)

end Mining

end SwissledgerFoundry
