import SwissledgerFoundry.Pool.Runs

/-!
# The nonce order of the ready transactions

The iterator respects the nonces of a sender if every ready transaction is
linked to the one with the nonce before.  A transaction whose provider was
pruned is not linked to a provider that enters the queue later.
-/

namespace SwissledgerFoundry.Pool

open List AList ReadyTransactions UInt64 Transition

theorem Precedes.irrefl {tx : PoolTransaction} : ¬ Precedes tx tx := by
  intro precedes
  have := precedes.nonce
  omega

variable {marker : TxMarker}

theorem RpcShaped.requires_of_precedes {first second : PoolTransaction}
    (shaped : RpcShaped second) (required : marker ∈ second.requires)
    (precedes : Precedes first second) :
    marker = toMarker first.nonce first.sender := by
  obtain ⟨positive, _, same⟩ := shaped.eq_of_mem_requires required
  rw [same, precedes.sender]
  congr 1
  apply UInt64.toNat_inj.mp
  have nonce := precedes.nonce
  rw [UInt64.toNat_sub_of_le _ _ (UInt64.le_iff_toNat_le.mpr ?_)]
  · simp only [toNat_one]
    omega
  · simp only [toNat_one]
    omega

namespace PoolInner

inductive Outside (pool : PoolInner)
    (inFlight : List PendingPoolTransaction) : PoolTransaction → Prop
  | waiting {hash : TxHash} {tx : PendingPoolTransaction}
      (found : pool.pendingTransactions.waitingQueue.lookup hash = some tx) :
      Outside pool inFlight tx.transaction
  | flying {tx : PendingPoolTransaction} (member : tx ∈ inFlight) :
      Outside pool inFlight tx.transaction

/-- Ready transactions of one sender with consecutive nonces are linked, and
none will have to be linked to a transaction that enters the queue later. -/
structure Ordered (pool : PoolInner) (inFlight : List PendingPoolTransaction) : Prop where
  linked : ∀ {first firstTx second secondTx},
    pool.readyTransactions.readyTx.lookup first = some firstTx →
    pool.readyTransactions.readyTx.lookup second = some secondTx →
    Precedes firstTx.tx secondTx.tx → second ∈ firstTx.unlocks
  outside : ∀ {tx ref}, Outside pool inFlight tx →
    ref ∈ pool.readyTransactions.independentTransactions →
    ¬ Precedes tx ref.transaction
  enters : ∀ {tx}, tx ∈ inFlight →
    (∃ marker ∈ tx.transaction.requires, marker ∈ pool.readyTransactions.providedMarkers) ∨
    (∀ {hash readyTx}, pool.readyTransactions.readyTx.lookup hash = some readyTx →
        ¬ Precedes readyTx.tx tx.transaction) ∧
      ∀ {other}, Outside pool inFlight other → ¬ Precedes other tx.transaction

variable {pool after : PoolInner} {budget : ℕ} {tx : PendingPoolTransaction}
  {inFlight rest : List PendingPoolTransaction}

variable {unlocked : List PendingPoolTransaction}

theorem Outside.of_unlocks {other : PoolTransaction}
    (unlocks : PendingTransactions.Unlocks marker pool.pendingTransactions
      after.pendingTransactions unlocked)
    (kept : ∀ tx ∈ rest, tx ∈ inFlight)
    (outside : Outside after (rest ++ unlocked) other) :
    Outside pool inFlight other := by
  cases outside with
  | waiting found => exact .waiting (unlocks.kept.mp found).1
  | @flying tx member =>
    rcases mem_append.mp member with isKept | taken
    · exact .flying (kept tx isKept)
    obtain ⟨_, waiting, found, same, _⟩ := unlocks.taken taken
    rw [← same]
    exact .waiting found

theorem Invariant.mem_independent_of_unprovided
    (invariant : pool.Invariant inFlight budget) (bounded : budget ≤ 2 ^ 64)
    {hash : TxHash} {readyTx : ReadyTransaction}
    (found : pool.readyTransactions.readyTx.lookup hash = some readyTx)
    (unprovided : ∀ marker ∈ readyTx.tx.requires, marker ∉ pool.readyTransactions.providedMarkers) :
    readyTx.transaction ∈ pool.readyTransactions.independentTransactions := by
  apply invariant.ready.counted bounded found
  by_contra waits
  obtain ⟨provider, providerTx, stored, member⟩ := invariant.ready.linked found not_false waits
  obtain ⟨_, _, marker, requires, provided⟩ := invariant.ready.listed found stored member
  apply unprovided marker
  · rw [requires]
    exact mem_singleton_self marker
  · exact mem_of_lookup provided

theorem Invariant.lookup_of_precedes (invariant : pool.Invariant inFlight budget) {hash : TxHash}
    {first : ReadyTransaction} {second : PoolTransaction}
    (found : pool.readyTransactions.readyTx.lookup hash = some first)
    (shaped : RpcShaped second) (precedes : Precedes first.tx second)
    (required : marker ∈ second.requires) :
    pool.readyTransactions.providedMarkers.lookup marker = some hash := by
  apply invariant.ready.provided.mpr
  refine ⟨first, found, ?_⟩
  rw [shaped.requires_of_precedes required precedes, (invariant.ready.shaped found).2.provides]
  exact mem_singleton_self _

variable {second : TxHash} {secondTx firstTx : ReadyTransaction}

section

variable (ordered : Ordered pool (tx :: rest))
  (invariant : pool.Invariant (tx :: rest) budget)

include ordered invariant

variable {base : ReadyTransactions} {inherited : List TxHash} {replacedTx : List PoolTransaction}

theorem Ordered.mem_inherited (bounded : budget ≤ 2 ^ 64)
    (replaces : Replaces pool.readyTransactions tx.transaction base inherited replacedTx)
    (found : pool.readyTransactions.readyTx.lookup second = some secondTx)
    (precedes : Precedes tx.transaction secondTx.tx) :
    second ∈ inherited := by
  obtain ⟨shaped, _⟩ := invariant.complete mem_cons_self
  cases replaces with
  | nothing unprovided =>
    have independent := invariant.mem_independent_of_unprovided bounded found (by
        intro marker required provided
        apply unprovided marker _ provided
        rw [(invariant.ready.shaped found).2.requires_of_precedes required
          precedes, shaped.provides]
        exact mem_singleton_self _)
    exact absurd precedes (ordered.outside (.flying mem_cons_self) independent)
  | @transaction old oldTx _ stored provides removed =>
    apply ordered.linked stored found
    rw [(invariant.ready.shaped stored).2.provides, shaped.provides] at provides
    obtain ⟨nonce, sender⟩ := toMarker_injective (singleton_injective provides)
    constructor
    · rw [sender]
      exact precedes.sender
    · rw [nonce]
      exact precedes.nonce

theorem Ordered.providerOf_eq {first : TxHash}
    (replaces : Replaces pool.readyTransactions tx.transaction base inherited replacedTx)
    (found : pool.readyTransactions.readyTx.lookup first = some firstTx)
    (precedes : Precedes firstTx.tx tx.transaction) :
    base.providerOf tx.transaction = some first := by
  obtain ⟨shaped, _⟩ := invariant.complete mem_cons_self
  rcases ordered.enters mem_cons_self with ⟨marker, required, _⟩ | ⟨unpreceded, _⟩
  · have provided := invariant.lookup_of_precedes found shaped precedes required
    rw [replaces.lookup_providedMarkers marker (shaped.notMem_provides required)] at provided
    rw [providerOf, (shaped.eq_of_mem_requires required).2.1]
    exact provided
  · exact absurd precedes (unpreceded found)

theorem Ordered.linked_inserted {first : TxHash} (bounded : budget ≤ 2 ^ 64)
    {later : ReadyTransactions}
    (replaces : Replaces pool.readyTransactions tx.transaction base inherited replacedTx)
    (inserted : Inserted base later tx.transaction inherited)
    (firstFound : later.readyTx.lookup first = some firstTx)
    (secondFound : later.readyTx.lookup second = some secondTx)
    (precedes : Precedes firstTx.tx secondTx.tx) :
    second ∈ firstTx.unlocks := by
  have shrinks := replaces.shrinks invariant.ready
  rcases inserted.cases firstFound with ⟨rfl, rfl⟩ | ⟨firstOther, firstBase, rfl⟩
  · rcases inserted.cases secondFound with ⟨rfl, rfl⟩ | ⟨secondOther, secondBase, rfl⟩
    · exact absurd precedes Precedes.irrefl
    · obtain ⟨earlier, found, sameRef, _⟩ := shrinks.entry secondBase
      apply ordered.mem_inherited invariant bounded replaces found
      rw [ReadyTransaction.tx, ← sameRef]
      exact precedes
  obtain ⟨earlier, found, sameRef, kept⟩ := shrinks.entry firstBase
  rw [sameRef] at precedes
  rcases inserted.cases secondFound with ⟨rfl, rfl⟩ | ⟨secondOther, secondBase, rfl⟩
  · rw [if_pos (ordered.providerOf_eq invariant replaces found precedes)]
    exact mem_append_right _ (mem_singleton_self _)
  obtain ⟨secondEarlier, secondPool, secondSame, _⟩ := shrinks.entry secondBase
  rw [secondSame] at precedes
  have member := kept.mpr ⟨ordered.linked found secondPool precedes, mem_of_lookup secondBase⟩
  split
  · exact mem_append_left _ member
  · exact member

end

variable {first : TxHash}

theorem Ordered.subset {fewer : List PendingPoolTransaction} (ordered : Ordered pool inFlight)
    (subset : ∀ tx ∈ fewer, tx ∈ inFlight) : Ordered pool fewer := by
  have outside : ∀ {other}, Outside pool fewer other → Outside pool inFlight other := by
    intro other isOutside
    cases isOutside with
    | waiting found => exact .waiting found
    | @flying tx member => exact .flying (subset tx member)
  refine ⟨ordered.linked, fun isOutside => ordered.outside (outside isOutside), ?_⟩
  intro tx member
  apply (ordered.enters (subset tx member)).imp_right
  rintro ⟨unpreceded, unfollowed⟩
  exact ⟨unpreceded, fun isOutside => unfollowed (outside isOutside)⟩

theorem Ordered.promotes {added : Except PoolError (List PoolTransaction)}
    (ordered : Ordered pool (tx :: rest))
    (invariant : pool.Invariant (tx :: rest) budget)
    (bounded : budget ≤ 2 ^ 64)
    (promotes : pool.Promotes budget tx.transaction after unlocked added) :
    Ordered after (rest ++ unlocked) := by
  obtain ⟨shaped, _⟩ := invariant.complete mem_cons_self
  have outside : ∀ {other}, Outside after (rest ++ unlocked) other →
      Outside pool (tx :: rest) other :=
    Outside.of_unlocks promotes.pending fun _ => mem_cons_of_mem tx
  have isProvided : ∀ {marker}, marker ∈ after.readyTransactions.providedMarkers ↔
        marker ∈ pool.readyTransactions.providedMarkers ∨
          marker = toMarker tx.transaction.nonce tx.transaction.sender :=
    promotes.mem_providedMarkers shaped
  have entersUnlocked : ∀ {other}, other ∈ unlocked →
      ∃ marker ∈ other.transaction.requires, marker ∈ after.readyTransactions.providedMarkers := by
    intro other member
    exact ⟨_, (invariant.precedes_of_mem_unlocked shaped promotes.pending
      member).2, isProvided.mpr (.inr rfl)⟩
  rcases promotes.ready with ⟨_, rfl, rfl, _⟩ | ⟨base, inherited, _, _, replaces, inserted⟩
  · apply ordered.subset
    intro other member
    rw [append_nil] at member
    exact mem_cons_of_mem tx member
  refine ⟨ordered.linked_inserted invariant bounded replaces inserted, ?_, ?_⟩
  · intro other ref isOutside independent
    rcases inserted.of_mem_independent independent with earlier | ⟨unlinked, same⟩
    · rcases (replaces.shrinks invariant.ready).independent earlier with
        independent | ⟨_, _, impossible⟩
      · exact ordered.outside (outside isOutside) independent
      · exact impossible.elim
    subst ref
    rcases ordered.enters mem_cons_self with ⟨marker, required, provided⟩ | ⟨_, unfollowed⟩
    · obtain ⟨provider, found⟩ := mem_iff_exists_lookup.mp provided
      rw [replaces.lookup_providedMarkers marker (shaped.notMem_provides required)] at found
      rw [providerOf, (shaped.eq_of_mem_requires required).2.1] at unlinked
      exact absurd (found.symm.trans unlinked) (Option.some_ne_none _)
    · exact unfollowed (outside isOutside)
  intro other member
  rcases mem_append.mp member with isKept | isUnlocked
  · rcases ordered.enters (mem_cons_of_mem tx isKept) with
      ⟨marker, required, provided⟩ | ⟨unpreceded, unfollowed⟩
    · exact .inl ⟨marker, required, isProvided.mpr (.inl provided)⟩
    refine .inr ⟨?_, fun isOutside => unfollowed (outside isOutside)⟩
    intro hash readyTx found
    rcases inserted.cases found with ⟨rfl, rfl⟩ | ⟨earlier, stored, rfl⟩
    · exact unfollowed (.flying mem_cons_self)
    obtain ⟨first, firstFound, firstRef, _⟩ := (replaces.shrinks invariant.ready).entry stored
    rw [ReadyTransaction.tx, firstRef]
    exact unpreceded firstFound
  · exact .inl (entersUnlocked isUnlocked)

theorem linked_shrinks {pruned : TxMarker → Prop} {before later : ReadyTransactions}
    (linked : ∀ {first firstTx second secondTx}, before.readyTx.lookup first = some firstTx →
      before.readyTx.lookup second = some secondTx →
      Precedes firstTx.tx secondTx.tx → second ∈ firstTx.unlocks)
    (shrinks : Shrinks pruned before later)
    (firstFound : later.readyTx.lookup first = some firstTx)
    (secondFound : later.readyTx.lookup second = some secondTx)
    (precedes : Precedes firstTx.tx secondTx.tx) :
    second ∈ firstTx.unlocks := by
  obtain ⟨firstEarlier, firstStored, firstRef, kept⟩ := shrinks.entry firstFound
  obtain ⟨secondEarlier, secondStored, secondRef, _⟩ := shrinks.entry secondFound
  rw [ReadyTransaction.tx, firstRef, ReadyTransaction.tx, secondRef] at precedes
  exact kept.mpr ⟨linked firstStored secondStored precedes, mem_of_lookup secondFound⟩

theorem keeping_ordered (bounded : budget ≤ 2 ^ 64) : Keeping budget Ordered where
  subset := Ordered.subset
  promotes invariant ordered promotes := ordered.promotes invariant bounded promotes
  shrinks := by
    intro pool after invariant ordered shrinks kept _
    refine ⟨linked_shrinks ordered.linked shrinks, ?_, fun none => nomatch none⟩
    intro tx ref isOutside independent
    rcases shrinks.independent independent with earlier | ⟨_, _, impossible⟩
    · apply ordered.outside _ earlier
      cases isOutside with
      | waiting found => exact .waiting (kept found)
      | flying none => cases none
    · exact impossible.elim

theorem clear_ordered : Ordered pool.clear [] := by
  refine ⟨?_, ?_, fun none => nomatch none⟩
  · nofun
  · intro tx ref _ independent
    exact absurd independent (BTreeSet.notMem_empty ref)

/-- The pool and the transactions in flight in the first loop of
`prune_markers`. -/
structure Pruning (start : PoolInner) (markers : List TxMarker)
    (pool : PoolInner) (inFlight : List PendingPoolTransaction) : Prop where
  shrinks : Shrinks (· ∈ markers) start.readyTransactions pool.readyTransactions
  outside : ∀ {tx}, Outside pool inFlight tx → Outside start [] tx
  imports : ∀ {tx}, tx ∈ inFlight → ∃ marker ∈ tx.transaction.requires,
    marker ∈ markers ∧ marker ∉ pool.readyTransactions.providedMarkers

theorem Pruning.prunes {start : PoolInner} {markers : List TxMarker}
    {removed : List PoolTransaction} (pruning : Pruning start markers pool inFlight)
    (invariant : pool.Invariant inFlight budget) (listed : marker ∈ markers)
    (prunes : pool.Prunes budget marker after unlocked removed) :
    Pruning start markers after (inFlight ++ unlocked) where
  shrinks := by
    apply pruning.shrinks.trans
    apply prunes.ready.mono
    rintro _ rfl
    exact listed
  outside isOutside := pruning.outside (.of_unlocks prunes.pending (fun _ => id) isOutside)
  imports := by
    have shorter := fun {marker} (provided : marker ∈ after.readyTransactions.providedMarkers) =>
      prunes.ready.mem_providedMarkers invariant.ready prunes.readyInvariant provided
    intro tx member
    rcases mem_append.mp member with isKept | isUnlocked
    · obtain ⟨other, required, isListed, unprovided⟩ := pruning.imports isKept
      exact ⟨other, required, isListed, fun provided => unprovided (shorter provided)⟩
    obtain ⟨_, waiting, found, same, missed⟩ := prunes.pending.taken isUnlocked
    obtain ⟨_, _, only, requires, missing⟩ := invariant.pending.shaped found
    refine ⟨marker, ?_, listed, fun provided => invariant.missing found missed (shorter provided)⟩
    rw [← same, requires, ← missing]
    exact missed

end PoolInner

open PoolInner

/-- The operation gives no ready transaction a predecessor that it is not
linked to.  A submitted transaction precedes no independent one, and is not
preceded by one that it does not require.  No marker is pruned that a waiting
transaction provides and another transaction requires. -/
def Operation.Orderly (pool : PoolInner) : Operation → Prop
  | .addTransaction tx =>
    (∀ ref ∈ pool.readyTransactions.independentTransactions.elems, ¬ Precedes tx ref.transaction) ∧
    (tx.requires = [] → (∀ ready ∈ pool.readyTransactions.readyTx.values, ¬ Precedes ready.tx tx) ∧
      ∀ waiting ∈ pool.pendingTransactions.waitingQueue.values, ¬ Precedes waiting.transaction tx)
  | .pruneMarkers markers =>
    ∀ waiting ∈ pool.pendingTransactions.waitingQueue.values,
      (∀ ready ∈ pool.readyTransactions.readyTx.values,
        (∃ marker ∈ ready.tx.requires, marker ∈ markers) →
        ¬ Precedes waiting.transaction ready.tx) ∧
      ∀ other ∈ pool.pendingTransactions.waitingQueue.values,
        (∃ marker ∈ other.transaction.requires, marker ∈ markers) →
        ¬ Precedes waiting.transaction other.transaction
  | _ => True

instance (pool : PoolInner) : (operation : Operation) → Decidable (operation.Orderly pool)
  | .addTransaction _ => inferInstanceAs (Decidable (_ ∧ _))
  | .pruneMarkers _ => List.decidableBAll _ _
  | .removeInvalid _ => .isTrue trivial
  | .removeTransactionsByAddress _ => .isTrue trivial
  | .dropTransaction _ => .isTrue trivial
  | .clear => .isTrue trivial

variable {budget : ℕ}

section Operations

variable {pool : PoolInner}

theorem PoolInner.Ordered.adds {tx : PoolTransaction} {outcome : Except PoolError AddedTransaction}
    {after : PoolInner} (ordered : Ordered pool [])
    (bounded : budget ≤ 2 ^ 64) (shaped : RpcShaped tx)
    (orderly : (Operation.addTransaction tx).Orderly pool)
    (adds : pool.Adds budget tx after outcome) : Ordered after [] := by
  obtain ⟨unfollowed, unpreceded⟩ := orderly
  have flies : (∀ marker ∈ tx.requires, marker ∈ pool.readyTransactions.providedMarkers) →
      Ordered pool [PendingPoolTransaction.new tx pool.readyTransactions.providedMarkers] := by
    intro provided
    refine ⟨ordered.linked, ?_, ?_⟩
    · intro other ref isOutside independent
      cases isOutside with
      | waiting found => exact ordered.outside (.waiting found) independent
      | flying member =>
        rw [mem_singleton.mp member]
        exact unfollowed ref independent
    intro other member
    rw [mem_singleton.mp member]
    rcases shaped.requires with nothing | ⟨_, requires⟩
    · obtain ⟨unready, unwaiting⟩ := unpreceded nothing
      refine .inr ⟨?_, ?_⟩
      · intro hash readyTx found
        exact unready readyTx (mem_values_iff.mpr ⟨hash, found⟩)
      intro other isOutside
      cases isOutside with
      | @waiting hash waitingTx found =>
        exact unwaiting waitingTx (mem_values_iff.mpr ⟨hash, found⟩)
      | flying member =>
        rw [mem_singleton.mp member]
        exact Precedes.irrefl
    have required : toMarker (tx.nonce - 1) tx.sender ∈ tx.requires := by
      rw [requires]
      exact mem_singleton_self _
    exact .inl ⟨_, required, provided _ required⟩
  have waits : ∀ {pending}, pending.waitingQueue =
      pool.pendingTransactions.waitingQueue.insert tx.hash
        (PendingPoolTransaction.new tx pool.readyTransactions.providedMarkers) →
      Ordered { pool with pendingTransactions := pending } [] := by
    intro pending queue
    refine ⟨ordered.linked, ?_, fun none => nomatch none⟩
    intro other ref isOutside independent
    cases isOutside with
    | flying none => cases none
    | waiting found =>
      rw [queue] at found
      obtain ⟨_, rfl⟩ | ⟨_, found⟩ := lookup_of_insert found
      · exact unfollowed ref independent
      · exact ordered.outside (.waiting found) independent
  cases adds with
  | ready provided flying enqueues =>
    exact (keeping_ordered bounded).enqueues enqueues flying (flies provided)
  | waits unprovided unwaiting adds => exact waits adds.queue
  | _ => exact ordered

theorem PoolInner.Ordered.of_pruning {markers : List TxMarker}
    {inFlight : List PendingPoolTransaction} {start : PoolInner} (ordered : Ordered start [])
    (orderly : (Operation.pruneMarkers markers).Orderly start)
    (invariant : pool.Invariant inFlight budget)
    (pruning : Pruning start markers pool inFlight) :
    Ordered pool inFlight := by
  have stale : ∀ {tx}, Outside start [] tx →
      ∃ hash waiting, start.pendingTransactions.waitingQueue.lookup hash = some waiting ∧
        waiting.transaction = tx := by
    intro tx isOutside
    cases isOutside with
    | @waiting hash waiting found => exact ⟨hash, waiting, found, rfl⟩
    | flying none => cases none
  refine ⟨linked_shrinks ordered.linked pruning.shrinks, ?_, ?_⟩
  · intro tx ref isOutside independent precedes
    have waited := pruning.outside isOutside
    rcases pruning.shrinks.independent independent with earlier | ⟨marker, required, isPruned⟩
    · exact ordered.outside waited earlier precedes
    obtain ⟨hash, readyTx, found, rfl, _⟩ := invariant.ready.finished independent
    obtain ⟨first, stored, sameRef, _⟩ := pruning.shrinks.entry found
    obtain ⟨waitingHash, waiting, waitingFound, rfl⟩ := stale waited
    rw [sameRef] at required precedes
    exact (orderly waiting (mem_values_iff.mpr ⟨waitingHash, waitingFound⟩)).1 first
      (mem_values_iff.mpr ⟨hash, stored⟩)
      ⟨marker, required, isPruned⟩ precedes
  intro tx member
  obtain ⟨marker, required, isPruned, unprovided⟩ := pruning.imports member
  refine .inr ⟨?_, ?_⟩
  · intro hash readyTx found precedes
    apply unprovided
    apply mem_iff_exists_lookup.mpr
    exact ⟨hash, invariant.lookup_of_precedes found (invariant.complete member).1 precedes required⟩
  intro other isOutside precedes
  obtain ⟨waitingHash, waiting, waitingFound, rfl⟩ := stale (pruning.outside isOutside)
  obtain ⟨importHash, imported, importFound, same⟩ := stale (pruning.outside (.flying member))
  rw [← same] at required precedes
  exact (orderly waiting (mem_values_iff.mpr ⟨waitingHash, waitingFound⟩)).2 imported
    (mem_values_iff.mpr ⟨importHash, importFound⟩)
    ⟨marker, required, isPruned⟩ precedes

/-- Every orderly operation keeps consecutive nonces linked. -/
theorem PoolInner.Ordered.apply_eq_ok (ordered : Ordered pool [])
    (invariant : pool.Invariant [] budget) (order : HashOrder)
    {operation : Operation} (shaped : operation.Shaped)
    (orderly : operation.Orderly pool)
    (bounded : budget + additions [(order, operation)] ≤ 2 ^ 64) :
    ∃ after, apply pool order operation = .ok after ∧
      after.Invariant [] (budget + additions [(order, operation)]) ∧
      Ordered after [] := by
  have small : budget ≤ 2 ^ 64 := (Nat.le_add_right ..).trans bounded
  apply (keeping_ordered small).apply_eq_ok invariant ordered order shaped
  · rintro tx after outcome rfl adds
    exact ordered.adds bounded shaped orderly adds
  · rintro markers middle imported pruned rfl prunings
    obtain ⟨middleInvariant, pruning⟩ := prunings.induction invariant
      (motive := fun middle inFlight _ => Pruning pool markers middle inFlight)
      ⟨invariant.ready.shrinks_refl, fun isOutside => isOutside, fun none => nomatch none⟩
      (fun listed invariant prunes pruning => pruning.prunes invariant listed prunes)
    exact ordered.of_pruning orderly middleInvariant pruning
  · exact clear_ordered

end Operations

/-- No transaction comes after one that has the next nonce or requires one of
its markers. -/
def NonceOrdered (txs : List PoolTransaction) : Prop :=
  txs.Pairwise fun earlier later => ¬ Precedes later earlier ∧
    ∀ marker ∈ earlier.requires, marker ∉ later.provides

theorem PoolInner.Ordered.nonceOrdered {yielded : List TxHash} {txs : List PoolTransaction}
    {pool : PoolInner}
    (ordered : Ordered pool []) (invariant : pool.Invariant [] budget)
    (yields : pool.readyTransactions.Yields yielded txs) :
    NonceOrdered txs := by
  induction txs generalizing yielded with
  | nil => exact .nil
  | cons tx txs ih =>
    obtain ⟨⟨readyTx, rfl, best⟩, rest⟩ := yields
    apply pairwise_cons.mpr
    refine ⟨?_, ih rest⟩
    intro later member
    obtain ⟨laterTx, rfl, found⟩ := rest.found member
    have unpreceded : ¬ Precedes laterTx.tx readyTx.tx := by
      intro precedes
      have listed := ordered.linked found best.available.found precedes
      rcases best.available.unlocked with independent | unlocked
      · exact invariant.ready.not_independent best.available.found found listed independent
      · apply rest.nodup.2 _ (mem_map_of_mem member)
        exact mem_append_left _ (unlocked found listed)
    refine ⟨unpreceded, ?_⟩
    intro marker required provides
    apply unpreceded
    exact (invariant.ready.shaped best.available.found).2.precedes
      (invariant.ready.shaped found).2 required provides

/-- The operation of a run is orderly in the pool that the run has reached. -/
def Allowed (state : Except Halt PoolInner) (action : HashOrder × Operation) : Prop :=
  action.2.Shaped ∧ ∀ pool, state = .ok pool → action.2.Orderly pool

instance (state : Except Halt PoolInner) (action : HashOrder × Operation) :
    Decidable (Allowed state action) :=
  @instDecidableAnd _ _ _ (Except.decidableForallOk _ _)

/-- In every run of at most `2 ^ 64` submissions whose operations are orderly,
the iterator respects the nonces in every pool that the run reaches. -/
theorem run_nonceOrdered (actions : List (HashOrder × Operation))
    (orderly : Transition.Along step Allowed (.ok .empty) actions)
    (bounded : additions actions ≤ 2 ^ 64) :
    ∀ reached, reached <+: actions → ∃ pool, run step (.ok .empty) reached = .ok pool ∧
        ∀ fuel, pool.readyTransactions.readyTx.size < fuel →
          ∃ txs, pool.readyTransactions.getTransactions.drain fuel = .ok txs ∧
            NonceOrdered txs := by
  intro reached shorter
  have small : additions reached ≤ 2 ^ 64 := by
    obtain ⟨rest, rfl⟩ := shorter
    unfold additions submissions at bounded ⊢
    rw [filterMap_append, length_append] at bounded
    omega
  obtain ⟨pool, isReached, invariant, ordered⟩ :=
    invariant_history (fun past state => additions past ≤ 2 ^ 64 →
        ∃ pool, state = .ok pool ∧ pool.Invariant [] (additions past) ∧ Ordered pool [])
      (by
        intro past state action earlier allowed small
        rw [additions_append] at small ⊢
        obtain ⟨pool, rfl, invariant, ordered⟩ := earlier (by omega)
        exact ordered.apply_eq_ok invariant action.1 allowed.1 (allowed.2 pool rfl) small) []
      (fun _ => ⟨.empty, rfl, empty_invariant, @clear_ordered .empty⟩)
      orderly reached shorter small
  refine ⟨pool, isReached, ?_⟩
  intro fuel enough
  obtain ⟨txs, drained, yields⟩ := invariant.ready.drain_getTransactions enough
  exact ⟨txs, drained, ordered.nonceOrdered invariant (yields small)⟩

def pruneThenSubmit : List (HashOrder × Operation) :=
  [(.asListed, .addTransaction (rpcTransaction 11 1 1 [toMarker 0 1] 9)),
    (.asListed, .addTransaction (rpcTransaction 10 1 0 [] 5)),
    (.asListed, .pruneMarkers [toMarker 0 1]),
    (.asListed, .addTransaction (rpcTransaction 12 1 2 [toMarker 1 1] 12))]

theorem run_nonceOrdered_prune_then_submit :
    Transition.Along step Allowed (.ok .empty) pruneThenSubmit ∧
      additions pruneThenSubmit ≤ 2 ^ 64 ∧
      ∀ reached, reached <+: pruneThenSubmit → ∃ pool, run step (.ok .empty) reached = .ok pool ∧
          ∀ fuel, pool.readyTransactions.readyTx.size < fuel →
            ∃ txs, pool.readyTransactions.getTransactions.drain fuel = .ok txs ∧
              NonceOrdered txs := by
  have orderly : Transition.Along step Allowed (.ok .empty) pruneThenSubmit := by decide +kernel
  have bounded : additions pruneThenSubmit ≤ 2 ^ 64 := by decide
  exact ⟨orderly, bounded, run_nonceOrdered _ orderly bounded⟩

/-- A transaction and its successor are ready, the first one is mined and its
marker pruned, and it is submitted again, as after a rollback of the chain.
The successor pays more and is yielded first. -/
theorem run_yields_successor_first :
    (∀ action ∈ ([(.asListed, .addTransaction (rpcTransaction 10 1 0 [] 5)),
          (.asListed, .addTransaction (rpcTransaction 11 1 1 [toMarker 0 1] 9)),
          (.asListed, .pruneMarkers [toMarker 0 1]),
          (.asListed, .addTransaction (rpcTransaction 10 1 0 [] 5))] :
        List (HashOrder × Operation)), action.2.Shaped) ∧
      (run step (.ok .empty) [(.asListed, .addTransaction (rpcTransaction 10 1 0 [] 5)),
          (.asListed, .addTransaction (rpcTransaction 11 1 1 [toMarker 0 1] 9)),
          (.asListed, .pruneMarkers [toMarker 0 1]),
          (.asListed, .addTransaction (rpcTransaction 10 1 0 [] 5))]).bind
        (fun pool => pool.readyTransactions.getTransactions.drain 3) =
        .ok [rpcTransaction 11 1 1 [toMarker 0 1] 9, rpcTransaction 10 1 0 [] 5] ∧
      ¬ NonceOrdered [rpcTransaction 11 1 1 [toMarker 0 1] 9, rpcTransaction 10 1 0 [] 5] := by
  refine ⟨by decide, by decide +kernel, ?_⟩
  intro ordered
  have first := pairwise_cons.mp ordered |>.1 _ mem_cons_self
  exact first.1 (by decide)

end SwissledgerFoundry.Pool
