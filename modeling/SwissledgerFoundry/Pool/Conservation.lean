import SwissledgerFoundry.Pool.Runs

/-!
# No transaction is lost without a report

The hashes in either queue or in flight after an operation are those before it
without the ones that the operation reports.
-/

namespace SwissledgerFoundry.Pool

open ReadyTransactions AList List Transition Except

/-- The hashes that are reported as gone when a transaction gets ready. -/
def AddedReady.reported (ready : AddedReady) : List TxHash :=
  ready.removed.map (·.hash) ++ ready.discarded

def AddedTransaction.reported : AddedTransaction → List TxHash
  | .ready added => added.reported
  | .pending _ => []

/-- The hashes that `prune_markers` reports as gone. -/
def PruneResult.reported (result : PruneResult) : List TxHash :=
  result.pruned.map (·.hash) ++ result.failed ++ result.promoted.flatMap (·.reported)

/-- A ready transaction that depends on one of the listed ones, over required
markers, is listed itself or had no marker pruned before. -/
def ReadyTransactions.Linked (ready : ReadyTransactions) (txHashes : List TxHash) : Prop :=
  ∀ root ∈ txHashes, ∀ owner hash tx, Relation.ReflTransGen ready.Requires root owner →
    ready.Requires owner hash → ready.readyTx.lookup hash = some tx → hash ∉ txHashes →
    tx.requiresOffset ≠ tx.tx.requires.length

/-- What a round reports as gone. -/
def lostInRound (hash : TxHash) : Except PoolError (List PoolTransaction) → List TxHash
  | .ok replacedTransactions => replacedTransactions.map (·.hash)
  | .error _ => [hash]

variable {ready : AddedReady} {added : Except PoolError (List PoolTransaction)} {hash : TxHash}

theorem AddedReady.mem_reported_record {probe : TxHash} :
    probe ∈ (ready.record hash added).reported ↔
      probe ∈ ready.reported ∨ probe ∈ lostInRound hash added := by
  cases added with
  | ok replacedTransactions =>
    simp only [record, reported, lostInRound, map_append, mem_append]
    exact or_right_comm
  | error error =>
    simp only [record, reported, lostInRound, mem_append]
    exact or_assoc.symm

def lostInImport (hash : TxHash) : Except PoolError AddedTransaction → List TxHash
  | .ok added => added.reported
  | .error _ => [hash]

theorem PruneResult.mem_reported_record {probe : TxHash} {result : PruneResult}
    {added : Except PoolError AddedTransaction} :
    probe ∈ (result.record hash added).reported ↔
      probe ∈ result.reported ∨ probe ∈ lostInImport hash added := by
  cases added with
  | ok added => simp [record, reported, lostInImport, or_assoc]
  | error error =>
    simp only [record, reported, lostInImport, mem_append]
    rw [← or_assoc, or_right_comm]

namespace PoolInner

def Held (pool : PoolInner) (inFlight : List PendingPoolTransaction) (hash : TxHash) : Prop :=
  hash ∈ pool.readyTransactions.readyTx ∨ hash ∈ pool.pendingTransactions.waitingQueue ∨
    hash ∈ inFlight.map (·.transaction.hash)

/-- Another waiting transaction has the same sender and nonce. -/
def Rivalled (pool : PoolInner) (hash : TxHash) (tx : PoolTransaction) : Prop :=
  ∃ other otherTx, pool.pendingTransactions.waitingQueue.lookup other = some otherTx ∧
    other ≠ hash ∧ otherTx.transaction.nonce = tx.nonce ∧ otherTx.transaction.sender = tx.sender

/-- No two waiting transactions of the sender have the same nonce. -/
def Unrivalled (pool : PoolInner) (sender : Address) : Prop :=
  ∀ hash tx, pool.pendingTransactions.waitingQueue.lookup hash = some tx →
    tx.transaction.sender = sender → ¬ pool.Rivalled hash tx.transaction

variable {pool after : PoolInner} {budget : ℕ}

theorem contains_iff_held : pool.contains hash ↔ pool.Held [] hash := by
  simp [contains, Held, or_comm]

variable {unlocked : List PendingPoolTransaction}

theorem mem_waitingQueue_of_unlocks {marker : TxMarker}
    (invariant : pool.pendingTransactions.Invariant)
    (unlocks : PendingTransactions.Unlocks marker pool.pendingTransactions
      after.pendingTransactions unlocked)
    (hash : TxHash) :
    hash ∈ pool.pendingTransactions.waitingQueue ↔
      hash ∈ after.pendingTransactions.waitingQueue ∨ hash ∈ unlocked.map (·.transaction.hash) := by
  constructor
  · intro waited
    obtain ⟨waiting, found⟩ := mem_iff_exists_lookup.mp waited
    by_cases missed : marker ∈ waiting.missingMarkers
    · obtain ⟨tx, member, same⟩ := unlocks.complete found missed
      right
      rw [← (invariant.shaped found).1, ← same]
      exact mem_map_of_mem member
    left
    apply mem_iff_exists_lookup.mpr
    exact ⟨waiting, unlocks.kept.mpr ⟨found, missed⟩⟩
  rintro (waits | taken)
  · exact unlocks.mem_waitingQueue waits
  · obtain ⟨tx, member, rfl⟩ := mem_map.mp taken
    exact (unlocks.mem_of_mem_unlocked member).1

theorem Invariant.notMem_of_ready {inFlight : List PendingPoolTransaction}
    (invariant : pool.Invariant inFlight budget)
    (isReady : hash ∈ pool.readyTransactions.readyTx) :
    hash ∉ pool.pendingTransactions.waitingQueue ∧ hash ∉ inFlight.map (·.transaction.hash) := by
  refine ⟨invariant.disjoint isReady, ?_⟩
  intro flies
  obtain ⟨tx, member, rfl⟩ := mem_map.mp flies
  exact (invariant.apart member).1 isReady

section

variable {tx : PendingPoolTransaction} {rest : List PendingPoolTransaction}
  (invariant : pool.Invariant (tx :: rest) budget)

include invariant

theorem Promotes.mem_readyTx_iff {replacedTx : List PoolTransaction}
    (promotes : pool.Promotes budget tx.transaction after unlocked (.ok replacedTx))
    (hash : TxHash) :
    (hash ∈ after.readyTransactions.readyTx ↔ hash = tx.transaction.hash ∨
        (hash ∈ pool.readyTransactions.readyTx ∧ hash ∉ replacedTx.map (·.hash))) ∧
    (hash ∈ replacedTx.map (·.hash) → hash ∈ pool.readyTransactions.readyTx) := by
  rcases promotes.ready with ⟨failed, _⟩ | ⟨base, inherited, _, same, replaces, inserted⟩
  · cases failed
  obtain rfl := ok.inj same
  have reports := replaces.reports invariant.ready
  refine ⟨?_, reports.stored⟩
  rw [← reports.mem, mem_iff_exists_lookup, mem_iff_exists_lookup]
  constructor
  · rintro ⟨found, stored⟩
    rcases inserted.cases stored with ⟨isNew, _⟩ | ⟨other, earlier, _⟩
    · exact .inl isNew
    · exact .inr ⟨other, earlier⟩
  intro entered
  by_cases isNew : hash = tx.transaction.hash
  · rw [isNew]
    exact ⟨_, inserted.lookup_self⟩
  · obtain ⟨other, earlier⟩ := entered.resolve_left isNew
    exact ⟨_, inserted.lookup_other isNew earlier⟩

theorem Promotes.held (promotes : pool.Promotes budget tx.transaction after unlocked added)
    (hash : TxHash) :
    after.Held (rest ++ unlocked) hash ↔
      pool.Held (tx :: rest) hash ∧ hash ∉ lostInRound tx.transaction.hash added := by
  obtain ⟨unready, unwaiting⟩ := invariant.apart mem_cons_self
  cases added with
  | error error =>
    rcases promotes.ready with ⟨_, rfl, rfl, _⟩ | ⟨_, _, _, failed, _⟩
    · have nodup := nodup_cons.mp invariant.nodup
      simp only [Held, lostInRound, append_nil, map_cons, mem_cons, not_mem_nil, or_false]
      by_cases own : hash = tx.transaction.hash
      · simp [own, unready, unwaiting, nodup.1]
      · simp [own]
    · cases failed
  | ok replacedTx =>
    obtain ⟨ready, replaced⟩ := promotes.mem_readyTx_iff invariant hash
    have apart := fun isReplaced => invariant.notMem_of_ready (replaced isReplaced)
    simp only [Held, lostInRound, ready, map_append, mem_append,
      mem_waitingQueue_of_unlocks invariant.pending promotes.pending]
    rw [mem_waitingQueue_of_unlocks invariant.pending promotes.pending] at apart
    simp only [map_cons, mem_cons] at apart ⊢
    tauto

end

variable {outcome : AddedReady}

theorem Promotions.held {queue rest : List PendingPoolTransaction}
    (promotions : Promotions budget pool queue ready after outcome)
    (invariant : pool.Invariant (queue ++ rest) budget) {start : TxHash → Prop}
    (held : ∀ hash, pool.Held (queue ++ rest) hash ↔ start hash ∧ hash ∉ ready.reported)
    (hash : TxHash) :
    after.Held rest hash ↔ start hash ∧ hash ∉ outcome.reported := by
  refine (promotions.induction invariant (motive := fun pool queue ready => ∀ hash,
      pool.Held (queue ++ rest) hash ↔ start hash ∧ hash ∉ ready.reported) held ?_).2 hash
  intro pool middle tx queue unlocked ready added invariant promotes held hash
  rw [cons_append] at invariant held
  have round := promotes.held invariant hash
  rw [held hash] at round
  rw [AddedReady.mem_reported_record, not_or, ← and_assoc, ← round]
  simp only [Held, map_append, mem_append]
  tauto

section

variable {tx : PendingPoolTransaction} {rest : List PendingPoolTransaction}
  (invariant : pool.Invariant (tx :: rest) budget)

include invariant

theorem Enqueues.held {outcome : Except PoolError AddedTransaction}
    (enqueues : pool.Enqueues budget tx after outcome) (hash : TxHash) :
    after.Held rest hash ↔ pool.Held (tx :: rest) hash ∧
      hash ∉ lostInImport tx.transaction.hash outcome := by
  cases enqueues with
  | underpriced =>
    obtain ⟨unready, unwaiting⟩ := invariant.apart mem_cons_self
    have nodup := nodup_cons.mp invariant.nodup
    simp only [Held, lostInImport, map_cons, mem_cons, not_mem_nil, or_false]
    by_cases own : hash = tx.transaction.hash
    · simp [own, unready, unwaiting, nodup.1]
    · simp [own]
  | ready promotes promotions =>
    apply promotions.held (promotes.invariant_nil invariant)
    intro probe
    have round := promotes.held invariant probe
    simp only [Held, map_append, mem_append, lostInRound,
      AddedReady.reported, append_nil] at round ⊢
    tauto

omit invariant in
theorem Promotes.waited {promoting : PoolTransaction} (pending : pool.pendingTransactions.Invariant)
    (promotes : pool.Promotes budget promoting after unlocked added) (member : tx ∈ unlocked) :
    tx.transaction.sender = promoting.sender ∧ ∃ waiting,
      pool.pendingTransactions.waitingQueue.lookup tx.transaction.hash = some waiting ∧
        waiting.transaction = tx.transaction := by
  obtain ⟨_, waiting, found, same, missed⟩ := promotes.pending.taken member
  obtain ⟨_, shaped, marker, requires, missing⟩ := pending.shaped found
  rw [missing, ← requires] at missed
  obtain ⟨_, _, marked⟩ := shaped.eq_of_mem_requires missed
  exact ⟨same ▸ (toMarker_injective marked).2.symm, waiting, found, same⟩

/-- What the rounds keep of the waiting queue before them: the transactions in
the queue and the promoted ones are from there, and a promoted one is ready
unless another one that waited replaced it. -/
structure Tracks (pool : PoolInner) (sender : Address) (middle : PoolInner)
    (queue : List PendingPoolTransaction) (ready : AddedReady) : Prop where
  waiting : ∀ {hash tx}, middle.pendingTransactions.waitingQueue.lookup hash = some tx →
    pool.pendingTransactions.waitingQueue.lookup hash = some tx
  queued : ∀ {tx}, tx ∈ queue → tx.transaction.sender = sender ∧ ∃ waiting,
    pool.pendingTransactions.waitingQueue.lookup tx.transaction.hash = some waiting ∧
      waiting.transaction = tx.transaction
  promoted : ∀ {hash}, hash ∈ ready.promoted → ∃ waiting,
    pool.pendingTransactions.waitingQueue.lookup hash = some waiting ∧
      waiting.transaction.sender = sender ∧
      ((∃ stored, middle.readyTransactions.readyTx.lookup hash = some stored ∧
          stored.tx = waiting.transaction) ∨
        hash ∈ ready.removed.map (·.hash) ∧ pool.Rivalled hash waiting.transaction)

/-- A promoted transaction stays unless the round replaces it by another one
that waited with its nonce. -/
theorem Promotes.keeps {start : PoolInner} {replacedTx : List PoolTransaction}
    {waiting : PendingPoolTransaction} {stored : ReadyTransaction}
    (promotes : pool.Promotes budget tx.transaction after unlocked (.ok replacedTx))
    (found : start.pendingTransactions.waitingQueue.lookup tx.transaction.hash = some waiting)
    (same : waiting.transaction = tx.transaction)
    (isReady : pool.readyTransactions.readyTx.lookup hash = some stored) :
    (∃ later, after.readyTransactions.readyTx.lookup hash = some later ∧ later.tx = stored.tx) ∨
      hash ∈ replacedTx.map (·.hash) ∧ start.Rivalled hash stored.tx := by
  have other : hash ≠ tx.transaction.hash := by
    rintro rfl
    exact (invariant.apart mem_cons_self).1 (mem_of_lookup isReady)
  rcases promotes.ready with ⟨failed, _⟩ | ⟨base, inherited, _, listed, replaces, inserted⟩
  · cases failed
  obtain rfl := ok.inj listed
  by_cases isReplaced : stored.tx ∈ replacedTx
  · right
    obtain ⟨_, nonce, sender⟩ := replaces.of_mem_replacedTx invariant.ready
      (invariant.complete mem_cons_self).1 isReplaced
    refine ⟨mem_map.mpr ⟨_, isReplaced, (invariant.ready.shaped isReady).1⟩, _, _, found,
      other.symm, ?_, ?_⟩
    · rw [same, nonce]
    · rw [same, sender]
  · left
    obtain ⟨later, kept, transaction⟩ := replaces.lookup_of_notMem isReady isReplaced
    refine ⟨_, inserted.lookup_other other kept, ?_⟩
    exact congrArg (·.transaction) transaction

omit invariant in
theorem Tracks.round {sender : Address} {start middle : PoolInner}
    {queue : List PendingPoolTransaction}
    (tracks : start.Tracks sender pool (tx :: queue) ready)
    (invariant : pool.Invariant ((tx :: queue) ++ rest) budget)
    (promotes : pool.Promotes budget tx.transaction middle unlocked added) :
    start.Tracks sender middle (queue ++ unlocked)
      (ready.record tx.transaction.hash added) where
  waiting found := tracks.waiting (promotes.pending.kept.mp found).1
  queued := by
    intro other member
    rcases mem_append.mp member with earlier | taken
    · exact tracks.queued (mem_cons_of_mem tx earlier)
    · obtain ⟨sameSender, waiting, found, same⟩ := promotes.waited invariant.pending taken
      exact ⟨sameSender.trans (tracks.queued mem_cons_self).1, waiting, tracks.waiting found, same⟩
  promoted := by
    intro probe listed
    obtain ⟨ownSender, own, ownFound, ownSame⟩ := tracks.queued mem_cons_self
    cases added with
    | error error =>
      rcases promotes.ready with ⟨_, rfl, _⟩ | ⟨_, _, _, failed, _⟩
      · exact tracks.promoted listed
      · cases failed
    | ok replacedTx =>
      simp only [AddedReady.record, map_append, mem_append, mem_singleton] at listed ⊢
      rcases listed with earlier | rfl
      · obtain ⟨waiting, found, sameSender, ⟨stored, isReady, same⟩ | replaced⟩ :=
          tracks.promoted earlier
        · refine ⟨waiting, found, sameSender, ?_⟩
          rw [← same]
          exact (promotes.keeps invariant ownFound ownSame isReady).imp_right
            (And.imp_left .inr)
        · exact ⟨waiting, found, sameSender, .inr ⟨.inl replaced.1, replaced.2⟩⟩
      · refine ⟨own, ownFound, ownSame ▸ ownSender, .inl ?_⟩
        rcases promotes.ready with ⟨failed, _⟩ | ⟨_, _, _, _, _, inserted⟩
        · cases failed
        · exact ⟨_, inserted.lookup_self, ownSame.symm⟩

/-- What was promoted waited before, and is ready unless it was replaced by
another one that waited. -/
theorem Enqueues.promoted (enqueues : pool.Enqueues budget tx after (.ok (.ready outcome)))
    (promoted : hash ∈ outcome.promoted) :
    ∃ waiting, pool.pendingTransactions.waitingQueue.lookup hash = some waiting ∧
      waiting.transaction.sender = tx.transaction.sender ∧
      (hash ∈ after.readyTransactions.readyTx ∨ hash ∈ outcome.removed.map (·.hash) ∧
        pool.Rivalled hash waiting.transaction) := by
  generalize same : ok (AddedTransaction.ready outcome) = result at enqueues
  cases enqueues with
  | underpriced => cases same
  | ready promotes promotions =>
    cases same
    have tracks := (promotions.induction (promotes.invariant_nil invariant)
      (motive := fun middle queue ready => pool.Tracks tx.transaction.sender middle queue ready)
      ⟨fun found => (promotes.pending.kept.mp found).1, promotes.waited invariant.pending,
        fun none => nomatch none⟩
      fun invariant promotes tracks => tracks.round invariant promotes).2
    obtain ⟨waiting, found, sender, still | replaced⟩ := tracks.promoted promoted
    · obtain ⟨stored, lookup, _⟩ := still
      exact ⟨waiting, found, sender, .inl (mem_of_lookup lookup)⟩
    · exact ⟨waiting, found, sender, .inr replaced⟩

end

theorem Prunes.held {marker : TxMarker} {inFlight : List PendingPoolTransaction}
    {removed : List PoolTransaction}
    (prunes : pool.Prunes budget marker after unlocked removed)
    (invariant : pool.Invariant inFlight budget) (hash : TxHash) :
    after.Held (inFlight ++ unlocked) hash ↔
      pool.Held inFlight hash ∧ hash ∉ removed.map (·.hash) := by
  have apart := fun isRemoved : hash ∈ removed.map (·.hash) =>
    invariant.notMem_of_ready (prunes.reports.stored isRemoved)
  simp only [Held, prunes.reports.mem, map_append, mem_append,
    mem_waitingQueue_of_unlocks invariant.pending prunes.pending] at apart ⊢
  tauto

/-- `prune_markers` loses what it reports. -/
theorem Invariant.pruneMarkers_held {order : HashOrder} {markers : List TxMarker}
    (invariant : pool.Invariant [] budget) :
    ∃ after result, pool.pruneMarkers order markers = .ok (after, result) ∧
      ∀ hash, after.contains hash ↔ pool.contains hash ∧ hash ∉ result.reported := by
  obtain ⟨middle, imported, pruned, after, result, returned, prunings,
    middleInvariant, imports⟩ := invariant.pruneMarkers_eq_ok order markers
  refine ⟨after, result, returned, ?_⟩
  have start : ∀ hash, middle.Held imported hash ↔
      pool.Held [] hash ∧ hash ∉ pruned.map (·.hash) := by
    refine (prunings.induction invariant (motive := fun middle inFlight pruned => ∀ hash,
        middle.Held inFlight hash ↔ pool.Held [] hash ∧ hash ∉ pruned.map (·.hash))
      (by simp) ?_).2
    intro middle next marker inFlight unlocked pruned removed _ invariant prunes held hash
    rw [prunes.held invariant, held, map_append, mem_append, not_or, and_assoc]
  have finish := (imports.induction middleInvariant (motive := fun middle inFlight result => ∀ hash,
      middle.Held inFlight hash ↔ pool.Held [] hash ∧ hash ∉ result.reported)
    (fun hash => by
      rw [start hash]
      simp [PruneResult.reported]) (by
    intro middle next tx inFlight result added invariant enqueues held hash
    rw [enqueues.held invariant, held, PruneResult.mem_reported_record, not_or, and_assoc])).2
  intro hash
  rw [contains_iff_held, contains_iff_held]
  exact finish hash

variable {removedPending gone : List PoolTransaction} {txHashes : List TxHash}

section

variable (discards : pool.Discards budget txHashes after gone removedPending)

include discards

theorem Discards.contains_iff (invariant : pool.Invariant [] budget) (hash : TxHash) :
    after.contains hash ↔ pool.contains hash ∧ hash ∉ (gone ++ removedPending).map (·.hash) := by
  have reported : hash ∈ removedPending.map (·.hash) ↔
      hash ∈ txHashes ∧ hash ∈ pool.pendingTransactions.waitingQueue := by
    simp only [mem_map, discards.pending.reported]
    constructor
    · rintro ⟨_, ⟨other, listed, waiting, found, rfl⟩, rfl⟩
      rw [(invariant.pending.shaped found).1]
      exact ⟨listed, mem_of_lookup found⟩
    rintro ⟨listed, waits⟩
    obtain ⟨waiting, found⟩ := mem_iff_exists_lookup.mp waits
    exact ⟨waiting.transaction, ⟨hash, listed, waiting, found, rfl⟩,
      (invariant.pending.shaped found).1⟩
  have waits : hash ∈ after.pendingTransactions.waitingQueue ↔
      hash ∈ pool.pendingTransactions.waitingQueue ∧ hash ∉ txHashes := by
    rw [discards.pending.queue, mem_iff_exists_lookup, mem_iff_exists_lookup, lookup_eraseAll]
    by_cases listed : hash ∈ txHashes <;> simp [listed]
  have isReady := @discards.cascades.mem hash
  have stored := @discards.cascades.stored hash
  have disjoint := @invariant.disjoint hash
  simp only [contains, decide_eq_true_eq, map_append, mem_append]
  tauto

theorem Discards.mem_removed_iff (invariant : pool.Invariant [] budget)
    (isReady : hash ∈ pool.readyTransactions.readyTx) :
    hash ∈ (gone ++ removedPending).map (·.hash) ↔ hash ∉ after.readyTransactions.readyTx := by
  have contained := discards.contains_iff invariant hash
  have disjoint := invariant.disjoint isReady
  have waits : hash ∉ after.pendingTransactions.waitingQueue := by
    intro member
    obtain ⟨tx, found⟩ := mem_iff_exists_lookup.mp member
    exact disjoint (mem_of_lookup (discards.kept found))
  simp only [contains, decide_eq_true_eq, isReady, waits, or_true, true_and, false_or] at contained
  rw [contained, not_not]

/-- The ready transactions that depend on the listed ones go with them exactly
if those of which a marker was pruned before are listed themselves. -/
theorem Discards.linked_iff (invariant : pool.Invariant [] budget) :
    (∀ root ∈ txHashes, ∀ hash ∈ pool.readyTransactions.readyTx,
      Relation.ReflTransGen pool.readyTransactions.Requires root hash →
        hash ∈ (gone ++ removedPending).map (·.hash)) ↔
      pool.readyTransactions.Linked txHashes := by
  constructor
  · intro removed root listed owner hash tx path requires found unlisted
    have isReady := mem_of_lookup found
    have isGone := (discards.mem_removed_iff invariant isReady).mp
      (removed root listed hash isReady (path.tail requires))
    obtain ⟨origin, isListed, unlocked⟩ := discards.rooted.origin hash isReady isGone
    obtain rfl | ⟨last, _, unlocks⟩ := unlocked.cases_tail
    · exact absurd (mem_reverse.mp isListed) unlisted
    · exact (invariant.ready.unlocks_iff.mp unlocks).2 tx found
  intro linked root listed hash isReady path
  rw [discards.mem_removed_iff invariant isReady]
  clear isReady
  induction path with
  | refl => exact discards.cascades.taken (mem_reverse.mpr listed)
  | @tail owner hash path last isGone =>
    by_cases isListed : hash ∈ txHashes
    · exact discards.cascades.taken (mem_reverse.mpr isListed)
    obtain ⟨ownerTx, stored, member⟩ := invariant.ready.unlocks_iff.mpr
      ⟨last, fun tx found => linked root listed owner hash tx path last found isListed⟩
    exact discards.cascades.closed stored member isGone

theorem Discards.mem_removed (invariant : pool.Invariant [] budget)
    (contained : pool.contains hash) (listed : hash ∈ txHashes) :
    hash ∈ (gone ++ removedPending).map (·.hash) := by
  by_contra unreported
  have kept := (discards.contains_iff invariant hash).mpr ⟨contained, unreported⟩
  rw [contains_iff_held] at kept
  rcases kept with ready | waiting | none
  · exact discards.cascades.taken (mem_reverse.mpr listed) ready
  · obtain ⟨tx, found⟩ := mem_iff_exists_lookup.mp waiting
    simp [discards.pending.queue, lookup_eraseAll, if_pos listed] at found
  · cases none

end

theorem Promotions.hash_eq {queue : List PendingPoolTransaction}
    (promotions : Promotions budget pool queue ready after outcome) :
    outcome.hash = ready.hash := by
  induction promotions with
  | done => rfl
  | @round _ _ _ _ _ _ ready _ added promotes later same =>
    rw [same]
    cases added <;> rfl

theorem Adds.conserves {tx : PoolTransaction} {added : AddedReady}
    (adds : pool.Adds budget tx after (.ok (.ready added))) :
    (∀ hash, after.contains hash ↔
      (pool.contains hash ∨ hash = added.hash) ∧ hash ∉ added.reported) ∧
    ∀ hash ∈ added.promoted, ∃ waiting,
      pool.pendingTransactions.waitingQueue.lookup hash = some waiting ∧
        waiting.transaction.sender = tx.sender ∧
        (hash ∈ after.readyTransactions.readyTx ∨ hash ∈ added.removed.map (·.hash) ∧
          pool.Rivalled hash waiting.transaction) := by
  generalize same : ok (AddedTransaction.ready added) = outcome at adds
  cases adds with
  | ready provided flying enqueues =>
    subst same
    refine ⟨?_, fun hash => enqueues.promoted flying⟩
    intro hash
    have held := enqueues.held flying hash
    rw [← contains_iff_held] at held
    rw [held]
    have own : added.hash = tx.hash := by
      cases enqueues with
      | ready promotes promotions => exact promotions.hash_eq
    simp only [Held, contains, own, PendingPoolTransaction.new,
      lostInImport, AddedTransaction.reported, map_singleton,
      mem_singleton, decide_eq_true_eq]
    tauto
  | _ => cases same

end PoolInner

open PoolInner

/-- Rejecting a transaction leaves the pool as it was, and the transaction is
rejected only because it is known or underpriced. -/
theorem run_addTransaction_atomic (actions : List (HashOrder × Operation))
    (shaped : ∀ action ∈ actions, action.2.Shaped) :
    ∃ pool, run step (.ok .empty) actions = .ok pool ∧ ∀ order tx, RpcShaped tx → ∃ after outcome,
        pool.addTransaction order tx = .ok (after, outcome) ∧
        ∀ error, outcome = .error error → after = pool ∧
          (error = .alreadyImported tx.hash ∨ error = .replacementUnderpriced tx.hash) := by
  obtain ⟨pool, reached, invariant⟩ := run_invariant shaped
  refine ⟨pool, reached, ?_⟩
  intro order tx txShaped
  obtain ⟨after, outcome, added, adds, _⟩ := invariant.adds order txShaped
  refine ⟨after, outcome, added, ?_⟩
  rintro error rfl
  generalize same : Except.error error = result at adds
  cases adds with
  | imported =>
    cases same
    exact ⟨rfl, .inl rfl⟩
  | ready provided flying enqueues =>
    subst same
    cases enqueues with
    | underpriced => exact ⟨rfl, .inr rfl⟩
  | underpriced =>
    cases same
    exact ⟨rfl, .inr rfl⟩
  | waits unprovided unwaiting adds => cases same

theorem run_addTransaction_atomic_underpriced : ∃ pool, run step (.ok .empty)
        [(.asListed, .addTransaction (rpcTransaction 10 1 0 [] 5)),
          (.asListed, .addTransaction (rpcTransaction 12 1 2 [toMarker 1 1] 5))] = .ok pool ∧
      pool.addTransaction .asListed (rpcTransaction 11 1 2 [toMarker 1 1] 5) =
        .ok (pool, .error (.replacementUnderpriced 11)) := by
  obtain ⟨pool, reached, atomic⟩ := run_addTransaction_atomic
    [(.asListed, .addTransaction (rpcTransaction 10 1 0 [] 5)),
      (.asListed, .addTransaction (rpcTransaction 12 1 2 [toMarker 1 1] 5))] (by decide)
  obtain ⟨after, outcome, added, rejected⟩ := atomic .asListed
    (rpcTransaction 11 1 2 [toMarker 1 1] 5) (by decide)
  have underpriced : (run step (.ok .empty)
      [(.asListed, .addTransaction (rpcTransaction 10 1 0 [] 5)),
        (.asListed, .addTransaction (rpcTransaction 12 1 2 [toMarker 1 1] 5))]).bind (fun pool =>
        (pool.addTransaction .asListed (rpcTransaction 11 1 2 [toMarker 1 1] 5)).map Prod.snd) =
      .ok (.error (.replacementUnderpriced 11)) := by
    decide +kernel
  rw [reached] at underpriced
  change (pool.addTransaction _ _).map Prod.snd = _ at underpriced
  rw [added] at underpriced
  cases underpriced
  obtain ⟨rfl, _⟩ := rejected _ rfl
  exact ⟨_, reached, added⟩

/-- The pool after a transaction that waits for the nonce before its own, and
then the given ones. -/
def poolAfter (txs : List PoolTransaction) : PoolInner :=
  ((run step (.ok .empty) (((rpcTransaction 11 1 1 [toMarker 0 1] 9) :: txs).map fun tx =>
    (.asListed, .addTransaction tx))).toOption).getD .empty

/-- Hash sets are iterated from their last listed element. -/
def HashOrder.reversed : HashOrder where
  shuffle := reverse
  perm := reverse_perm

end SwissledgerFoundry.Pool
