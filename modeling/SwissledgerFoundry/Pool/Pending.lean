import SwissledgerFoundry.Collections.Except
import SwissledgerFoundry.Pool.Inner

/-!
# The waiting queue

A waiting transaction misses the one marker that it requires, and the table of
required markers lists it under that marker.
-/

namespace SwissledgerFoundry.Pool

open List AList Option

namespace PendingTransactions

structure Invariant (pending : PendingTransactions) : Prop where
  shaped : ∀ {hash tx}, pending.waitingQueue.lookup hash = some tx →
    tx.transaction.hash = hash ∧ RpcShaped tx.transaction ∧
      ∃ marker, tx.transaction.requires = [marker] ∧ tx.missingMarkers = [marker]
  required : ∀ {marker hash},
    (∃ hashes, pending.requiredMarkers.lookup marker = some hashes ∧ hash ∈ hashes) ↔
    ∃ tx, pending.waitingQueue.lookup hash = some tx ∧ marker ∈ tx.missingMarkers
  nodup : ∀ {marker hashes}, pending.requiredMarkers.lookup marker = some hashes → hashes.Nodup
  nonempty : ∀ {marker}, pending.requiredMarkers.lookup marker ≠ some []

theorem empty_invariant : empty.Invariant := by
  constructor
  · intro hash tx found
    simp [empty] at found
  · intro marker hash
    simp [empty]
  · intro marker hashes found
    simp [empty] at found
  · intro marker
    simp [empty]

/-- The table of waiting markers names each waiting transaction under what it
provides, and nothing else. -/
structure Tracked (pending : PendingTransactions) : Prop where
  named : ∀ {provides hash}, pending.waitingMarkers.lookup provides = some hash ↔
    ∃ tx, pending.waitingQueue.lookup hash = some tx ∧ tx.transaction.provides = provides

theorem empty_tracked : empty.Tracked := by
  constructor
  intro provides hash
  simp [empty]

variable {pending : PendingTransactions} {tx : PendingPoolTransaction}
  {after : PendingTransactions} {hash : TxHash}

/-- Taking a transaction out of the queue together with its entry keeps the
table up to date. -/
theorem Tracked.erase (tracked : pending.Tracked)
    (found : pending.waitingQueue.lookup hash = some tx)
    (queue : after.waitingQueue = pending.waitingQueue.erase hash)
    (markers : after.waitingMarkers = pending.waitingMarkers.erase tx.transaction.provides) :
    after.Tracked := by
  constructor
  intro provides other
  have named := tracked.named.mpr ⟨tx, found, rfl⟩
  rw [queue, markers, lookup_erase_eq, lookup_erase_eq]
  by_cases own : provides = tx.transaction.provides
  · subst provides
    simp only [if_true, reduceCtorEq, false_iff, not_exists, not_and]
    intro otherTx otherFound same
    split at otherFound
    · cases otherFound
    rename_i different
    have otherNamed := tracked.named.mpr ⟨otherTx, otherFound, same⟩
    exact different (some.inj (otherNamed.symm.trans named))
  rw [if_neg own, tracked.named]
  by_cases same : other = hash
  · subst other
    simp only [if_true, reduceCtorEq, false_and, exists_false, iff_false, not_exists, not_and]
    intro otherTx otherFound sameProvides
    rw [some.inj (otherFound.symm.trans found)] at sameProvides
    exact own sameProvides.symm
  · rw [if_neg same]

/-- The transactions that miss `marker` are unlocked, and the others are left
as they are. -/
structure Unlocks (marker : TxMarker) (before after : PendingTransactions)
    (unlocked : List PendingPoolTransaction) : Prop where
  kept : ∀ {hash tx}, after.waitingQueue.lookup hash = some tx ↔
    before.waitingQueue.lookup hash = some tx ∧ marker ∉ tx.missingMarkers
  taken : ∀ {tx}, tx ∈ unlocked → tx.missingMarkers = [] ∧
    ∃ waiting, before.waitingQueue.lookup tx.transaction.hash = some waiting ∧
      waiting.transaction = tx.transaction ∧ marker ∈ waiting.missingMarkers
  complete : ∀ {hash waiting}, before.waitingQueue.lookup hash = some waiting →
    marker ∈ waiting.missingMarkers →
    ∃ tx ∈ unlocked, tx.transaction = waiting.transaction
  nodup : (unlocked.map (·.transaction.hash)).Nodup
  tracked : before.Tracked → after.Tracked
  size : after.waitingQueue.size + unlocked.length = before.waitingQueue.size

variable {before : PendingTransactions}

section

variable {marker : TxMarker} {unlocked : List PendingPoolTransaction}
  (unlocks : Unlocks marker before after unlocked)

include unlocks

theorem Unlocks.mem_waitingQueue
    (member : hash ∈ after.waitingQueue) : hash ∈ before.waitingQueue := by
  obtain ⟨tx, found⟩ := mem_iff_exists_lookup.mp member
  exact mem_of_lookup ((unlocks.kept.mp found).1)

theorem Unlocks.mem_of_mem_unlocked (taken : tx ∈ unlocked) :
    tx.transaction.hash ∈ before.waitingQueue ∧ tx.transaction.hash ∉ after.waitingQueue := by
  obtain ⟨_, waiting, found, _, missed⟩ := unlocks.taken taken
  refine ⟨mem_of_lookup found, ?_⟩
  intro member
  obtain ⟨other, stored⟩ := mem_iff_exists_lookup.mp member
  obtain ⟨earlier, unmarked⟩ := unlocks.kept.mp stored
  rw [some.inj (earlier.symm.trans found)] at unmarked
  exact unmarked missed

end

theorem markHash_eq {mark : TxMarker} {unlocked : List PendingPoolTransaction}
    (found : pending.waitingQueue.lookup hash = some tx)
    (missing : tx.missingMarkers = [mark]) :
    markHash mark (pending, unlocked) hash =
      .ok ({ pending with
          waitingQueue := pending.waitingQueue.erase hash
          waitingMarkers := pending.waitingMarkers.erase tx.transaction.provides },
        unlocked ++ [{ tx with missingMarkers := [] }]) := by
  simp [markHash, found, PendingPoolTransaction.mark, missing, PendingPoolTransaction.isReady]

theorem markHashes {mark : TxMarker} {hashes : List TxHash} (nodup : hashes.Nodup)
    (pending : PendingTransactions)
    (unlocked : List PendingPoolTransaction)
    (waiting : ∀ hash ∈ hashes, ∃ tx, pending.waitingQueue.lookup hash = some tx ∧
      tx.missingMarkers = [mark]) :
    ∃ after, hashes.foldlM (markHash mark) (pending, unlocked) =
        .ok (after, unlocked ++ hashes.filterMap fun hash =>
          (pending.waitingQueue.lookup hash).map fun tx => { tx with missingMarkers := [] }) ∧
      after.requiredMarkers = pending.requiredMarkers ∧
      after.waitingQueue = pending.waitingQueue.eraseAll hashes ∧
      (pending.Tracked → after.Tracked) := by
  induction hashes generalizing pending unlocked with
  | nil => exact ⟨pending, by simp; rfl, rfl, rfl, fun tracked => tracked⟩
  | cons hash hashes ih =>
    obtain ⟨tx, found, missing⟩ := waiting hash mem_cons_self
    obtain ⟨absent, nodup⟩ := nodup_cons.mp nodup
    have unchanged : ∀ other ∈ hashes,
        (pending.waitingQueue.erase hash).lookup other = pending.waitingQueue.lookup other := by
      intro other member
      rw [lookup_erase_ne]
      rintro rfl
      exact absent member
    obtain ⟨after, looped, required, queue, tracks⟩ := ih nodup
      { pending with
        waitingQueue := pending.waitingQueue.erase hash
        waitingMarkers := pending.waitingMarkers.erase tx.transaction.provides }
      (unlocked ++ [{ tx with missingMarkers := [] }])
      (fun other member => by
        rw [unchanged other member]
        exact waiting other (mem_cons_of_mem hash member))
    refine ⟨after, ?_, required, queue, fun tracked => tracks (tracked.erase found rfl rfl)⟩
    rw [Except.foldlM_cons_eq, markHash_eq found missing]
    change hashes.foldlM _ _ = _
    rw [looped, filterMap_cons, found, append_assoc]
    congr 3
    simp only [map_some, singleton_append]
    congr 1
    apply filterMap_congr
    intro other member
    rw [unchanged other member]

variable {marker : TxMarker}

section

variable (invariant : pending.Invariant)

include invariant

theorem Invariant.missing_of_mem (found : pending.waitingQueue.lookup hash = some tx)
    (missing : marker ∈ tx.missingMarkers) :
    tx.missingMarkers = [marker] := by
  obtain ⟨_, _, required, _, same⟩ := invariant.shaped found
  rw [same, mem_singleton] at missing
  rw [same, missing]

section

variable {marker : TxMarker}
  (unmissed : ∀ {hash tx}, pending.waitingQueue.lookup hash = some tx → marker ∉ tx.missingMarkers)

include unmissed

theorem Invariant.lookup_requiredMarkers : pending.requiredMarkers.lookup marker = none := by
  cases listed : pending.requiredMarkers.lookup marker with
  | none => rfl
  | some hashes =>
    cases hashes with
    | nil => exact absurd listed invariant.nonempty
    | cons hash hashes =>
      obtain ⟨tx, found, missing⟩ := invariant.required.mp ⟨_, listed, mem_cons_self⟩
      exact absurd missing (unmissed found)

/-- Nothing happens when a marker is checked off that no transaction
misses. -/
theorem Invariant.markAndUnlock_eq_self (order : HashOrder) :
    pending.markAndUnlock order [marker] = .ok (pending, []) := by
  have listed := invariant.lookup_requiredMarkers unmissed
  simp only [markAndUnlock, foldlM_cons, foldlM_nil, listed]
  rfl

end

/-- The hashes that are taken out for a marker.  Where the table has no entry
there are none of them. -/
theorem Invariant.exists_hashes (order : HashOrder) (marker : TxMarker) : ∃ hashes : List TxHash,
      pending.markAndUnlock order [marker] = hashes.foldlM (markHash marker)
        ({ pending with requiredMarkers := pending.requiredMarkers.erase marker }, []) ∧
      hashes.Nodup ∧ ∀ hash, hash ∈ hashes ↔ ∃ required,
        pending.requiredMarkers.lookup marker = some required ∧ hash ∈ required := by
  simp only [markAndUnlock, foldlM_cons, foldlM_nil, bind_pure]
  cases listed : pending.requiredMarkers.lookup marker with
  | none =>
    refine ⟨[], ?_, nodup_nil, by simp⟩
    rw [erase_of_notMem (lookup_eq_none.mp listed)]
    rfl
  | some required =>
    have perm := order.perm required
    exact ⟨_, rfl, perm.nodup_iff.mpr (invariant.nodup listed), by simp [perm.mem_iff]⟩

/-- Checking off a marker never panics: it unlocks the transactions that miss
the marker. -/
theorem markAndUnlock_eq_ok (order : HashOrder) (marker : TxMarker) :
    ∃ after unlocked, pending.markAndUnlock order [marker] = .ok (after, unlocked) ∧
      after.Invariant ∧ Unlocks marker pending after unlocked := by
  have noneMissing : ∀ {other hash tx}, other ≠ marker →
      pending.waitingQueue.lookup hash = some tx →
      other ∈ tx.missingMarkers → marker ∉ tx.missingMarkers := by
    intro other hash tx different found missing
    rw [invariant.missing_of_mem found missing, mem_singleton]
    exact different.symm
  obtain ⟨hashes, marked, nodup, listed⟩ := invariant.exists_hashes order marker
  have waiting := fun hash => (listed hash).trans invariant.required
  obtain ⟨after, looped, required, queue, tracks⟩ := markHashes nodup
    { pending with requiredMarkers := pending.requiredMarkers.erase marker } []
    (fun hash member => by
      obtain ⟨tx, found, missing⟩ := (waiting hash).mp member
      exact ⟨tx, found, invariant.missing_of_mem found missing⟩)
  have lookup : ∀ {hash tx}, after.waitingQueue.lookup hash = some tx ↔
        pending.waitingQueue.lookup hash = some tx ∧ marker ∉ tx.missingMarkers := by
    intro hash tx
    rw [queue, lookup_eraseAll]
    split
    · rename_i member
      obtain ⟨other, found, missing⟩ := (waiting hash).mp member
      simp only [found, some.injEq, reduceCtorEq, false_iff, not_and, not_not]
      rintro rfl
      exact missing
    rename_i outside
    constructor
    · intro found
      exact ⟨found, fun missing => outside ((waiting hash).mpr ⟨tx, found, missing⟩)⟩
    · intro kept
      exact kept.1
  refine ⟨after, hashes.filterMap fun hash =>
    (pending.waitingQueue.lookup hash).map fun tx => { tx with missingMarkers := [] }, ?_, ?_, ?_⟩
  · simp [marked, looped]
  · constructor
    · intro hash tx found
      exact invariant.shaped (lookup.mp found).1
    · intro other hash
      rw [required, lookup_erase_eq]
      by_cases same : other = marker
      · subst other
        simp only [if_true, reduceCtorEq, false_and, exists_false, false_iff, not_exists, not_and]
        intro tx found
        exact (lookup.mp found).2
      rw [if_neg same, invariant.required]
      constructor
      · rintro ⟨tx, found, missing⟩
        exact ⟨tx, lookup.mpr ⟨found, noneMissing same found missing⟩, missing⟩
      · rintro ⟨tx, found, missing⟩
        exact ⟨tx, (lookup.mp found).1, missing⟩
    · intro other hashes found
      rw [required] at found
      exact invariant.nodup (lookup_of_erase found)
    · intro other found
      rw [required] at found
      exact invariant.nonempty (lookup_of_erase found)
  have unlockedHashes : (hashes.filterMap fun hash =>
      (pending.waitingQueue.lookup hash).map fun tx =>
        ({ tx with missingMarkers := [] } : PendingPoolTransaction)).map (·.transaction.hash) =
      hashes := by
    rw [map_filterMap]
    refine (filterMap_congr ?_).trans filterMap_some
    intro hash member
    obtain ⟨tx, found, _⟩ := (waiting hash).mp member
    simp [found, (invariant.shaped found).1]
  constructor
  · exact lookup
  · intro tx member
    obtain ⟨hash, listed, taken⟩ := mem_filterMap.mp member
    obtain ⟨waitingTx, found, missing⟩ := (waiting hash).mp listed
    rw [found, map_some, some.injEq] at taken
    subst tx
    refine ⟨rfl, waitingTx, ?_, rfl, missing⟩
    rw [(invariant.shaped found).1]
    exact found
  · intro hash waitingTx found missing
    refine ⟨{ waitingTx with missingMarkers := [] }, ?_, rfl⟩
    refine mem_filterMap.mpr ⟨hash, ?_, ?_⟩
    · exact (waiting hash).mpr ⟨waitingTx, found, missing⟩
    · simp [found]
  · rw [unlockedHashes]
    exact nodup
  · exact fun tracked => tracks ⟨tracked.named⟩
  have length := congrArg length unlockedHashes
  rw [length_map] at length
  rw [length, queue]
  apply size_eraseAll nodup
  intro hash member
  obtain ⟨tx, found, _⟩ := (waiting hash).mp member
  exact mem_of_lookup found

end

theorem lookup_removeRequired {required : HashMap TxMarker (List TxHash)}
    (nodup : ∀ {marker hashes}, required.lookup marker = some hashes → hashes.Nodup) :
    (∀ {probe other}, (∃ hashes,
        (removeRequired hash required marker).lookup probe = some hashes ∧ other ∈ hashes) ↔
      (∃ hashes, required.lookup probe = some hashes ∧ other ∈ hashes) ∧
        ¬ (probe = marker ∧ other = hash)) ∧
    (∀ {probe hashes}, (removeRequired hash required marker).lookup probe = some hashes →
      hashes.Nodup) ∧
    ∀ {probe}, (removeRequired hash required marker).lookup probe = some [] →
      required.lookup probe = some [] := by
  cases listed : required.lookup marker with
  | none =>
    have unchanged : removeRequired hash required marker = required := by
      simp [removeRequired, listed]
    rw [unchanged]
    refine ⟨?_, nodup, fun found => found⟩
    intro probe other
    constructor
    · rintro ⟨hashes, found, member⟩
      refine ⟨⟨hashes, found, member⟩, ?_⟩
      rintro ⟨rfl, _⟩
      simp [listed] at found
    · intro kept
      exact kept.1
  | some hashes =>
    have hashesNodup := nodup listed
    have lookup : ∀ probe, (removeRequired hash required marker).lookup
        probe = if probe = marker then
          (if hashes.erase hash = [] then none else some (hashes.erase hash))
        else required.lookup probe := by
      intro probe
      simp only [removeRequired, listed, List.isEmpty_iff]
      split
      · rw [AList.lookup_erase_eq]
      · rw [AList.lookup_insert_eq]
    refine ⟨?_, ?_, ?_⟩
    · intro probe other
      rw [lookup]
      by_cases same : probe = marker
      · subst probe
        have erased : other ∈ hashes.erase hash ↔ other ∈ hashes ∧ other ≠ hash := by
          rw [hashesNodup.mem_erase_iff, and_comm]
        simp only [if_true, listed, some.injEq, exists_eq_left', true_and, ← erased]
        split
        · rename_i nothing
          simp [nothing]
        · simp
      · simp [same]
    · intro probe found nodupFound
      rw [lookup] at nodupFound
      split at nodupFound
      · split at nodupFound
        · cases nodupFound
        · cases nodupFound
          exact hashesNodup.erase hash
      · exact nodup nodupFound
    intro probe found
    rw [lookup] at found
    split at found
    · split at found
      · cases found
      · rename_i something
        exact absurd (some.inj found) something
    · exact found

theorem removeHash_eq {removed : List PoolTransaction}
    (found : pending.waitingQueue.lookup hash = some tx)
    (missing : tx.missingMarkers = [marker]) :
    removeHash (pending, removed) hash =
      ({ requiredMarkers :=
          removeRequired hash pending.requiredMarkers marker
         waitingMarkers := pending.waitingMarkers.erase tx.transaction.provides
         waitingQueue := pending.waitingQueue.erase hash },
        removed ++ [tx.transaction]) := by
  simp [removeHash, found, missing]

variable (invariant : pending.Invariant)

include invariant

theorem removeHash_invariant (removed : List PoolTransaction) (hash : TxHash) :
    (removeHash (pending, removed) hash).1.Invariant ∧
    (removeHash (pending, removed) hash).1.waitingQueue = pending.waitingQueue.erase hash ∧
    (pending.Tracked → (removeHash (pending, removed) hash).1.Tracked) ∧
    (removeHash (pending, removed) hash).2 = removed ++
      ((pending.waitingQueue.lookup hash).map (·.transaction)).toList := by
  cases found : pending.waitingQueue.lookup hash with
  | none =>
    have unchanged : removeHash (pending, removed) hash = (pending, removed) := by
      simp [removeHash, found]
    rw [unchanged]
    refine ⟨invariant, ?_, fun tracked => tracked, ?_⟩
    · exact (erase_of_notMem (lookup_eq_none.mp found)).symm
    · exact (append_nil removed).symm
  | some tx =>
    obtain ⟨same, shaped, marker, requires, missing⟩ := invariant.shaped found
    rw [removeHash_eq found missing]
    obtain ⟨required, nodup, nonempty⟩ := lookup_removeRequired invariant.nodup
    refine ⟨⟨?_, ?_, nodup, fun empty =>
      invariant.nonempty (nonempty empty)⟩, rfl,
      fun tracked => tracked.erase found rfl rfl, rfl⟩
    · intro other otherTx otherFound
      exact invariant.shaped (lookup_of_erase otherFound)
    intro probe other
    rw [required, invariant.required]
    by_cases sameHash : other = hash
    · subst other
      simp [found, missing]
    · simp [sameHash]

/-- What `remove` leaves in the queue and reports as removed. -/
structure Removes (pending : PendingTransactions) (hashes : List TxHash)
    (after : PendingTransactions) (removed : List PoolTransaction) :
    Prop where
  invariant : after.Invariant
  queue : after.waitingQueue = pending.waitingQueue.eraseAll hashes
  tracked : pending.Tracked → after.Tracked
  reported : ∀ {tx}, tx ∈ removed ↔ ∃ hash ∈ hashes, ∃ waiting,
    pending.waitingQueue.lookup hash = some waiting ∧
    waiting.transaction = tx

theorem remove_removes (hashes : List TxHash) :
    pending.Removes hashes (pending.remove hashes).1 (pending.remove hashes).2 := by
  have loop : ∀ (pending : PendingTransactions)
      (removed : List PoolTransaction), pending.Invariant →
      ∃ after gone, hashes.foldl removeHash (pending, removed) =
        (after, removed ++ gone) ∧ pending.Removes hashes after gone := by
    induction hashes with
    | nil =>
      intro pending removed invariant
      refine ⟨pending, [], ?_, invariant, rfl, fun tracked => tracked, ?_⟩
      · simp [append_nil]
      · simp
    | cons hash hashes ih =>
      intro pending removed invariant
      obtain ⟨next, queue, tracks, reports⟩ := removeHash_invariant invariant removed hash
      obtain ⟨after, gone, looped, removes⟩ := ih _ (removeHash (pending, removed) hash).2 next
      refine ⟨after, ((pending.waitingQueue.lookup hash).map
          (·.transaction)).toList ++ gone, ?_, removes.invariant, ?_,
        fun tracked => removes.tracked (tracks tracked), ?_⟩
      · rw [← append_assoc, ← reports]
        exact looped
      · rw [removes.queue, queue]
        rfl
      intro tx
      have reported := @removes.reported tx
      rw [queue] at reported
      rw [mem_append, reported]
      simp only [lookup_erase_eq, mem_cons, exists_eq_or_imp, mem_toList, map_eq_some_iff]
      by_cases first : ∃ waiting,
          pending.waitingQueue.lookup hash = some waiting ∧ waiting.transaction = tx
      · simp only [first, true_or]
      apply or_congr_right
      apply exists_congr
      intro other
      by_cases same : other = hash
      · subst other
        simp only [if_true, reduceCtorEq, false_and, exists_false, and_false, false_iff, not_and]
        exact fun _ => first
      · rw [if_neg same]
  obtain ⟨after, gone, looped, removes⟩ := loop pending [] invariant
  rw [remove, looped]
  exact removes

/-- A transaction that outbids the one named under what it provides entered
the queue. -/
structure Adds (pending : PendingTransactions) (tx : PendingPoolTransaction)
    (after : PendingTransactions) : Prop where
  queue : after.waitingQueue = pending.waitingQueue.insert tx.transaction.hash tx
  markers : after.waitingMarkers = pending.waitingMarkers.insert
    tx.transaction.provides tx.transaction.hash
  outbids : ∀ {hash other}, pending.waitingMarkers.lookup tx.transaction.provides = some hash →
    pending.waitingQueue.lookup hash = some other →
    other.transaction.maxFeePerGas < tx.transaction.maxFeePerGas

theorem addTransaction_eq_ok (shaped : RpcShaped tx.transaction)
    (requires : tx.transaction.requires = [marker])
    (missing : tx.missingMarkers = [marker])
    (absent : tx.transaction.hash ∉ pending.waitingQueue) :
    pending.addTransaction tx = .ok (pending,
      .error (.replacementUnderpriced tx.transaction.hash)) ∨
    ∃ after, pending.addTransaction tx = .ok (after, .ok ()) ∧
      after.Invariant ∧ pending.Adds tx after := by
  have notReady : tx.isReady = false := by simp [PendingPoolTransaction.isReady, missing]
  unfold addTransaction
  rw [notReady, if_neg Bool.false_ne_true, if_neg absent]
  dsimp only
  split
  · exact .inl rfl
  rename_i underbid
  refine .inr ⟨_, rfl, ⟨?_, ?_, ?_, ?_⟩, rfl, rfl, ?_⟩
  · intro hash other found
    obtain ⟨rfl, rfl⟩ | ⟨_, found⟩ := lookup_of_insert found
    · exact ⟨rfl, shaped, marker, requires, missing⟩
    · exact invariant.shaped found
  · intro probe hash
    have unlisted : ¬ ∃ hashes,
        pending.requiredMarkers.lookup probe = some hashes ∧ tx.transaction.hash ∈ hashes := by
      rw [invariant.required]
      rintro ⟨other, found, _⟩
      exact absent (mem_of_lookup found)
    simp only [missing, foldl_cons, foldl_nil, lookup_insert_eq]
    by_cases sameHash : hash = tx.transaction.hash
    · subst hash
      simp only [if_true, some.injEq, exists_eq_left', missing, mem_singleton]
      by_cases sameMarker : probe = marker
      · simp [sameMarker]
      · simp only [sameMarker, if_false, iff_false]
        exact unlisted
    rw [if_neg sameHash, ← invariant.required]
    by_cases sameMarker : probe = marker
    · subst probe
      cases old : pending.requiredMarkers.lookup marker <;> simp [sameHash]
    · simp [sameMarker]
  · intro probe hashes found
    rw [missing] at found
    obtain ⟨_, rfl⟩ | ⟨_, found⟩ := lookup_of_insert found
    · apply Nodup.insert
      cases listed : pending.requiredMarkers.lookup marker with
      | none => exact nodup_nil
      | some hashes => exact invariant.nodup listed
    · exact invariant.nodup found
  · intro probe found
    rw [missing] at found
    obtain ⟨_, nil⟩ | ⟨_, found⟩ := lookup_of_insert found
    · have inserted : tx.transaction.hash ∈ ([] : List TxHash) := nil ▸ mem_insert_self
      cases inserted
    · exact invariant.nonempty found
  intro hash other named found
  rw [named, bind_some, found, any_some, decide_eq_true_eq] at underbid
  exact Nat.lt_of_not_le underbid

end PendingTransactions

end SwissledgerFoundry.Pool
