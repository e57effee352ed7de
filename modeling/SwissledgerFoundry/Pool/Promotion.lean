import SwissledgerFoundry.Pool.Insertion
import SwissledgerFoundry.Pool.Pending

/-!
# Promoting waiting transactions

While transactions move from the waiting to the ready queue, some of them are in
neither; the invariant takes these as a parameter.  Ids tell the ready
transactions apart as long as their counter does not wrap around.
-/

namespace SwissledgerFoundry.Pool

open List AList PendingTransactions

namespace ReadyTransactions

/-- The ids below `count` have been handed out. -/
structure Numbered (ready : ReadyTransactions) (count : ℕ) : Prop where
  id : ready.id = UInt64.ofNat count
  below : ∀ {hash tx}, ready.readyTx.lookup hash = some tx → tx.transaction.id.toNat < count

section Numbered

variable {ready after : ReadyTransactions} {count : ℕ} (numbered : ready.Numbered count)

include numbered

theorem Numbered.fresh (bounded : count < 2 ^ 64) : ready.Fresh := by
  intro hash tx found same
  have below := numbered.below found
  rw [same, numbered.id, UInt64.toNat_ofNat_of_lt' bounded] at below
  omega

theorem Numbered.shrinks {pruned : TxMarker → Prop}
    (shrinks : Shrinks pruned ready after) : after.Numbered count where
  id := shrinks.id.trans numbered.id
  below := by
    intro hash tx found
    obtain ⟨earlier, stored, sameRef, _⟩ := shrinks.entry found
    rw [sameRef]
    exact numbered.below stored

theorem Numbered.inserted {tx : PoolTransaction} {unlocks : List TxHash}
    (inserted : Inserted ready after tx unlocks) :
    after.Numbered (count + 1) where
  id := by simp [inserted.id, numbered.id, UInt64.ofNat_add]
  below := by
    intro hash found stored
    rcases inserted.cases stored with ⟨rfl, rfl⟩ | ⟨other, earlier, rfl⟩
    · change ready.id.toNat < count + 1
      rw [numbered.id]
      exact Nat.lt_succ_of_le (Nat.mod_le _ _)
    · have below := numbered.below earlier
      exact Nat.lt_succ_of_lt below

end Numbered

end ReadyTransactions

open ReadyTransactions

namespace PoolInner

/-- The invariant of the pool while the transactions `inFlight` are in neither
queue.  No more than `budget` ids can be handed out, so the counter of ids has
not wrapped around if there are that many. -/
structure Invariant (pool : PoolInner)
    (inFlight : List PendingPoolTransaction) (budget : ℕ) : Prop where
  ready : pool.readyTransactions.Invariant (budget ≤ 2 ^ 64) fun _ => False
  pending : pool.pendingTransactions.Invariant
  disjoint : ∀ {hash}, hash ∈ pool.readyTransactions.readyTx →
    hash ∉ pool.pendingTransactions.waitingQueue
  missing : ∀ {hash tx marker}, pool.pendingTransactions.waitingQueue.lookup hash = some tx →
    marker ∈ tx.missingMarkers →
    marker ∉ pool.readyTransactions.providedMarkers
  complete : ∀ {tx}, tx ∈ inFlight → RpcShaped tx.transaction ∧ tx.missingMarkers = []
  apart : ∀ {tx}, tx ∈ inFlight → tx.transaction.hash ∉ pool.readyTransactions.readyTx ∧
    tx.transaction.hash ∉ pool.pendingTransactions.waitingQueue
  nodup : (inFlight.map (·.transaction.hash)).Nodup
  numbered : ∃ count, pool.readyTransactions.Numbered count ∧
    count + pool.pendingTransactions.waitingQueue.size + inFlight.length ≤ budget

/-- One round of `add_ready_transaction`: the transactions that waited for the
marker of `tx` are unlocked, and `tx` enters the ready queue; or it is
underpriced, and then no transaction waited for its marker. -/
structure Promotes (pool : PoolInner) (budget : ℕ) (tx : PoolTransaction)
    (after : PoolInner) (unlocked : List PendingPoolTransaction)
    (added : Except PoolError (List PoolTransaction)) : Prop where
  pendingInvariant : after.pendingTransactions.Invariant
  readyInvariant : after.readyTransactions.Invariant (budget ≤ 2 ^ 64) fun _ => False
  pending : Unlocks (toMarker tx.nonce tx.sender)
    pool.pendingTransactions after.pendingTransactions unlocked
  ready : (added = .error (.replacementUnderpriced tx.hash) ∧ after = pool ∧ unlocked = [] ∧
      toMarker tx.nonce tx.sender ∈ pool.readyTransactions.providedMarkers) ∨
    ∃ base inherited replacedTx, added = .ok replacedTx ∧
      Replaces pool.readyTransactions tx base inherited replacedTx ∧
      Inserted base after.readyTransactions tx inherited

variable {pool after : PoolInner} {tx : PendingPoolTransaction}
  {rest unlocked : List PendingPoolTransaction} {budget : ℕ}
  {added : Except PoolError (List PoolTransaction)}

/-- The invariant after some waiting transactions were unlocked by a marker
and transactions in flight entered the ready queue or were dropped. -/
theorem Invariant.advance {inFlight : List PendingPoolTransaction} {marker : TxMarker}
    (invariant : pool.Invariant inFlight budget)
    (readyInvariant : after.readyTransactions.Invariant (budget ≤ 2 ^ 64) fun _ => False)
    (pendingInvariant : after.pendingTransactions.Invariant)
    (unlocks : Unlocks marker pool.pendingTransactions after.pendingTransactions unlocked)
    (kept : rest.Sublist inFlight)
    (entered : ∀ hash ∈ after.readyTransactions.readyTx, hash ∈ pool.readyTransactions.readyTx ∨
        (hash ∈ inFlight.map (·.transaction.hash) ∧ hash ∉ rest.map (·.transaction.hash)))
    (provided : ∀ other ∈ after.readyTransactions.providedMarkers,
      other ∈ pool.readyTransactions.providedMarkers ∨ other = marker)
    (numbered : ∃ count, after.readyTransactions.Numbered count ∧
      count + pool.pendingTransactions.waitingQueue.size + rest.length ≤ budget) :
    after.Invariant (rest ++ unlocked) budget where
  ready := readyInvariant
  pending := pendingInvariant
  disjoint := by
    intro hash isReady isWaiting
    have waited := unlocks.mem_waitingQueue isWaiting
    rcases entered hash isReady with wasReady | ⟨flew, _⟩
    · exact invariant.disjoint wasReady waited
    · obtain ⟨tx, member, rfl⟩ := mem_map.mp flew
      exact (invariant.apart member).2 waited
  missing := by
    intro hash waiting missed found isMissing isProvided
    obtain ⟨earlier, unmarked⟩ := unlocks.kept.mp found
    rcases provided missed isProvided with wasProvided | rfl
    · exact invariant.missing earlier isMissing wasProvided
    · exact unmarked isMissing
  complete := by
    intro tx member
    rcases mem_append.mp member with isKept | taken
    · exact invariant.complete (kept.subset isKept)
    obtain ⟨nothing, waiting, found, same, _⟩ := unlocks.taken taken
    rw [← same]
    exact ⟨(invariant.pending.shaped found).2.1, nothing⟩
  apart := by
    intro tx member
    rcases mem_append.mp member with isKept | taken
    · obtain ⟨unready, unwaiting⟩ := invariant.apart (kept.subset isKept)
      refine ⟨?_, fun isWaiting => unwaiting (unlocks.mem_waitingQueue isWaiting)⟩
      intro isReady
      rcases entered _ isReady with wasReady | ⟨_, left⟩
      · exact unready wasReady
      · exact left (mem_map_of_mem isKept)
    obtain ⟨waited, gone⟩ := unlocks.mem_of_mem_unlocked taken
    refine ⟨?_, gone⟩
    intro isReady
    rcases entered _ isReady with wasReady | ⟨flew, _⟩
    · exact invariant.disjoint wasReady waited
    obtain ⟨other, otherMember, same⟩ := mem_map.mp flew
    rw [← same] at waited
    exact (invariant.apart otherMember).2 waited
  nodup := by
    rw [map_append]
    apply Nodup.append ((kept.map _).nodup invariant.nodup) unlocks.nodup
    intro hash isKept taken
    obtain ⟨tx, member, rfl⟩ := mem_map.mp isKept
    obtain ⟨other, otherMember, same⟩ := mem_map.mp taken
    have waited := (unlocks.mem_of_mem_unlocked otherMember).1
    rw [same] at waited
    exact (invariant.apart (kept.subset member)).2 waited
  numbered := by
    obtain ⟨count, numbered, enough⟩ := numbered
    refine ⟨count, numbered, ?_⟩
    have size := unlocks.size
    rw [length_append]
    omega

theorem Invariant.promotes (invariant : pool.Invariant (tx :: rest) budget) (order : HashOrder) :
    ∃ pending unlocked ready added,
      pool.pendingTransactions.markAndUnlock order tx.transaction.provides =
        .ok (pending, unlocked) ∧
      pool.readyTransactions.addTransaction order tx = .ok (ready, added) ∧
      pool.Promotes budget tx.transaction
        { readyTransactions := ready
          pendingTransactions := pending } unlocked added := by
  obtain ⟨shaped, complete⟩ := invariant.complete mem_cons_self
  obtain ⟨pending, unlocked, marked, pendingInvariant, unlocks⟩ :=
    markAndUnlock_eq_ok invariant.pending order
      (toMarker tx.transaction.nonce tx.transaction.sender)
  obtain ⟨count, numbered, enough⟩ := invariant.numbered
  rw [length_cons] at enough
  rcases addTransaction_eq_ok invariant.ready order shaped complete
      (invariant.apart mem_cons_self).1
      (fun unwrapped => numbered.fresh (by omega)) with
    ⟨added, provided⟩ | ⟨ready, replacedTx, base, inherited, added, replaces, inserted, holds⟩
  · have unchanged := invariant.pending.markAndUnlock_eq_self
      (fun found missing => invariant.missing found missing provided) order
    cases marked.symm.trans unchanged
    rw [← shaped.provides] at marked
    exact ⟨_, _, _, _, marked, added,
      { pendingInvariant := pendingInvariant
        readyInvariant := invariant.ready
        pending := unlocks
        ready := .inl ⟨rfl, rfl, rfl, provided⟩ }⟩
  rw [← shaped.provides] at marked
  exact ⟨pending, unlocked, _, _, marked, added,
    { pendingInvariant := pendingInvariant
      readyInvariant := holds
      pending := unlocks
      ready := .inr ⟨base, inherited, replacedTx, rfl, replaces, inserted⟩ }⟩

section

variable (promotes : pool.Promotes budget tx.transaction after unlocked added)

include promotes

theorem Promotes.mem_readyTx (invariant : pool.Invariant (tx :: rest) budget)
    {hash : TxHash} (isReady : hash ∈ after.readyTransactions.readyTx) :
    hash ∈ pool.readyTransactions.readyTx ∨ hash = tx.transaction.hash := by
  rcases promotes.ready with ⟨_, rfl, _⟩ | ⟨base, inherited, _, _, replaces, inserted⟩
  · exact .inl isReady
  obtain ⟨found, stored⟩ := mem_iff_exists_lookup.mp isReady
  rcases inserted.cases stored with ⟨same, _⟩ | ⟨other, earlier, _⟩
  · exact .inr same
  apply Or.inl
  apply (replaces.shrinks invariant.ready).mem
  exact mem_of_lookup earlier

theorem Promotes.mem_providedMarkers (shaped : RpcShaped tx.transaction) {marker : TxMarker} :
    marker ∈ after.readyTransactions.providedMarkers ↔
      marker ∈ pool.readyTransactions.providedMarkers ∨
        marker = toMarker tx.transaction.nonce tx.transaction.sender := by
  rcases promotes.ready with ⟨_, rfl, _, own⟩ | ⟨base, inherited, _, _, replaces, inserted⟩
  · constructor
    · exact .inl
    · rintro (provided | rfl)
      · exact provided
      · exact own
  have own : marker ∈ tx.transaction.provides ↔
      marker = toMarker tx.transaction.nonce tx.transaction.sender := by
    rw [shaped.provides, mem_singleton]
  rw [mem_iff_exists_lookup, mem_iff_exists_lookup, inserted.provided, ← own]
  by_cases provides : marker ∈ tx.transaction.provides
  · simp [provides]
  · rw [replaces.lookup_providedMarkers marker provides]
    simp [provides]

theorem Promotes.invariant (invariant : pool.Invariant (tx :: rest) budget) :
    after.Invariant (rest ++ unlocked) budget := by
  obtain ⟨shaped, _⟩ := invariant.complete mem_cons_self
  apply invariant.advance promotes.readyInvariant promotes.pendingInvariant
    promotes.pending (sublist_cons_self tx rest)
  · intro hash isReady
    apply (promotes.mem_readyTx invariant isReady).imp_right
    rintro rfl
    refine ⟨mem_map_of_mem mem_cons_self, ?_⟩
    exact (nodup_cons.mp invariant.nodup).1
  · intro marker provided
    exact (promotes.mem_providedMarkers shaped).mp provided
  obtain ⟨count, numbered, enough⟩ := invariant.numbered
  rw [length_cons] at enough
  rcases promotes.ready with ⟨_, rfl, _⟩ | ⟨base, inherited, _, _, replaces, inserted⟩
  · exact ⟨count, numbered, by omega⟩
  · have shrunk := numbered.shrinks (replaces.shrinks invariant.ready)
    exact ⟨count + 1, shrunk.inserted inserted, by omega⟩

end

variable {root : PoolTransaction}

theorem Invariant.precedes_of_mem_unlocked {inFlight : List PendingPoolTransaction}
    (invariant : pool.Invariant inFlight budget)
    (shaped : RpcShaped root)
    (unlocks : Unlocks (toMarker root.nonce root.sender) pool.pendingTransactions
      after.pendingTransactions unlocked) (member : tx ∈ unlocked) :
    Precedes root tx.transaction ∧ toMarker root.nonce root.sender ∈ tx.transaction.requires := by
  obtain ⟨_, waiting, found, same, missed⟩ := unlocks.taken member
  obtain ⟨_, waitingShaped, marker, requires, missing⟩ := invariant.pending.shaped found
  rw [missing, ← requires] at missed
  rw [← same]
  refine ⟨waitingShaped.precedes shaped missed ?_, missed⟩
  rw [shaped.provides]
  exact mem_singleton_self _

/-- While the transactions that waited for `root` are promoted, they have
larger nonces than `root` and never replace it. -/
structure Rooted (root : PoolTransaction) (pool : PoolInner) (queue : List PendingPoolTransaction)
    (removed : List PoolTransaction) : Prop where
  stored : ∃ found, pool.readyTransactions.readyTx.lookup root.hash = some found ∧ found.tx = root
  larger : ∀ {tx}, tx ∈ queue → root.nonce.toNat < tx.transaction.nonce.toNat
  kept : ∀ {tx}, tx ∈ removed → tx.hash ≠ root.hash

variable (invariant : pool.Invariant (tx :: rest) budget)

include invariant

theorem Promotes.rooted {replacedTx : List PoolTransaction}
    (promotes : pool.Promotes budget tx.transaction after unlocked (.ok replacedTx)) :
    Rooted tx.transaction after unlocked replacedTx := by
  obtain ⟨shaped, _⟩ := invariant.complete mem_cons_self
  rcases promotes.ready with ⟨failed, _⟩ | ⟨base, inherited, _, same, replaces, inserted⟩
  · cases failed
  obtain rfl := Except.ok.inj same
  refine ⟨⟨_, inserted.lookup_self, rfl⟩, ?_, ?_⟩
  · intro other isUnlocked
    have precedes := (invariant.precedes_of_mem_unlocked shaped promotes.pending isUnlocked).1.nonce
    omega
  intro old isReplaced sameHash
  obtain ⟨⟨oldTx, stored, _⟩, _⟩ := replaces.of_mem_replacedTx invariant.ready shaped isReplaced
  apply (invariant.apart mem_cons_self).1
  rw [← sameHash]
  exact mem_of_lookup stored

theorem Rooted.promotes {queue : List PendingPoolTransaction} {removed : List PoolTransaction}
    (rooted : Rooted root pool (tx :: queue) removed)
    (promotes : pool.Promotes budget tx.transaction after unlocked added) :
    Rooted root after (queue ++ unlocked) (removed ++ added.toOption.getD []) := by
  obtain ⟨shaped, _⟩ := invariant.complete mem_cons_self
  have larger := rooted.larger mem_cons_self
  obtain ⟨found, rootFound, same⟩ := rooted.stored
  have next : ∀ {other}, other ∈ queue ++ unlocked →
      root.nonce.toNat < other.transaction.nonce.toNat := by
    intro other member
    rcases mem_append.mp member with queued | isUnlocked
    · exact rooted.larger (mem_cons_of_mem tx queued)
    have precedes := (invariant.precedes_of_mem_unlocked shaped promotes.pending isUnlocked).1.nonce
    omega
  rcases promotes.ready with ⟨rfl, rfl, _⟩ | ⟨base, inherited, replacedTx, rfl, replaces, inserted⟩
  · refine ⟨?_, next, ?_⟩
    · exact ⟨found, rootFound, same⟩
    · change ∀ {tx}, tx ∈ removed ++ [] → _
      rw [append_nil]
      exact rooted.kept
  have different : root.hash ≠ tx.transaction.hash := by
    intro sameHash
    apply (invariant.apart mem_cons_self).1
    rw [← sameHash]
    exact mem_of_lookup rootFound
  have kept : ∀ {other}, other ∈ replacedTx → other.hash ≠ root.hash := by
    intro other isReplaced sameHash
    obtain ⟨⟨otherTx, otherFound, rfl⟩, nonce, _⟩ :=
      replaces.of_mem_replacedTx invariant.ready shaped isReplaced
    rw [sameHash, rootFound] at otherFound
    rw [← Option.some.inj otherFound, same] at nonce
    rw [nonce] at larger
    exact Nat.lt_irrefl _ larger
  obtain ⟨later, laterFound, laterRef⟩ :=
    replaces.lookup_of_notMem rootFound fun isReplaced =>
      kept isReplaced (congrArg PoolTransaction.hash same)
  refine ⟨⟨_, inserted.lookup_other different laterFound, ?_⟩, next, ?_⟩
  · rw [laterRef]
    exact same
  intro other member
  rcases mem_append.mp member with earlier | isReplaced
  · exact rooted.kept earlier
  · exact kept isReplaced

end PoolInner

end SwissledgerFoundry.Pool
