import SwissledgerFoundry.Pool.Removal

/-!
# Adding a transaction to the ready queue

A transaction is linked to the provider of the marker it requires, or counts the
marker as satisfied.  It may take the place of a transaction with the same nonce
and sender.
-/

namespace SwissledgerFoundry.Pool.ReadyTransactions

open List AList Option

def providerOf (ready : ReadyTransactions) (tx : PoolTransaction) : Option TxHash :=
  tx.requires.head?.bind (ready.providedMarkers.lookup ·)

/-- A transaction entered the queue with the given `unlocks`. -/
structure Inserted (before after : ReadyTransactions)
    (tx : PoolTransaction) (unlocks : List TxHash) : Prop where
  readyTx : ∀ probe, after.readyTx.lookup probe =
    if probe = tx.hash then
      some
        { transaction :=
            { transaction := tx
              id := before.id }
          unlocks := unlocks
          requiresOffset :=
            if (before.providerOf tx).isSome then 0
            else tx.requires.length }
    else (before.readyTx.lookup probe).map fun other =>
      { other with
        unlocks :=
          if before.providerOf tx = some probe then
            other.unlocks ++ [tx.hash]
          else other.unlocks }
  provided : ∀ marker, after.providedMarkers.lookup marker =
    if marker ∈ tx.provides then some tx.hash
    else before.providedMarkers.lookup marker
  independent : after.independentTransactions =
    if (before.providerOf tx).isSome then before.independentTransactions
    else before.independentTransactions.insert
      { transaction := tx
        id := before.id }
  id : after.id = before.id + 1

variable {other : ReadyTransaction}

variable {unwrapped : Prop}

section Inserted

variable {before after : ReadyTransactions} {tx : PoolTransaction} {unlocks : List TxHash}

section

variable {unwrapped : Prop} {detached : TxHash → Prop}
  (invariant : before.Invariant unwrapped detached)

include invariant

theorem Invariant.lookup_of_providerOf (shaped : RpcShaped tx)
    {provider : TxHash} (provides : before.providerOf tx = some provider) :
    ∃ marker providerTx, tx.requires = [marker] ∧
      before.providedMarkers.lookup marker = some provider ∧
      before.readyTx.lookup provider = some providerTx ∧
      marker ∈ providerTx.tx.provides := by
  rw [providerOf, bind_eq_some_iff] at provides
  obtain ⟨marker, first, provided⟩ := provides
  obtain ⟨providerTx, stored, provides⟩ := invariant.provided.mp provided
  have required := mem_of_mem_head? first
  exact ⟨marker, providerTx, (shaped.eq_of_mem_requires required).2.1, provided, stored, provides⟩

/-- The second half of `add_transaction` never panics.  It may be run with
some markers of the transaction still provided by one that it replaces. -/
theorem Invariant.insertReady_eq_ok
    (shaped : RpcShaped tx) {providedMarkers : HashMap TxMarker TxHash}
    (same : ∀ marker, marker ∉ tx.provides →
      providedMarkers.lookup marker = before.providedMarkers.lookup marker) :
    ∃ after, insertReady { before with providedMarkers := providedMarkers } tx unlocks =
          .ok after ∧ Inserted before after tx unlocks := by
  have provided : ∀ marker, (tx.provides.foldl (fun provided mark => provided.insert mark tx.hash)
        providedMarkers).lookup marker =
      if marker ∈ tx.provides then some tx.hash
      else before.providedMarkers.lookup marker := by
    intro marker
    rw [shaped.provides, foldl_cons, foldl_nil, lookup_insert_eq]
    simp only [mem_singleton]
    split
    · rfl
    rename_i different
    apply same
    rw [shaped.provides, mem_singleton]
    exact different
  cases found : before.providerOf tx with
  | none =>
    have linked : tx.requires.foldlM
        (linkRequired tx.hash providedMarkers) (before.readyTx, true, 0) =
        .ok (before.readyTx, true, tx.requires.length) := by
      rcases shaped.requires with nothing | ⟨_, requires⟩
      · rw [nothing]
        rfl
      have unprovided : providedMarkers.lookup (toMarker (tx.nonce - 1) tx.sender) = none := by
        rw [same]
        · simpa [providerOf, requires] using found
        apply shaped.notMem_provides
        rw [requires]
        exact mem_singleton_self _
      rw [requires, Except.foldlM_cons_eq, linkRequired, unprovided]
      rfl
    refine ⟨_, by rw [insertReady, linked]; rfl, ?_⟩
    constructor
    · intro probe
      rw [lookup_insert_eq, found]
      split
      · rfl
      · exact map_id'.symm
    · exact provided
    · simp [found]
    · rfl
  | some provider =>
    obtain ⟨marker, providerTx, requires, markerProvided, stored, _⟩ :=
      invariant.lookup_of_providerOf shaped found
    have linked : tx.requires.foldlM
        (linkRequired tx.hash providedMarkers) (before.readyTx, true, 0) =
        .ok (before.readyTx.insert provider
          { providerTx with unlocks := providerTx.unlocks ++ [tx.hash] },
          false, 0) := by
      have unchanged : providedMarkers.lookup marker = some provider := by
        rw [same, markerProvided]
        apply shaped.notMem_provides
        rw [requires]
        exact mem_singleton_self _
      rw [requires, Except.foldlM_cons_eq, linkRequired, unchanged]
      simp only [stored]
      rfl
    refine ⟨_, by rw [insertReady, linked]; rfl, ?_⟩
    constructor
    · intro probe
      rw [lookup_insert_eq, found]
      split
      · rfl
      by_cases sameProvider : probe = provider
      · subst probe
        simp [stored]
      have different : some provider ≠ some probe := fun same => sameProvider (some.inj same).symm
      simp [sameProvider, different]
    · exact provided
    · simp [found]
    · rfl

end

def insertedEntry (before : ReadyTransactions) (tx : PoolTransaction)
    (unlocks : List TxHash) : ReadyTransaction where
  transaction := { transaction := tx, id := before.id }
  unlocks := unlocks
  requiresOffset := if (before.providerOf tx).isSome then 0 else tx.requires.length

section

variable (inserted : Inserted before after tx unlocks)

include inserted

theorem Inserted.lookup_self :
    after.readyTx.lookup tx.hash = some (before.insertedEntry tx unlocks) := by
  rw [inserted.readyTx, if_pos rfl]
  rfl

variable {probe : TxHash}

theorem Inserted.lookup_other (different : probe ≠ tx.hash)
    (stored : before.readyTx.lookup probe = some other) :
    after.readyTx.lookup probe = some
      { other with
        unlocks :=
          if before.providerOf tx = some probe then
            other.unlocks ++ [tx.hash]
          else other.unlocks } := by
  simp [inserted.readyTx, if_neg different, stored]

theorem Inserted.cases {found : ReadyTransaction}
    (stored : after.readyTx.lookup probe = some found) :
    (probe = tx.hash ∧ found = before.insertedEntry tx unlocks) ∨
    (∃ other, before.readyTx.lookup probe = some other ∧ found =
      { other with
        unlocks :=
          if before.providerOf tx = some probe then
            other.unlocks ++ [tx.hash]
          else other.unlocks }) := by
  by_cases same : probe = tx.hash
  · subst probe
    rw [inserted.lookup_self] at stored
    exact .inl ⟨rfl, (some.inj stored).symm⟩
  rw [inserted.readyTx, if_neg same, map_eq_some_iff] at stored
  obtain ⟨other, earlier, rfl⟩ := stored
  exact .inr ⟨other, earlier, rfl⟩

theorem Inserted.of_mem_independent {ref : PoolTransactionRef}
    (member : ref ∈ after.independentTransactions) :
    ref ∈ before.independentTransactions ∨ (before.providerOf tx = none ∧ ref =
          { transaction := tx
            id := before.id }) := by
  rw [inserted.independent] at member
  cases links : before.providerOf tx with
  | some provider =>
    rw [links] at member
    exact .inl member
  | none =>
    rw [links] at member
    apply (BTreeSet.mem_insert.mp member).imp_right
    rintro ⟨rfl, _⟩
    exact ⟨rfl, rfl⟩

end

/-- What the queue has to satisfy for a transaction to enter it with the given
`unlocks`. -/
structure Enters (before : ReadyTransactions) (tx : PoolTransaction)
    (unlocks : List TxHash) : Prop where
  shaped : RpcShaped tx
  absent : tx.hash ∉ before.readyTx
  unprovided : ∀ marker ∈ tx.provides, marker ∉ before.providedMarkers
  nodup : unlocks.Nodup
  waits : ∀ {hash}, hash ∈ unlocks → ∃ other marker,
    before.readyTx.lookup hash = some other ∧ other.requiresOffset = 0 ∧
    marker ∈ other.tx.requires ∧ marker ∈ tx.provides

theorem Enters.ne (enters : Enters before tx unlocks) {hash : TxHash}
    (stored : before.readyTx.lookup hash = some other) : hash ≠ tx.hash := by
  rintro rfl
  exact enters.absent (mem_of_lookup stored)

/-- The next id is none of those of the stored transactions. -/
def Fresh (ready : ReadyTransactions) : Prop :=
  ∀ {hash other}, ready.readyTx.lookup hash = some other → other.transaction.id ≠ ready.id

variable (inserted : Inserted before after tx unlocks)

include inserted

theorem Inserted.mem_independent (fresh : before.Fresh)
    (keyed : Keyed before) {ref : PoolTransactionRef} :
    ref ∈ after.independentTransactions ↔ ref ∈ before.independentTransactions ∨
        (before.providerOf tx = none ∧ ref =
            { transaction := tx
              id := before.id }) := by
  rw [inserted.independent]
  cases before.providerOf tx with
  | some provider => simp
  | none =>
    rw [isSome_none, if_neg Bool.false_ne_true, BTreeSet.mem_insert_of_eq]
    · simp [or_comm]
    intro other member same
    obtain ⟨hash, otherTx, stored, rfl⟩ := keyed.stored member
    exact absurd (PoolTransactionRef.id_eq_of_key_eq same) (fresh stored)

theorem Inserted.invariant (enters : Enters before tx unlocks) (fresh : unwrapped → before.Fresh)
    (invariant : before.Invariant unwrapped (· ∈ unlocks)) :
    after.Invariant unwrapped fun _ => False where
  shaped := by
    intro hash found stored
    rcases inserted.cases stored with ⟨rfl, rfl⟩ | ⟨other, earlier, rfl⟩
    · exact ⟨rfl, enters.shaped⟩
    · exact (invariant.shaped earlier :)
  provided := by
    intro marker hash
    rw [inserted.provided]
    constructor
    · intro provided
      split at provided
      · rename_i own
        rw [← some.inj provided]
        exact ⟨_, inserted.lookup_self, own⟩
      · obtain ⟨other, earlier, provides⟩ := invariant.provided.mp provided
        exact ⟨_, inserted.lookup_other (enters.ne earlier) earlier, provides⟩
    rintro ⟨found, stored, provides⟩
    rcases inserted.cases stored with ⟨rfl, rfl⟩ | ⟨other, earlier, rfl⟩
    · exact if_pos provides
    have provided := invariant.provided.mpr ⟨other, earlier, provides⟩
    rw [if_neg, provided]
    intro own
    apply enters.unprovided marker own
    exact mem_of_lookup provided
  offset := by
    intro hash found stored
    rcases inserted.cases stored with ⟨rfl, rfl⟩ | ⟨other, earlier, rfl⟩
    · unfold insertedEntry
      split
      · exact Nat.zero_le _
      · exact Nat.le_refl _
    · exact (invariant.offset earlier :)
  linked := by
    intro hash found stored _ waits
    rcases inserted.cases stored with ⟨rfl, rfl⟩ | ⟨other, earlier, rfl⟩
    · cases links : before.providerOf tx with
      | none =>
        rw [insertedEntry, links] at waits
        exact absurd rfl waits
      | some provider =>
        obtain ⟨_, providerTx, _, _, providerStored, _⟩ :=
          invariant.lookup_of_providerOf enters.shaped links
        refine ⟨provider, _, inserted.lookup_other (enters.ne providerStored) providerStored, ?_⟩
        rw [if_pos links]
        exact mem_append_right _ (mem_singleton_self _)
    by_cases inherited : hash ∈ unlocks
    · exact ⟨tx.hash, _, inserted.lookup_self, inherited⟩
    obtain ⟨provider, providerTx, providerStored, member⟩ :=
      invariant.linked earlier inherited waits
    refine ⟨provider, _, inserted.lookup_other (enters.ne providerStored) providerStored, ?_⟩
    split
    · exact mem_append_left _ member
    · exact member
  unlocks := by
    have keeps : ∀ {hash : TxHash} {provides : List TxMarker},
        (∃ other marker, before.readyTx.lookup hash = some other ∧
          other.requiresOffset = 0 ∧ marker ∈ other.tx.requires ∧
          marker ∈ provides) →
        ∃ later marker, after.readyTx.lookup hash = some later ∧
          later.requiresOffset = 0 ∧ marker ∈ later.tx.requires ∧
          marker ∈ provides := by
      rintro hash provides ⟨other, marker, earlier, offset, required, listed⟩
      exact ⟨_, marker, inserted.lookup_other (enters.ne earlier) earlier, offset, required, listed⟩
    intro provider providerTx hash stored member
    rcases inserted.cases stored with ⟨rfl, rfl⟩ | ⟨other, earlier, rfl⟩
    · exact keeps (enters.waits member)
    by_cases links : before.providerOf tx = some provider
    · rw [if_pos links, mem_append, mem_singleton] at member
      rcases member with member | rfl
      · exact (keeps (invariant.unlocks earlier member) :)
      obtain ⟨marker, providerTx, requires, _, found, provides⟩ :=
        invariant.lookup_of_providerOf enters.shaped links
      rw [some.inj (found.symm.trans earlier)] at provides
      refine ⟨_, marker, inserted.lookup_self, ?_, ?_, provides⟩
      · simp [insertedEntry, links]
      change marker ∈ tx.requires
      rw [requires]
      exact mem_singleton_self marker
    · rw [if_neg links] at member
      exact (keeps (invariant.unlocks earlier member) :)
  nodup := by
    intro hash found stored
    rcases inserted.cases stored with ⟨rfl, rfl⟩ | ⟨other, earlier, rfl⟩
    · exact enters.nodup
    split
    · apply Nodup.append (invariant.nodup earlier) (nodup_singleton _)
      intro member listed isNew
      rw [mem_singleton] at isNew
      subst isNew
      exact enters.absent (invariant.mem_of_mem_unlocks earlier listed)
    · exact invariant.nodup earlier
  finished := by
    intro ref member
    rcases inserted.of_mem_independent member with member | ⟨unlinked, same⟩
    · obtain ⟨hash, other, earlier, same, offset⟩ := invariant.finished member
      exact ⟨hash, _, inserted.lookup_other (enters.ne earlier) earlier, same, offset⟩
    · refine ⟨tx.hash, _, inserted.lookup_self, same.symm, ?_⟩
      simp [insertedEntry, unlinked]
  counted := by
    intro isUnwrapped hash found stored offset
    rw [inserted.mem_independent (fresh isUnwrapped) (invariant.keyed isUnwrapped)]
    rcases inserted.cases stored with ⟨rfl, rfl⟩ | ⟨other, earlier, rfl⟩
    · refine .inr ⟨?_, rfl⟩
      cases links : before.providerOf tx with
      | none => rfl
      | some provider =>
        obtain ⟨_, _, requires, _⟩ := invariant.lookup_of_providerOf enters.shaped links
        rw [insertedEntry, links] at offset
        rw [requires] at offset
        cases offset
    · have counted := invariant.counted isUnwrapped earlier
      exact .inl (counted offset)
  distinct := by
    intro isUnwrapped left right leftTx rightTx leftStored rightStored same
    rcases inserted.cases leftStored with ⟨rfl, rfl⟩ | ⟨_, leftEarlier, rfl⟩
    · rcases inserted.cases rightStored with ⟨rfl, rfl⟩ | ⟨_, rightEarlier, rfl⟩
      · rfl
      · have different := fresh isUnwrapped rightEarlier
        exact absurd same.symm different
    rcases inserted.cases rightStored with ⟨rfl, rfl⟩ | ⟨_, rightEarlier, rfl⟩
    · have different := fresh isUnwrapped leftEarlier
      exact absurd same different
    · exact invariant.distinct isUnwrapped leftEarlier rightEarlier same

end Inserted

/-- What is left of the queue, and what the new transaction inherits, after
the transactions that it replaces are gone. -/
inductive Replaces (ready : ReadyTransactions) (tx : PoolTransaction) :
    ReadyTransactions → List TxHash → List PoolTransaction → Prop
  | nothing (unprovided : ∀ marker ∈ tx.provides,
      marker ∉ ready.providedMarkers) : Replaces ready tx ready [] []
  | transaction {old : TxHash} {oldTx : ReadyTransaction}
      {base : ReadyTransactions}
      (stored : ready.readyTx.lookup old = some oldTx)
      (provides : oldTx.tx.provides = tx.provides)
      (removed : Removed ready base old oldTx []) :
      Replaces ready tx base oldTx.unlocks [oldTx.tx]

section

variable {ready base : ReadyTransactions} {tx : PoolTransaction} {unlocks : List TxHash}
  {replacedTx : List PoolTransaction}
  (replaces : Replaces ready tx base unlocks replacedTx)
  (holds : ready.Invariant unwrapped fun _ => False)

include replaces holds

theorem Replaces.shrinks : Shrinks (fun _ => False) ready base := by
  cases replaces with
  | nothing unprovided => exact holds.shrinks_refl
  | transaction stored provides removed =>
    exact removed.shrinks holds stored fun none => nomatch none

theorem Replaces.reports : Reports ready base replacedTx := by
  cases replaces with
  | nothing unprovided => exact .refl ready
  | transaction stored provides removed => exact removed.reports holds stored

theorem Replaces.invariant : base.Invariant unwrapped (· ∈ unlocks) := by
  cases replaces with
  | nothing unprovided => exact holds.mono fun _ => False.elim
  | transaction stored provides removed =>
    apply (removed.invariant holds stored (fun none => nomatch none)).mono
    rintro hash other _ (isDetached | unlocked)
    · exact isDetached.elim
    · exact unlocked.1

theorem Replaces.enters (shaped : RpcShaped tx) (absent : tx.hash ∉ ready.readyTx) :
    Enters base tx unlocks := by
  have shrinks := replaces.shrinks holds
  refine
    { shaped := shaped
      absent := fun member => absent (shrinks.mem member)
      unprovided := ?_
      nodup := ?_
      waits := ?_ }
  · cases replaces with
    | nothing unprovided => exact unprovided
    | transaction stored provides removed =>
      intro marker own member
      obtain ⟨hash, provided⟩ := mem_iff_exists_lookup.mp member
      simp [removed.provided, provides, if_pos own] at provided
  · cases replaces with
    | nothing unprovided => exact nodup_nil
    | transaction stored provides removed => exact holds.nodup stored
  cases replaces with
  | nothing unprovided => nofun
  | transaction stored provides removed =>
    intro hash member
    obtain ⟨other, marker, found, offset, required, own⟩ := holds.unlocks stored member
    have different := (holds.listed found stored member).2.1.symm
    rw [provides] at own
    refine ⟨_, marker, removed.lookup_eq_some.mpr ⟨different, other, found, rfl⟩, ?_, required, own⟩
    exact offset

end

variable {ready : ReadyTransactions}

theorem Shrinks.fresh {base : ReadyTransactions} {pruned : TxMarker → Prop}
    (shrinks : Shrinks pruned ready base) (fresh : ready.Fresh) :
    base.Fresh := by
  intro hash other stored
  obtain ⟨earlier, found, sameRef, _⟩ := shrinks.entry stored
  rw [sameRef, shrinks.id]
  exact fresh found

section

variable {ready base : ReadyTransactions} {tx : PoolTransaction} {unlocks : List TxHash}
  {replacedTx : List PoolTransaction}
  (replaces : Replaces ready tx base unlocks replacedTx)

include replaces

theorem Replaces.lookup_providedMarkers (marker : TxMarker) (other : marker ∉ tx.provides) :
    ready.providedMarkers.lookup marker = base.providedMarkers.lookup marker := by
  cases replaces with
  | nothing unprovided => rfl
  | transaction stored provides removed => rw [removed.provided, provides, if_neg other]

theorem Replaces.of_mem_replacedTx (invariant : ready.Invariant unwrapped fun _ => False)
    (shaped : RpcShaped tx) {old : PoolTransaction} (member : old ∈ replacedTx) :
    (∃ oldTx, ready.readyTx.lookup old.hash = some oldTx ∧
      oldTx.tx = old) ∧ old.nonce = tx.nonce ∧ old.sender = tx.sender := by
  cases replaces with
  | nothing unprovided => cases member
  | @transaction hash oldTx _ stored provides removed =>
    obtain rfl := mem_singleton.mp member
    obtain ⟨rfl, oldShaped⟩ := invariant.shaped stored
    refine ⟨⟨oldTx, stored, rfl⟩, ?_⟩
    rw [oldShaped.provides, shaped.provides] at provides
    exact toMarker_injective (singleton_injective provides)

theorem Replaces.lookup_of_notMem {hash : TxHash} (stored : ready.readyTx.lookup hash = some other)
    (kept : other.tx ∉ replacedTx) :
    ∃ later, base.readyTx.lookup hash = some later ∧ later.transaction = other.transaction := by
  cases replaces with
  | nothing unprovided => exact ⟨other, stored, rfl⟩
  | @transaction old oldTx _ oldStored provides removed =>
    refine ⟨_, removed.lookup_eq_some.mpr ⟨?_, other, stored, rfl⟩, rfl⟩
    rintro rfl
    apply kept
    rw [some.inj (stored.symm.trans oldStored)]
    exact mem_singleton_self _

end

theorem replacedTransactions_eq_ok {tx : PoolTransaction} {order : HashOrder}
    (invariant : ready.Invariant unwrapped fun _ => False)
    (shaped : RpcShaped tx) :
    (ready.replacedTransactions order tx = .ok (ready, .error (.replacementUnderpriced tx.hash)) ∧
      toMarker tx.nonce tx.sender ∈ ready.providedMarkers) ∨
    ∃ base unlocks removedTx, ready.replacedTransactions order tx =
        .ok ({ base with providedMarkers := ready.providedMarkers }, .ok (removedTx, unlocks)) ∧
      Replaces ready tx base unlocks removedTx := by
  cases provided : ready.providedMarkers.lookup (toMarker tx.nonce tx.sender) with
  | none =>
    refine .inr ⟨ready, [], [], ?_, .nothing ?_⟩
    · have nobody : order.shuffle (tx.provides.filterMap
          (ready.providedMarkers.lookup ·)).dedup = [] := by
        rw [shaped.provides, filterMap_cons, provided]
        exact perm_nil.mp (order.perm [])
      simp only [replacedTransactions, nobody]
      rfl
    intro marker own member
    rw [shaped.eq_of_mem_provides own] at member
    exact lookup_eq_none.mp provided member
  | some old =>
    obtain ⟨oldTx, stored, oldProvides⟩ := invariant.provided.mp provided
    have sameProvides : oldTx.tx.provides = tx.provides := by
      have oldShaped := (invariant.shaped stored).2
      rw [shaped.provides, oldShaped.eq_of_mem_provides oldProvides]
      exact oldShaped.provides
    have only : order.shuffle (tx.provides.filterMap
        (ready.providedMarkers.lookup ·)).dedup = [old] := by
      rw [shaped.provides, filterMap_cons, provided]
      exact perm_singleton.mp (order.perm [old])
    have toRemove : [old].filterMap (ready.readyTx.lookup ·) = [oldTx] := by
      rw [filterMap_cons, stored]
      rfl
    by_cases cheap : tx.maxFeePerGas ≤ oldTx.tx.maxFeePerGas
    · refine .inl ⟨?_, mem_of_lookup provided⟩
      simp only [replacedTransactions, only, toRemove]
      simp [sameProvides, cheap]
    obtain ⟨base, step, removed⟩ := invariant.removeTransaction_some stored
    refine .inr ⟨base, oldTx.unlocks, [oldTx.tx], ?_, .transaction stored sameProvides removed⟩
    have looped : ready.removeWithMarkers [old] (some tx.provides) =
        .ok ({ base with providedMarkers := ready.providedMarkers }, [oldTx.tx]) := by
      rw [removeWithMarkers, length_singleton, Nat.add_comm]
      simp only [reverse_singleton, removeLoop, stored, ← sameProvides, step]
      rw [if_neg Bool.false_ne_true, removeLoop]
      rfl
    simp only [replacedTransactions, only, toRemove, looped]
    simp [cheap, Except.map]

/-- `add_transaction` of the ready queue never panics for a transaction that
misses no marker and is not in the queue. -/
theorem addTransaction_eq_ok (invariant : ready.Invariant unwrapped fun _ => False)
    (order : HashOrder) {pending : PendingPoolTransaction}
    (shaped : RpcShaped pending.transaction)
    (complete : pending.missingMarkers = [])
    (absent : pending.transaction.hash ∉ ready.readyTx)
    (fresh : unwrapped → ready.Fresh) :
    (ready.addTransaction order pending =
        .ok (ready, .error (.replacementUnderpriced pending.transaction.hash)) ∧
      toMarker pending.transaction.nonce pending.transaction.sender ∈ ready.providedMarkers) ∨
    ∃ after replacedTx base unlocks, ready.addTransaction order pending =
        .ok (after, .ok replacedTx) ∧
      Replaces ready pending.transaction base unlocks replacedTx ∧
      Inserted base after pending.transaction unlocks ∧
      after.Invariant unwrapped fun _ => False := by
  have isReady : pending.isReady := by simp [PendingPoolTransaction.isReady, complete]
  simp only [addTransaction, isReady, absent, Bool.not_true, if_false, Bool.false_eq_true]
  rcases replacedTransactions_eq_ok invariant shaped with
    ⟨underpriced, provided⟩ | ⟨base, unlocks, removedTx, replaced, replaces⟩
  · refine .inl ⟨?_, provided⟩
    rw [underpriced]
    rfl
  right
  have baseInvariant := replaces.invariant invariant
  have enters := replaces.enters invariant shaped absent
  have baseFresh : unwrapped → base.Fresh := fun isUnwrapped =>
    (replaces.shrinks invariant).fresh (fresh isUnwrapped)
  obtain ⟨after, added, inserted⟩ := baseInvariant.insertReady_eq_ok
    shaped replaces.lookup_providedMarkers
  refine ⟨after, removedTx, base, unlocks, ?_, replaces, inserted,
    inserted.invariant enters baseFresh baseInvariant⟩
  rw [replaced]
  simp only [Except.bind, added]
  rfl

end SwissledgerFoundry.Pool.ReadyTransactions
