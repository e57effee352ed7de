import SwissledgerFoundry.Pool.Inner

/-!
# The ready queue

A ready transaction whose required marker has a provider in the queue is linked
to it; the others are the independent ones.  While transactions are being
removed, those that are still to be removed may have lost their provider.
-/

namespace SwissledgerFoundry.Pool

open List AList Option UInt64

namespace RpcShaped

section

variable {tx : PoolTransaction} (shaped : RpcShaped tx)

include shaped

variable {marker : TxMarker}

theorem eq_of_mem_provides (provided : marker ∈ tx.provides) :
    marker = toMarker tx.nonce tx.sender := by
  rw [shaped.provides] at provided
  exact mem_singleton.mp provided

theorem eq_of_mem_requires (required : marker ∈ tx.requires) :
    tx.nonce ≠ 0 ∧ tx.requires = [marker] ∧ marker = toMarker (tx.nonce - 1) tx.sender := by
  rcases shaped.requires with nothing | ⟨positive, requires⟩
  · simp [nothing] at required
  rw [requires] at required ⊢
  have same := mem_singleton.mp required
  exact ⟨positive, by rw [same], same⟩

/-- The provider of a required marker has the nonce before. -/
theorem precedes {other : PoolTransaction} (otherShaped : RpcShaped other)
    (required : marker ∈ tx.requires) (provided : marker ∈ other.provides) :
    Precedes other tx := by
  obtain ⟨positive, _, same⟩ := shaped.eq_of_mem_requires required
  rw [otherShaped.eq_of_mem_provides provided] at same
  obtain ⟨nonce, sender⟩ := toMarker_injective same
  refine ⟨sender, ?_⟩
  rw [nonce]
  have nonzero : tx.nonce.toNat ≠ 0 := fun zero => positive (UInt64.toNat_inj.mp zero)
  rw [UInt64.toNat_sub_of_le _ _ (UInt64.le_iff_toNat_le.mpr ?_)]
  · simp only [toNat_one]
    omega
  · simp only [toNat_one]
    omega

theorem notMem_provides (required : marker ∈ tx.requires) : marker ∉ tx.provides := by
  intro provided
  have := (shaped.precedes shaped required provided).nonce
  omega

end

end RpcShaped

theorem PoolTransactionRef.id_eq_of_key_eq {left right : PoolTransactionRef}
    (same : left.key = right.key) : left.id = right.id := by
  have ids := congrArg (fun key => OrderDual.ofDual (ofLex key).2) same
  exact UInt64.toNat_inj.mp ids

namespace ReadyTransactions

/-- The invariant of the ready queue.  `detached` holds of the transactions
that are about to be removed.  The ids tell the transactions apart, and no
independent one is lost, unless the counter of ids has wrapped around. -/
structure Invariant (ready : ReadyTransactions) (unwrapped : Prop)
    (detached : TxHash → Prop) : Prop where
  shaped : ∀ {hash tx}, ready.readyTx.lookup hash = some tx → tx.tx.hash = hash ∧ RpcShaped tx.tx
  provided : ∀ {marker hash}, ready.providedMarkers.lookup marker = some hash ↔
    ∃ tx, ready.readyTx.lookup hash = some tx ∧ marker ∈ tx.tx.provides
  offset : ∀ {hash tx}, ready.readyTx.lookup hash = some tx →
    tx.requiresOffset ≤ tx.tx.requires.length
  linked : ∀ {hash tx}, ready.readyTx.lookup hash = some tx →
    ¬ detached hash → tx.requiresOffset ≠ tx.tx.requires.length →
    ∃ provider providerTx, ready.readyTx.lookup provider =
        some providerTx ∧ hash ∈ providerTx.unlocks
  unlocks : ∀ {provider providerTx hash}, ready.readyTx.lookup provider = some providerTx →
    hash ∈ providerTx.unlocks →
    ∃ tx marker, ready.readyTx.lookup hash = some tx ∧
      tx.requiresOffset = 0 ∧ marker ∈ tx.tx.requires ∧
      marker ∈ providerTx.tx.provides
  nodup : ∀ {provider providerTx}, ready.readyTx.lookup provider = some providerTx →
    providerTx.unlocks.Nodup
  finished : ∀ {ref}, ref ∈ ready.independentTransactions →
    ∃ hash tx, ready.readyTx.lookup hash = some tx ∧ tx.transaction = ref ∧
      tx.requiresOffset = tx.tx.requires.length
  counted : unwrapped → ∀ {hash tx}, ready.readyTx.lookup hash = some tx →
    tx.requiresOffset = tx.tx.requires.length →
    tx.transaction ∈ ready.independentTransactions
  distinct : unwrapped → ∀ {left right leftTx rightTx}, ready.readyTx.lookup left = some leftTx →
    ready.readyTx.lookup right = some rightTx →
    leftTx.transaction.id = rightTx.transaction.id → left = right

theorem empty_invariant (unwrapped : Prop) : empty.Invariant unwrapped (fun _ => False) := by
  constructor
  all_goals simp [empty]

theorem clear_invariant (ready : ReadyTransactions) (unwrapped : Prop) :
    ready.clear.Invariant unwrapped (fun _ => False) := by
  constructor
  all_goals simp [clear]

/-- The `unlocks` without one hash. -/
def unlinked (unlocks : List TxHash) (hash : TxHash) : List TxHash :=
  match unlocks.idxOf? hash with
  | none => unlocks
  | some index => unlocks.swapRemove index

variable {hash : TxHash}

variable {unlocks : List TxHash}

theorem unlinked_of_notMem (absent : hash ∉ unlocks) : unlinked unlocks hash = unlocks := by
  rw [unlinked, idxOf?_eq_none_iff.mpr absent]

theorem unlinked_perm (member : hash ∈ unlocks) : (hash :: unlinked unlocks hash).Perm unlocks := by
  unfold unlinked
  cases found : unlocks.idxOf? hash with
  | none => exact absurd member (idxOf?_eq_none_iff.mp found)
  | some index =>
    obtain ⟨bounded, same, _⟩ := idxOf?_eq_some_iff.mp found
    apply swapRemove_perm
    rw [getElem?_eq_getElem bounded, same]

theorem nodup_unlinked (nodup : unlocks.Nodup) : (unlinked unlocks hash).Nodup := by
  by_cases member : hash ∈ unlocks
  · exact ((unlinked_perm member).nodup_iff.mpr nodup).tail
  · rw [unlinked_of_notMem member]
    exact nodup

theorem mem_unlinked {probe : TxHash} (nodup : unlocks.Nodup) :
    probe ∈ unlinked unlocks hash ↔ probe ∈ unlocks ∧ probe ≠ hash := by
  by_cases member : hash ∈ unlocks
  · have perm := unlinked_perm member
    have absent := (nodup_cons.mp (perm.nodup_iff.mpr nodup)).1
    rw [← perm.mem_iff, mem_cons]
    constructor
    · intro kept
      refine ⟨.inr kept, ?_⟩
      rintro rfl
      exact absent kept
    rintro ⟨same | kept, different⟩
    · exact absurd same different
    · exact kept
  rw [unlinked_of_notMem member]
  constructor
  · intro kept
    refine ⟨kept, ?_⟩
    rintro rfl
    exact member kept
  · intro kept
    exact kept.1

theorem length_unlinked_le : (unlinked unlocks hash).length ≤ unlocks.length := by
  by_cases member : hash ∈ unlocks
  · have length := (unlinked_perm member).length_eq
    rw [length_cons] at length
    omega
  · rw [unlinked_of_notMem member]

theorem lookup_removeUnlock (readyTx : HashMap TxHash ReadyTransaction)
    (provider hash probe : TxHash) :
    (removeUnlock readyTx provider hash).lookup probe =
      if probe = provider then
        (readyTx.lookup provider).map fun tx => { tx with unlocks := unlinked tx.unlocks hash }
      else readyTx.lookup probe := by
  unfold removeUnlock
  by_cases same : probe = provider
  · subst probe
    cases found : readyTx.lookup provider with
    | none => simp [found]
    | some tx =>
      cases position : tx.unlocks.idxOf? hash with
      | none => simp [found, position, unlinked]
      | some index => simp [position, unlinked]
  rw [if_neg same]
  cases found : readyTx.lookup provider with
  | none => rfl
  | some tx =>
    cases position : tx.unlocks.idxOf? hash with
    | none => simp [position]
    | some index =>
      simp only [position]
      rw [lookup_insert_ne same]

def unlinkProviders (providedMarkers : HashMap TxMarker TxHash)
    (hash : TxHash) (readyTx : HashMap TxHash ReadyTransaction)
    (requires : List TxMarker) : HashMap TxHash ReadyTransaction :=
  requires.foldl (fun readyTx mark =>
    match providedMarkers.lookup mark with
    | none => readyTx
    | some provider => removeUnlock readyTx provider hash) readyTx

section Invariant

variable {ready : ReadyTransactions} {unwrapped : Prop} {detached : TxHash → Prop} {hash : TxHash}
  {tx : ReadyTransaction}

section

variable (invariant : ready.Invariant unwrapped detached)

include invariant

theorem Invariant.mono {wider : TxHash → Prop}
    (weaker : ∀ {hash tx}, ready.readyTx.lookup hash = some tx →
      detached hash → wider hash) : ready.Invariant unwrapped wider where
  shaped := invariant.shaped
  provided := invariant.provided
  offset := invariant.offset
  linked found attached :=
    invariant.linked found fun isDetached => attached (weaker found isDetached)
  unlocks := invariant.unlocks
  nodup := invariant.nodup
  finished := invariant.finished
  counted := invariant.counted
  distinct := invariant.distinct

theorem Invariant.of_imp {earlier : Prop} (unwraps : earlier → unwrapped) :
    ready.Invariant earlier detached :=
  { invariant with
    counted := fun isEarlier => invariant.counted (unwraps isEarlier)
    distinct := fun isEarlier => invariant.distinct (unwraps isEarlier) }

theorem Invariant.independent {ref : PoolTransactionRef} (isUnwrapped : unwrapped) :
    ref ∈ ready.independentTransactions ↔
      ∃ hash tx, ready.readyTx.lookup hash = some tx ∧ tx.transaction = ref ∧
        tx.requiresOffset = tx.tx.requires.length := by
  constructor
  · exact invariant.finished
  · rintro ⟨hash, tx, found, rfl, offset⟩
    exact invariant.counted isUnwrapped found offset

end

variable {ref : PoolTransactionRef}

section

variable (invariant : ready.Invariant unwrapped detached)

include invariant

section

variable (found : ready.readyTx.lookup hash = some tx)

include found

theorem Invariant.eq_of_ref_eq {other : TxHash} {otherTx : ReadyTransaction}
    (otherFound : ready.readyTx.lookup other = some otherTx)
    (same : tx.transaction = otherTx.transaction) : hash = other := by
  rw [← (invariant.shaped found).1, ← (invariant.shaped otherFound).1, ReadyTransaction.tx, same]

theorem Invariant.listed {provider : TxHash} {providerTx : ReadyTransaction}
    (stored : ready.readyTx.lookup provider = some providerTx)
    (member : hash ∈ providerTx.unlocks) :
    tx.requiresOffset = 0 ∧ provider ≠ hash ∧ ∃ marker, tx.tx.requires = [marker] ∧
        ready.providedMarkers.lookup marker = some provider := by
  obtain ⟨listedTx, marker, listed, offset, required, provides⟩ := invariant.unlocks stored member
  obtain rfl : listedTx = tx := some.inj (listed.symm.trans found)
  obtain ⟨_, shaped⟩ := invariant.shaped found
  refine ⟨offset, ?_, marker, (shaped.eq_of_mem_requires required).2.1,
    invariant.provided.mpr ⟨providerTx, stored, provides⟩⟩
  rintro rfl
  obtain rfl : providerTx = listedTx := some.inj (stored.symm.trans found)
  exact shaped.notMem_provides required provides

/-- Only the provider of the required marker has something to unlink. -/
theorem Invariant.map_unlinked {probe : TxHash}
    (unprovided : ∀ {marker}, tx.tx.requires = [marker] →
      ready.providedMarkers.lookup marker ≠ some probe) :
    (ready.readyTx.lookup probe).map (fun other =>
        { other with unlocks := unlinked other.unlocks hash }) =
      ready.readyTx.lookup probe := by
  cases stored : ready.readyTx.lookup probe with
  | none => rfl
  | some other =>
    have absent : hash ∉ other.unlocks := by
      intro member
      obtain ⟨_, _, marker, requires, provided⟩ := invariant.listed found stored member
      exact unprovided requires provided
    rw [map_some, unlinked_of_notMem absent]

theorem Invariant.lookup_unlinkProviders {providedMarkers : HashMap TxMarker TxHash}
    (same : ∀ marker ∈ tx.tx.requires, providedMarkers.lookup marker =
      ready.providedMarkers.lookup marker)
    (probe : TxHash) :
    (unlinkProviders providedMarkers hash (ready.readyTx.erase hash) tx.tx.requires).lookup probe =
      if probe = hash then none
      else (ready.readyTx.lookup probe).map fun other =>
        { other with unlocks := unlinked other.unlocks hash } := by
  have erased : (∀ {marker}, tx.tx.requires = [marker] →
        ready.providedMarkers.lookup marker ≠ some probe) →
      (ready.readyTx.erase hash).lookup probe =
      if probe = hash then none
      else (ready.readyTx.lookup probe).map fun other =>
        { other with unlocks := unlinked other.unlocks hash } := by
    intro unprovided
    rw [lookup_erase_eq, invariant.map_unlinked found unprovided]
  unfold unlinkProviders
  rcases (invariant.shaped found).2.requires with nothing | ⟨_, requires⟩
  · rw [nothing]
    apply erased
    intro marker single
    simp [nothing] at single
  rw [requires] at same ⊢
  rw [foldl_cons, same _ (mem_singleton_self _)]
  cases provided : ready.providedMarkers.lookup (toMarker (tx.tx.nonce - 1) tx.tx.sender) with
  | none =>
    apply erased
    intro marker single
    rw [← singleton_injective (requires.symm.trans single), provided]
    exact some_ne_none _ |>.symm
  | some provider =>
    change (removeUnlock _ provider hash).lookup probe = _
    have different : provider ≠ hash := by
      rintro rfl
      obtain ⟨self, stored, provides⟩ := invariant.provided.mp provided
      obtain rfl : self = tx := some.inj (stored.symm.trans found)
      refine (invariant.shaped found).2.notMem_provides ?_ provides
      rw [requires]
      exact mem_singleton_self _
    rw [lookup_removeUnlock]
    by_cases sameProvider : probe = provider
    · subst probe
      rw [if_pos rfl, if_neg different, lookup_erase_ne different]
    rw [if_neg sameProvider]
    apply erased
    intro marker single
    rw [← singleton_injective (requires.symm.trans single), provided]
    exact fun other => sameProvider (some.inj other).symm

end

variable {provider : TxHash} {providerTx : ReadyTransaction}
  (stored : ready.readyTx.lookup provider = some providerTx)
  (member : hash ∈ providerTx.unlocks)

include stored member

theorem Invariant.mem_of_mem_unlocks : hash ∈ ready.readyTx := by
  obtain ⟨tx, _, found, _⟩ := invariant.unlocks stored member
  exact mem_of_lookup found

theorem Invariant.provider_unique {other : TxHash} {otherTx : ReadyTransaction}
    (otherStored : ready.readyTx.lookup other = some otherTx)
    (otherMember : hash ∈ otherTx.unlocks) : provider = other := by
  obtain ⟨tx, _, found, _⟩ := invariant.unlocks stored member
  obtain ⟨_, _, marker, requires, provided⟩ := invariant.listed found stored member
  obtain ⟨_, _, marker', requires', provided'⟩ := invariant.listed found otherStored otherMember
  obtain rfl : marker = marker' := singleton_injective (requires.symm.trans requires')
  exact some.inj (provided.symm.trans provided')

end

/-- The ids of the stored transactions tell them apart, and the independent
ones are stored. -/
structure Keyed (ready : ReadyTransactions) : Prop where
  distinct : ∀ {left right leftTx rightTx}, ready.readyTx.lookup left = some leftTx →
    ready.readyTx.lookup right = some rightTx →
    leftTx.transaction.id = rightTx.transaction.id → left = right
  stored : ∀ {ref}, ref ∈ ready.independentTransactions →
    ∃ hash tx, ready.readyTx.lookup hash = some tx ∧ tx.transaction = ref

theorem Keyed.mem_insert (keyed : Keyed ready) (found : ready.readyTx.lookup hash = some tx) :
    ref ∈ ready.independentTransactions.insert tx.transaction ↔
      ref = tx.transaction ∨ ref ∈ ready.independentTransactions := by
  apply BTreeSet.mem_insert_of_eq
  intro other member same
  obtain ⟨otherHash, otherTx, otherFound, rfl⟩ := keyed.stored member
  obtain rfl := keyed.distinct otherFound found (PoolTransactionRef.id_eq_of_key_eq same)
  rw [some.inj (otherFound.symm.trans found)]

theorem Invariant.keyed (invariant : ready.Invariant unwrapped detached)
    (isUnwrapped : unwrapped) : Keyed ready where
  distinct := invariant.distinct isUnwrapped
  stored := by
    intro ref member
    obtain ⟨hash, tx, found, same, _⟩ := invariant.finished member
    exact ⟨hash, tx, found, same⟩

end Invariant

end ReadyTransactions

end SwissledgerFoundry.Pool
