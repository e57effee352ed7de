import SwissledgerFoundry.Pool.Ready
import SwissledgerFoundry.Collections.Except
import SwissledgerFoundry.Collections.Loop

/-!
# Taking transactions out of the ready queue

`remove_with_markers` and `prune_tags` take out one transaction after the
other.  The transactions that it unlocks are removed as well by the first, and
count their marker as satisfied for the second.
-/

namespace SwissledgerFoundry.Pool.ReadyTransactions

open List AList Option

/-- A transaction left the queue, and those of the transactions it unlocks
that are listed as `satisfied` count its marker as satisfied. -/
structure Removed (before after : ReadyTransactions) (hash : TxHash)
    (tx : ReadyTransaction) (satisfied : List TxHash) : Prop where
  readyTx : ∀ probe, after.readyTx.lookup probe = if probe = hash then none
    else (before.readyTx.lookup probe).map fun other =>
      { other with
        unlocks := unlinked other.unlocks hash
        requiresOffset := other.requiresOffset + if probe ∈ satisfied then 1 else 0 }
  provided : ∀ marker, after.providedMarkers.lookup marker = if marker ∈ tx.tx.provides then none
    else before.providedMarkers.lookup marker
  entered : ∀ {ref}, ref ∈ after.independentTransactions →
    (ref ∈ before.independentTransactions ∧ ref ≠ tx.transaction) ∨
      ∃ other otherTx, other ∈ satisfied ∧ before.readyTx.lookup other = some otherTx ∧
        otherTx.transaction = ref
  kept : Keyed before → ∀ {ref}, (ref ∈ before.independentTransactions ∧ ref ≠ tx.transaction) ∨
      (∃ other otherTx, other ∈ satisfied ∧ before.readyTx.lookup other = some otherTx ∧
        otherTx.transaction = ref) →
    ref ∈ after.independentTransactions
  id : after.id = before.id

variable {unwrapped : Prop} {detached : TxHash → Prop}

section Removed

variable {before after : ReadyTransactions} {hash : TxHash} {tx : ReadyTransaction}
  {satisfied : List TxHash}

theorem Invariant.unlocked {other : TxHash} (invariant : before.Invariant unwrapped detached)
    (found : before.readyTx.lookup hash = some tx)
    (member : other ∈ tx.unlocks) {otherTx : ReadyTransaction}
    (otherFound : before.readyTx.lookup other = some otherTx) :
    otherTx.requiresOffset = 0 ∧ otherTx.tx.requires.length = 1 := by
  obtain ⟨offset, _, marker, requires, _⟩ := invariant.listed otherFound found member
  exact ⟨offset, by rw [requires]; rfl⟩

section

variable (removed : Removed before after hash tx satisfied)

include removed

theorem Removed.lookup_eq_some {probe : TxHash} {found : ReadyTransaction} :
    after.readyTx.lookup probe = some found ↔
      probe ≠ hash ∧ ∃ other, before.readyTx.lookup probe = some other ∧
        { other with
          unlocks := unlinked other.unlocks hash
          requiresOffset := other.requiresOffset +
            if probe ∈ satisfied then 1 else 0 } = found := by
  rw [removed.readyTx]
  by_cases same : probe = hash
  · simp [same]
  · rw [if_neg same, map_eq_some_iff]
    exact (and_iff_right same).symm

theorem Removed.distinct {left right : TxHash} (keyed : Keyed before)
    {leftTx rightTx : ReadyTransaction}
    (leftStored : after.readyTx.lookup left = some leftTx)
    (rightStored : after.readyTx.lookup right = some rightTx)
    (same : leftTx.transaction.id = rightTx.transaction.id) :
    left = right := by
  obtain ⟨_, leftOther, leftEarlier, rfl⟩ := removed.lookup_eq_some.mp leftStored
  obtain ⟨_, rightOther, rightEarlier, rfl⟩ := removed.lookup_eq_some.mp rightStored
  exact keyed.distinct leftEarlier rightEarlier same

theorem Removed.invariant (invariant : before.Invariant unwrapped detached)
    (found : before.readyTx.lookup hash = some tx)
    (subset : ∀ {other}, other ∈ satisfied → other ∈ tx.unlocks) :
    after.Invariant unwrapped fun other => detached other ∨
      other ∈ tx.unlocks ∧ other ∉ satisfied where
  shaped := by
    intro probe _ stored
    obtain ⟨_, other, earlier, rfl⟩ := removed.lookup_eq_some.mp stored
    have shaped := invariant.shaped earlier
    exact shaped
  provided := by
    intro marker provider
    rw [removed.provided]
    constructor
    · intro provided
      split at provided
      · cases provided
      rename_i unprovided
      obtain ⟨providerTx, stored, provides⟩ := invariant.provided.mp provided
      refine ⟨_, removed.lookup_eq_some.mpr ⟨?_, providerTx, stored, rfl⟩, provides⟩
      rintro rfl
      rw [some.inj (stored.symm.trans found)] at provides
      exact unprovided provides
    rintro ⟨_, stored, provides⟩
    obtain ⟨different, providerTx, earlier, rfl⟩ := removed.lookup_eq_some.mp stored
    have provided := invariant.provided.mpr ⟨providerTx, earlier, provides⟩
    rw [if_neg, provided]
    intro own
    have self := invariant.provided.mpr ⟨tx, found, own⟩
    exact different (some.inj (provided.symm.trans self))
  offset := by
    intro probe _ stored
    obtain ⟨_, other, earlier, rfl⟩ := removed.lookup_eq_some.mp stored
    have bound := invariant.offset earlier
    split
    · rename_i counted
      obtain ⟨offset, length⟩ := invariant.unlocked found (subset counted) earlier
      change other.requiresOffset + 1 ≤ other.tx.requires.length
      omega
    · exact bound
  linked := by
    intro probe _ stored attached waits
    obtain ⟨different, other, earlier, rfl⟩ := removed.lookup_eq_some.mp stored
    have uncounted : probe ∉ satisfied := by
      intro counted
      obtain ⟨offset, length⟩ := invariant.unlocked found (subset counted) earlier
      rw [if_pos counted] at waits
      exact waits (by rw [offset, length])
    rw [if_neg uncounted] at waits
    obtain ⟨provider, providerTx, providerStored, member⟩ :=
      invariant.linked earlier (fun isDetached => attached (.inl isDetached)) waits
    refine ⟨provider, _, removed.lookup_eq_some.mpr ⟨?_, providerTx, providerStored, rfl⟩, ?_⟩
    · rintro rfl
      rw [some.inj (providerStored.symm.trans found)] at member
      exact attached (.inr ⟨member, uncounted⟩)
    · apply (mem_unlinked (invariant.nodup providerStored)).mpr
      exact ⟨member, different⟩
  unlocks := by
    intro provider _ probe stored listed
    obtain ⟨otherProvider, providerTx, earlier, rfl⟩ := removed.lookup_eq_some.mp stored
    obtain ⟨member, different⟩ := (mem_unlinked (invariant.nodup earlier)).mp listed
    obtain ⟨other, marker, otherFound, offset, required, provides⟩ :=
      invariant.unlocks earlier member
    have uncounted : probe ∉ satisfied := by
      intro counted
      apply otherProvider
      exact invariant.provider_unique earlier member found (subset counted)
    refine ⟨_, marker, removed.lookup_eq_some.mpr
      ⟨different, other, otherFound, rfl⟩, ?_, required, provides⟩
    rw [if_neg uncounted]
    exact offset
  nodup := by
    intro provider _ stored
    obtain ⟨_, providerTx, earlier, rfl⟩ := removed.lookup_eq_some.mp stored
    exact nodup_unlinked (invariant.nodup earlier)
  finished := by
    intro ref member
    rcases removed.entered member with
      ⟨earlier, different⟩ | ⟨other, otherTx, counted, stored, same⟩
    · obtain ⟨other, otherTx, stored, same, offset⟩ := invariant.finished earlier
      have uncounted : other ∉ satisfied := by
        intro counted
        obtain ⟨zero, length⟩ := invariant.unlocked found (subset counted) stored
        omega
      refine ⟨other, _, removed.lookup_eq_some.mpr ⟨?_, otherTx, stored, rfl⟩, same, ?_⟩
      · rintro rfl
        rw [← same, some.inj (stored.symm.trans found)] at different
        exact different rfl
      · rw [if_neg uncounted]
        exact offset
    obtain ⟨zero, length⟩ := invariant.unlocked found (subset counted) stored
    refine ⟨other, _, removed.lookup_eq_some.mpr ⟨?_, otherTx, stored, rfl⟩, same, ?_⟩
    · exact (invariant.listed stored found (subset counted)).2.1.symm
    · rw [if_pos counted, zero]
      exact length.symm
  counted := by
    intro isUnwrapped other _ stored offset
    obtain ⟨different, otherTx, earlier, rfl⟩ := removed.lookup_eq_some.mp stored
    apply removed.kept (invariant.keyed isUnwrapped)
    by_cases counted : other ∈ satisfied
    · exact .inr ⟨other, otherTx, counted, earlier, rfl⟩
    rw [if_neg counted] at offset
    have independent := invariant.counted isUnwrapped earlier offset
    refine .inl ⟨independent, ?_⟩
    intro sameRef
    exact different (invariant.eq_of_ref_eq earlier found sameRef)
  distinct isUnwrapped := removed.distinct (invariant.keyed isUnwrapped)

/-- Removing a transaction takes its weight off a total, if unlinking makes no
transaction heavier. -/
theorem Removed.sum_le (found : before.readyTx.lookup hash = some tx)
    (weight : ReadyTransaction → ℕ)
    (lighter : ∀ other offset,
      weight { other with
        unlocks := unlinked other.unlocks hash
        requiresOffset := offset } ≤ weight other) :
    weight tx + (after.readyTx.values.map weight).sum ≤ (before.readyTx.values.map weight).sum := by
  rw [← sum_values_erase found weight]
  apply Nat.add_le_add_left
  apply sum_values_le
  intro probe _ stored
  obtain ⟨different, other, earlier, rfl⟩ := removed.lookup_eq_some.mp stored
  refine ⟨other, ?_, lighter other _⟩
  rw [lookup_erase_ne different]
  exact earlier

end

theorem Removed.keyed (removed : Removed before after hash tx [])
    (found : before.readyTx.lookup hash = some tx) (keyed : Keyed before) :
    Keyed after where
  distinct := removed.distinct keyed
  stored := by
    intro ref member
    rcases removed.entered member with ⟨earlier, different⟩ | ⟨_, _, none, _⟩
    · obtain ⟨other, otherTx, stored, rfl⟩ := keyed.stored earlier
      refine ⟨other, _, removed.lookup_eq_some.mpr ⟨?_, otherTx, stored, rfl⟩, rfl⟩
      rintro rfl
      rw [some.inj (stored.symm.trans found)] at different
      exact different rfl
    · cases none

end Removed

/-- The transactions `gone` left the queue, and no others. -/
structure Reports (before after : ReadyTransactions) (gone : List PoolTransaction) : Prop where
  mem : ∀ {hash}, hash ∈ after.readyTx ↔ hash ∈ before.readyTx ∧ hash ∉ gone.map (·.hash)
  stored : ∀ {hash}, hash ∈ gone.map (·.hash) → hash ∈ before.readyTx

variable {hash : TxHash} {tx : ReadyTransaction}

section Reports

variable {before middle after : ReadyTransactions} {gone more : List PoolTransaction}

theorem Reports.refl (ready : ReadyTransactions) : Reports ready ready [] where
  mem := by simp
  stored := by simp

theorem Reports.trans (first : Reports before middle gone) (second : Reports middle after more) :
    Reports before after (gone ++ more) where
  mem := by
    intro hash
    rw [second.mem, first.mem, map_append, mem_append, not_or, and_assoc]
  stored := by
    intro hash member
    rw [map_append, mem_append] at member
    rcases member with isGone | isGone
    · exact first.stored isGone
    · exact (first.mem.mp (second.stored isGone)).1

theorem Removed.reports {satisfied : List TxHash} (removed : Removed before after hash tx satisfied)
    (invariant : before.Invariant unwrapped detached)
    (found : before.readyTx.lookup hash = some tx) :
    Reports before after [tx.tx] where
  mem := by
    intro probe
    rw [map_singleton, (invariant.shaped found).1,
      mem_iff_exists_lookup, mem_iff_exists_lookup, removed.readyTx]
    by_cases same : probe = hash
    · simp [same]
    · simp [same, map_eq_some_iff]
  stored := by
    intro probe member
    rw [map_singleton, mem_singleton, (invariant.shaped found).1] at member
    rw [member]
    exact mem_of_lookup found

end Reports

/-- The later queue holds transactions of the earlier one, and each still
unlocks what is left of its transactions.  Only transactions that require a
pruned marker get independent. -/
structure Shrinks (pruned : TxMarker → Prop) (before after : ReadyTransactions) : Prop where
  id : after.id = before.id
  independent : ∀ {ref}, ref ∈ after.independentTransactions →
    ref ∈ before.independentTransactions ∨ ∃ marker ∈ ref.transaction.requires, pruned marker
  entry : ∀ {hash tx}, after.readyTx.lookup hash = some tx →
    ∃ earlier, before.readyTx.lookup hash = some earlier ∧ tx.transaction = earlier.transaction ∧
      ∀ {other}, other ∈ tx.unlocks ↔ other ∈ earlier.unlocks ∧ other ∈ after.readyTx

variable {marker : TxMarker}

section Shrinks

variable {before middle after : ReadyTransactions} {pruned : TxMarker → Prop}

theorem Shrinks.mem (shrinks : Shrinks pruned before after)
    (member : hash ∈ after.readyTx) : hash ∈ before.readyTx := by
  obtain ⟨tx, found⟩ := mem_iff_exists_lookup.mp member
  obtain ⟨earlier, stored, _⟩ := shrinks.entry found
  exact mem_of_lookup stored

theorem Invariant.shrinks_refl (invariant : before.Invariant unwrapped detached) :
    Shrinks pruned before before where
  id := rfl
  independent := .inl
  entry := by
    intro hash tx found
    refine ⟨tx, found, rfl, ?_⟩
    intro other
    constructor
    · intro member
      exact ⟨member, invariant.mem_of_mem_unlocks found member⟩
    · intro member
      exact member.1

theorem Shrinks.mono {wider : TxMarker → Prop} (shrinks : Shrinks pruned before after)
    (weaker : ∀ marker, pruned marker → wider marker) :
    Shrinks wider before after where
  id := shrinks.id
  independent := by
    intro ref member
    apply (shrinks.independent member).imp_right
    rintro ⟨marker, required, isPruned⟩
    exact ⟨marker, required, weaker marker isPruned⟩
  entry := shrinks.entry

theorem Shrinks.trans (first : Shrinks pruned before middle)
    (second : Shrinks pruned middle after) :
    Shrinks pruned before after where
  id := second.id.trans first.id
  independent := by
    intro ref member
    rcases second.independent member with member | isNew
    · exact first.independent member
    · exact .inr isNew
  entry := by
    intro hash tx found
    obtain ⟨between, stored, sameRef, unlocks⟩ := second.entry found
    obtain ⟨earlier, earlierStored, earlierRef, earlierUnlocks⟩ := first.entry stored
    refine ⟨earlier, earlierStored, sameRef.trans earlierRef, ?_⟩
    intro other
    rw [unlocks, earlierUnlocks, and_assoc]
    apply and_congr_right
    intro _
    exact and_iff_right_of_imp second.mem

variable {unwrapped : Prop} {detached : TxHash → Prop}
  (invariant : before.Invariant unwrapped detached)

include invariant

theorem Removed.shrinks {satisfied : List TxHash} (removed : Removed before after hash tx satisfied)
    (found : before.readyTx.lookup hash = some tx)
    (counted : ∀ {other}, other ∈ satisfied → other ∈ tx.unlocks ∧
      ∀ marker ∈ tx.tx.provides, pruned marker) :
    Shrinks pruned before after where
  id := removed.id
  independent := by
    intro ref member
    rcases removed.entered member with ⟨earlier, _⟩ | ⟨other, otherTx, isSatisfied, stored, rfl⟩
    · exact .inl earlier
    obtain ⟨listed, isPruned⟩ := counted isSatisfied
    obtain ⟨_, marker, otherFound, _, required, provides⟩ := invariant.unlocks found listed
    rw [some.inj (otherFound.symm.trans stored)] at required
    exact .inr ⟨marker, required, isPruned marker provides⟩
  entry := by
    intro probe _ stored
    obtain ⟨_, earlier, found, rfl⟩ := removed.lookup_eq_some.mp stored
    refine ⟨earlier, found, rfl, ?_⟩
    intro other
    rw [mem_unlinked (invariant.nodup found)]
    apply and_congr_right
    intro member
    obtain ⟨otherTx, _, otherFound, _⟩ := invariant.unlocks found member
    rw [mem_iff_exists_lookup]
    constructor
    · intro different
      exact ⟨_, removed.lookup_eq_some.mpr ⟨different, otherTx, otherFound, rfl⟩⟩
    · rintro ⟨_, kept⟩
      exact (removed.lookup_eq_some.mp kept).1

theorem Shrinks.mem_providedMarkers {detached' : TxHash → Prop}
    (shrinks : Shrinks pruned before after)
    (afterInvariant : after.Invariant unwrapped detached')
    (member : marker ∈ after.providedMarkers) :
    marker ∈ before.providedMarkers := by
  obtain ⟨hash, provided⟩ := mem_iff_exists_lookup.mp member
  obtain ⟨tx, found, provides⟩ := afterInvariant.provided.mp provided
  obtain ⟨earlier, stored, sameRef, _⟩ := shrinks.entry found
  apply mem_iff_exists_lookup.mpr
  refine ⟨hash, invariant.provided.mpr ⟨earlier, stored, ?_⟩⟩
  rw [ReadyTransaction.tx, ← sameRef]
  exact provides

end Shrinks

section Loops

variable {ready : ReadyTransactions} {unwrapped : Prop}
  {detached : TxHash → Prop} {hash : TxHash} {tx : ReadyTransaction}

section

variable (found : ready.readyTx.lookup hash = some tx)

include found

theorem Keyed.eq_of_key_eq {ref : PoolTransactionRef} (keyed : Keyed ready)
    (member : ref ∈ ready.independentTransactions)
    (same : ref.key = tx.transaction.key) : ref = tx.transaction := by
  obtain ⟨other, otherTx, stored, rfl⟩ := keyed.stored member
  obtain rfl := keyed.distinct stored found (PoolTransactionRef.id_eq_of_key_eq same)
  rw [some.inj (stored.symm.trans found)]

theorem Keyed.mem_remove_key {ref : PoolTransactionRef} (keyed : Keyed ready) :
    ref ∈ ready.independentTransactions.remove tx.transaction.key ↔
      ref ∈ ready.independentTransactions ∧ ref ≠ tx.transaction := by
  rw [BTreeSet.mem_remove]
  apply and_congr_right
  intro member
  constructor
  · intro differentKey same
    exact differentKey (congrArg PoolTransactionRef.key same)
  · intro different sameKey
    exact different (keyed.eq_of_key_eq found member sameKey)

end

section

variable (invariant : ready.Invariant unwrapped detached)
  (found : ready.readyTx.lookup hash = some tx)

include invariant found

/-- What `remove_with_markers` makes of the queue, up to the markers that its
filter keeps. -/
theorem Invariant.removed_unlinkProviders {providedMarkers : HashMap TxMarker TxHash}
    (same : ∀ marker ∈ tx.tx.requires, providedMarkers.lookup marker =
      ready.providedMarkers.lookup marker) :
    Removed ready
      { ready with
        providedMarkers := ready.providedMarkers.eraseAll tx.tx.provides
        readyTx := unlinkProviders providedMarkers hash (ready.readyTx.erase hash) tx.tx.requires
        independentTransactions := ready.independentTransactions.remove tx.transaction.key }
      hash tx [] where
  readyTx probe := by
    rw [invariant.lookup_unlinkProviders found same]
    simp only [not_mem_nil, if_false, Nat.add_zero]
  provided marker := by
    rw [lookup_eraseAll]
    congr
  entered := by
    intro ref member
    obtain ⟨earlier, different⟩ := BTreeSet.mem_remove.mp member
    refine .inl ⟨earlier, ?_⟩
    rintro rfl
    exact different rfl
  kept := by
    intro keyed ref
    rw [keyed.mem_remove_key found]
    simp
  id := rfl

theorem Invariant.removeTransaction_none : ∃ after, removeTransaction
        { ready with readyTx := ready.readyTx.erase hash } none hash tx =
        (after, true) ∧ Removed ready after hash tx [] := by
  have kept : ∀ marker ∈ tx.tx.requires,
      (ready.providedMarkers.eraseAll tx.tx.provides).lookup marker =
        ready.providedMarkers.lookup marker := by
    intro marker required
    rw [lookup_eraseAll, if_neg]
    exact (invariant.shaped found).2.notMem_provides required
  refine ⟨_, ?_, invariant.removed_unlinkProviders found kept⟩
  have nonempty : tx.tx.provides.isEmpty = false := by simp [(invariant.shaped found).2.provides]
  have all : tx.tx.provides.filter (fun _ => true) = tx.tx.provides := filter_true _
  simp only [removeTransaction, all_none, all, nonempty]
  rfl

/-- A transaction whose markers are all filtered leaves them behind and does
not take along the transactions that it unlocks. -/
theorem Invariant.removeTransaction_some : ∃ after, removeTransaction
        { ready with readyTx := ready.readyTx.erase hash }
        (some tx.tx.provides) hash tx =
        ({ after with providedMarkers := ready.providedMarkers }, false) ∧
      Removed ready after hash tx [] := by
  refine ⟨_, ?_, invariant.removed_unlinkProviders found fun marker _ => rfl⟩
  have nothing : tx.tx.provides.filter (fun mark =>
      (some tx.tx.provides).all (mark ∉ ·)) = [] := by
    simp
  simp only [removeTransaction, nothing]
  rfl

end

/-- The transactions on the stack left the queue, together with those that
they unlock. -/
structure Cascades (before : ReadyTransactions) (stack : List TxHash)
    (after : ReadyTransactions) (gone : List PoolTransaction) : Prop
    extends Reports before after gone where
  taken : ∀ {hash}, hash ∈ stack → hash ∉ after.readyTx
  closed : ∀ {owner ownerTx hash},
    before.readyTx.lookup owner = some ownerTx → hash ∈ ownerTx.unlocks →
    owner ∉ after.readyTx → hash ∉ after.readyTx

theorem Cascades.nil (ready : ReadyTransactions) : Cascades ready [] ready [] where
  toReports := .refl ready
  taken none := absurd none not_mem_nil
  closed stored _ gone := absurd (mem_of_lookup stored) gone

variable {stack : List TxHash} {gone : List PoolTransaction} {after : ReadyTransactions}

theorem Cascades.skip (cascades : Cascades ready stack after gone) (absent : hash ∉ ready.readyTx) :
    Cascades ready (hash :: stack) after gone where
  toReports := cascades.toReports
  taken := by
    intro other member
    rcases mem_cons.mp member with rfl | later
    · exact fun kept => absent (cascades.mem.mp kept).1
    · exact cascades.taken later
  closed := cascades.closed

theorem Removed.cascades {middle : ReadyTransactions} (removed : Removed ready middle hash tx [])
    (invariant : ready.Invariant unwrapped detached)
    (found : ready.readyTx.lookup hash = some tx)
    (cascades : Cascades middle (tx.unlocks.reverse ++ stack) after gone) :
    Cascades ready (hash :: stack) after (tx.tx :: gone) where
  toReports := (removed.reports invariant found).trans cascades.toReports
  taken := by
    intro other member
    rcases mem_cons.mp member with rfl | later
    · intro kept
      obtain ⟨_, stored⟩ := mem_iff_exists_lookup.mp (cascades.mem.mp kept).1
      exact (removed.lookup_eq_some.mp stored).1 rfl
    · exact cascades.taken (mem_append_right _ later)
  closed := by
    intro owner ownerTx other stored member isGone
    by_cases same : owner = hash
    · subst owner
      rw [some.inj (stored.symm.trans found)] at member
      apply cascades.taken
      exact mem_append_left _ (mem_reverse.mpr member)
    by_cases isRemoved : other = hash
    · intro kept
      obtain ⟨_, otherStored⟩ := mem_iff_exists_lookup.mp (cascades.mem.mp kept).1
      exact (removed.lookup_eq_some.mp otherStored).1 isRemoved
    · apply cascades.closed (removed.lookup_eq_some.mpr ⟨same, ownerTx, stored, rfl⟩) _ isGone
      exact (mem_unlinked (invariant.nodup stored)).mpr ⟨member, isRemoved⟩

def Unlocks (ready : ReadyTransactions) (owner hash : TxHash) : Prop :=
  ∃ ownerTx, ready.readyTx.lookup owner = some ownerTx ∧ hash ∈ ownerTx.unlocks

/-- What left the queue is on the stack, or unlocked by what left it; the top
of the stack leaves it first. -/
structure Rooted (before : ReadyTransactions) (stack : List TxHash) (after : ReadyTransactions)
    (gone : List PoolTransaction) : Prop where
  origin : ∀ hash ∈ before.readyTx, hash ∉ after.readyTx →
    ∃ root ∈ stack, Relation.ReflTransGen before.Unlocks root hash
  first : ∀ hash ∈ stack.head?, ∀ tx ∈ before.readyTx.lookup hash, gone.head? = some tx.tx

theorem Rooted.nil (ready : ReadyTransactions) : Rooted ready [] ready [] where
  origin _ := absurd
  first _ none := by cases none

theorem Removed.rooted {middle : ReadyTransactions} (removed : Removed ready middle hash tx [])
    (invariant : ready.Invariant unwrapped detached)
    (found : ready.readyTx.lookup hash = some tx)
    (rooted : Rooted middle (tx.unlocks.reverse ++ stack) after gone) :
    Rooted ready (hash :: stack) after (tx.tx :: gone) := by
  refine ⟨?_, by simp [found]⟩
  intro other stored gone
  by_cases same : other = hash
  · exact ⟨hash, mem_cons_self, same ▸ .refl⟩
  obtain ⟨otherTx, otherFound⟩ := mem_iff_exists_lookup.mp stored
  obtain ⟨root, listed, path⟩ := rooted.origin other (mem_iff_exists_lookup.mpr
    ⟨_, removed.lookup_eq_some.mpr ⟨same, otherTx, otherFound, rfl⟩⟩) gone
  have earlier : Relation.ReflTransGen ready.Unlocks root other := by
    refine path.lift (fun hash => hash) ?_
    rintro owner unlocked ⟨_, kept, member⟩
    obtain ⟨_, ownerTx, ownerFound, rfl⟩ := removed.lookup_eq_some.mp kept
    exact ⟨ownerTx, ownerFound, ((mem_unlinked (invariant.nodup ownerFound)).mp member).1⟩
  rcases mem_append.mp listed with unlocked | later
  · exact ⟨hash, mem_cons_self, .head ⟨tx, found, mem_reverse.mp unlocked⟩ earlier⟩
  · exact ⟨root, mem_cons_of_mem hash later, earlier⟩

/-- The loop of `remove_with_markers` without a filter ends, and leaves no
transaction without its provider. -/
theorem removeLoop_eq_ok {fuel : ℕ} (removed : List PoolTransaction)
    (invariant : ready.Invariant unwrapped (· ∈ stack))
    (enough : stack.length + (ready.readyTx.values.map (·.unlocks.length)).sum ≤ fuel) :
    ∃ after gone, removeLoop none fuel ready stack removed = .ok (after, removed ++ gone) ∧
      after.Invariant unwrapped (fun _ => False) ∧
      Shrinks (fun _ => False) ready after ∧
      Cascades ready stack after gone ∧ Rooted ready stack after gone := by
  induction fuel, stack using Loop.worklist generalizing ready removed with
  | nil fuel =>
    refine ⟨ready, [], ?_, ?_, invariant.shrinks_refl, .nil ready, .nil ready⟩
    · rw [append_nil, removeLoop]
    · exact invariant.mono fun _ => not_mem_nil
  | zero hash stack => simp at enough
  | succ fuel hash stack ih =>
    rw [length_cons] at enough
    cases found : ready.readyTx.lookup hash with
    | none =>
      have rest : ready.Invariant unwrapped (· ∈ stack) := by
        apply invariant.mono
        intro other otherTx stored listed
        rcases mem_cons.mp listed with same | listed
        · rw [same, found] at stored
          cases stored
        · exact listed
      obtain ⟨after, gone, looped, holds, shrinks, cascades, rooted⟩ := ih _ removed rest (by omega)
      refine ⟨after, gone, ?_, holds, shrinks, cascades.skip (lookup_eq_none.mp found), ?_⟩
      · rw [removeLoop, found]
        exact looped
      refine ⟨?_, by simp [found]⟩
      intro other stored gone
      obtain ⟨root, listed, path⟩ := rooted.origin other stored gone
      exact ⟨root, mem_cons_of_mem hash listed, path⟩
    | some tx =>
      obtain ⟨middle, step, isRemoved⟩ := invariant.removeTransaction_none found
      have lighter := isRemoved.sum_le found (·.unlocks.length) fun other _ => length_unlinked_le
      have middleInvariant : middle.Invariant unwrapped (· ∈ tx.unlocks.reverse ++ stack) := by
        apply (isRemoved.invariant invariant found (fun none => nomatch none)).mono
        intro other otherTx stored isDetached
        rw [mem_append, mem_reverse]
        rcases isDetached with listed | unlocked
        · rcases mem_cons.mp listed with same | listed
          · exact absurd same (isRemoved.lookup_eq_some.mp stored).1
          · exact .inr listed
        · exact .inl unlocked.1
      obtain ⟨after, gone, looped, afterInvariant, shrinks, cascades,
        rooted⟩ := ih _ (removed ++ [tx.tx]) middleInvariant (by
            rw [length_append, length_reverse]
            omega)
      refine ⟨after, tx.tx :: gone, ?_, afterInvariant,
        (isRemoved.shrinks invariant found (fun none => nomatch none)).trans shrinks,
        isRemoved.cascades invariant found cascades, isRemoved.rooted invariant found rooted⟩
      rw [removeLoop, found, append_cons]
      simp only [step]
      exact looped

theorem removeWithMarkers_eq_ok (invariant : ready.Invariant unwrapped fun _ => False)
    (txHashes : List TxHash) :
    ∃ after gone, ready.removeWithMarkers txHashes none = .ok (after, gone) ∧
      after.Invariant unwrapped (fun _ => False) ∧
      Shrinks (fun _ => False) ready after ∧
      Cascades ready txHashes.reverse after gone ∧ Rooted ready txHashes.reverse after gone := by
  apply removeLoop_eq_ok []
  · exact invariant.mono fun _ => False.elim
  · rw [length_reverse]

end Loops

end SwissledgerFoundry.Pool.ReadyTransactions
