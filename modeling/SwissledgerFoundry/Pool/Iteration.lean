import SwissledgerFoundry.Pool.Removal

/-!
# Iterating over the ready transactions

The iterator yields the best one of the transactions whose provider has been
yielded.  A provider has the nonce before, so nothing is left in the end.
-/

namespace SwissledgerFoundry.Pool

open List AList ReadyTransactions TransactionsIterator BTreeSet

namespace ReadyTransactions

/-- A transaction that may come next after the `yielded` ones: it is
independent, or all that list it are among the yielded. -/
structure Available (ready : ReadyTransactions) (yielded : List TxHash)
    (hash : TxHash) (tx : ReadyTransaction) : Prop where
  found : ready.readyTx.lookup hash = some tx
  unyielded : hash ∉ yielded
  unlocked : tx.transaction ∈ ready.independentTransactions ∨
    ∀ {owner ownerTx}, ready.readyTx.lookup owner = some ownerTx →
      hash ∈ ownerTx.unlocks → owner ∈ yielded

/-- The best transaction that may come next. -/
structure Best (ready : ReadyTransactions) (yielded : List TxHash)
    (hash : TxHash) (tx : ReadyTransaction) : Prop where
  available : ready.Available yielded hash tx
  largest : ∀ {other otherTx}, ready.Available yielded other otherTx →
    otherTx.transaction.key ≤ tx.transaction.key

/-- The state of an iterator over the queue that has yielded some of the
transactions. -/
structure Walks (ready : ReadyTransactions) (unwrapped : Prop)
    (yielded : List TxHash) (iterator : TransactionsIterator) : Prop where
  all : iterator.all = ready.readyTx
  awaiting : iterator.awaiting = ∅
  available : ∀ {ref}, ref ∈ iterator.independent →
    ∃ hash tx, ready.Available yielded hash tx ∧ tx.transaction = ref
  complete : unwrapped → ∀ {hash tx}, ready.Available yielded hash tx →
    tx.transaction ∈ iterator.independent
  nodup : yielded.Nodup
  stored : ∀ {hash}, hash ∈ yielded → hash ∈ ready.readyTx
  closed : ∀ {hash owner ownerTx}, hash ∈ yielded → ready.readyTx.lookup owner = some ownerTx →
    hash ∈ ownerTx.unlocks → owner ∈ yielded

variable {ready : ReadyTransactions} {unwrapped : Prop} {detached : TxHash → Prop}
  {tx ownerTx : ReadyTransaction} {hash : TxHash}

theorem Invariant.not_independent {owner : TxHash} (invariant : ready.Invariant unwrapped detached)
    (found : ready.readyTx.lookup hash = some tx)
    (stored : ready.readyTx.lookup owner = some ownerTx)
    (member : hash ∈ ownerTx.unlocks) :
    tx.transaction ∉ ready.independentTransactions := by
  intro independent
  obtain ⟨other, otherTx, otherFound, same, offset⟩ := invariant.finished independent
  obtain rfl := invariant.eq_of_ref_eq otherFound found same
  rw [Option.some.inj (otherFound.symm.trans found)] at offset
  obtain ⟨zero, length⟩ := invariant.unlocked stored member found
  omega

theorem Invariant.walks_getTransactions (invariant : ready.Invariant unwrapped fun _ => False) :
    ready.Walks unwrapped [] ready.getTransactions where
  all := rfl
  awaiting := rfl
  available := by
    intro ref member
    obtain ⟨hash, tx, found, rfl, _⟩ := invariant.finished member
    exact ⟨hash, tx, ⟨found, not_mem_nil, .inl member⟩, rfl⟩
  complete := by
    intro isUnwrapped hash tx available
    rcases available.unlocked with independent | unlocked
    · exact independent
    apply invariant.counted isUnwrapped available.found
    by_contra waits
    obtain ⟨owner, ownerTx, stored, member⟩ := invariant.linked available.found not_false waits
    exact not_mem_nil (unlocked stored member)
  nodup := nodup_nil
  stored member := absurd member not_mem_nil
  closed member := absurd member not_mem_nil

theorem unlock_eq {iterator : TransactionsIterator}
    (all : iterator.all = ready.readyTx) (awaiting : iterator.awaiting = ∅)
    (found : ready.readyTx.lookup hash = some tx)
    (finished : tx.tx.requires.length ≤ tx.requiresOffset + 1) :
    iterator.unlock hash =
      { iterator with
        independent := iterator.independent.insert tx.transaction } := by
  simp [unlock, awaiting, all, found, independentOrAwaiting, finished]

/-- What the iterator does with the transactions that a yielded one
unlocks. -/
theorem foldl_unlock {hashes : List TxHash}
    (iterator : TransactionsIterator) (all : iterator.all = ready.readyTx)
    (awaiting : iterator.awaiting = ∅)
    (last : ∀ hash ∈ hashes, ∃ tx, ready.readyTx.lookup hash = some tx ∧
      tx.tx.requires.length ≤ tx.requiresOffset + 1) :
    (hashes.foldl unlock iterator).all = ready.readyTx ∧
    (hashes.foldl unlock iterator).awaiting = ∅ ∧
    (∀ {ref}, ref ∈ (hashes.foldl unlock iterator).independent → ref ∈ iterator.independent ∨
        ∃ hash tx, hash ∈ hashes ∧ ready.readyTx.lookup hash = some tx ∧ tx.transaction = ref) ∧
    (Keyed { ready with independentTransactions := iterator.independent } →
      iterator.independent.elems ⊆ (hashes.foldl unlock iterator).independent.elems ∧
      ∀ {hash tx}, hash ∈ hashes → ready.readyTx.lookup hash = some tx →
        tx.transaction ∈ (hashes.foldl unlock iterator).independent) := by
  induction hashes generalizing iterator with
  | nil => exact ⟨all, awaiting, .inl, fun _ => ⟨Subset.refl _, fun none => nomatch none⟩⟩
  | cons hash hashes ih =>
    obtain ⟨tx, found, finished⟩ := last hash mem_cons_self
    rw [foldl_cons, unlock_eq all awaiting found finished]
    obtain ⟨sameAll, sameAwaiting, members, complete⟩ := ih
      { iterator with independent := iterator.independent.insert tx.transaction }
      all awaiting
      (fun other member => last other (mem_cons_of_mem hash member))
    refine ⟨sameAll, sameAwaiting, ?_, ?_⟩
    · intro ref member
      rcases members member with inserted | ⟨other, otherTx, listed, same⟩
      · apply (mem_insert.mp inserted).imp_right
        rintro ⟨rfl, _⟩
        exact ⟨hash, tx, mem_cons_self, found, rfl⟩
      · exact .inr ⟨other, otherTx, mem_cons_of_mem hash listed, same⟩
    intro keyed
    have inserted : ∀ {ref}, ref ∈ iterator.independent.insert tx.transaction ↔
          ref = tx.transaction ∨ ref ∈ iterator.independent :=
      keyed.mem_insert found
    obtain ⟨kept, entered⟩ := complete ⟨keyed.distinct, by
      intro ref member
      rcases inserted.mp member with rfl | member
      · exact ⟨hash, tx, found, rfl⟩
      · exact keyed.stored member⟩
    refine ⟨fun ref member => kept (inserted.mpr (.inr member)), ?_⟩
    intro other otherTx listed stored
    rcases mem_cons.mp listed with rfl | later
    · rw [Option.some.inj (stored.symm.trans found)]
      exact kept (inserted.mpr (.inl rfl))
    · exact entered later stored

variable {yielded : List TxHash} {iterator : TransactionsIterator}

section

variable (walks : ready.Walks unwrapped yielded iterator)
  (invariant : ready.Invariant unwrapped detached)

include walks invariant

theorem Walks.keyed (isUnwrapped : unwrapped) : Keyed
      { ready with independentTransactions := iterator.independent } where
  distinct := invariant.distinct isUnwrapped
  stored := by
    intro ref member
    obtain ⟨hash, tx, available, same⟩ := walks.available member
    exact ⟨hash, tx, available.found, same⟩

theorem Walks.available_append {other : TxHash} {otherTx : ReadyTransaction}
    (available : ready.Available yielded hash tx) :
    ready.Available (yielded ++ [hash]) other otherTx ↔
      (ready.Available yielded other otherTx ∧ other ≠ hash) ∨
        (other ∈ tx.unlocks ∧ ready.readyTx.lookup other = some otherTx) := by
  constructor
  · intro later
    have unyielded := later.unyielded
    rw [mem_append, mem_singleton, not_or] at unyielded
    by_cases listed : other ∈ tx.unlocks
    · exact .inr ⟨listed, later.found⟩
    refine .inl ⟨⟨later.found, unyielded.1, ?_⟩, unyielded.2⟩
    apply later.unlocked.imp_right
    intro unlocked owner ownerTx stored member
    rcases mem_append.mp (unlocked stored member) with earlier | isLast
    · exact earlier
    obtain rfl := mem_singleton.mp isLast
    rw [Option.some.inj (stored.symm.trans available.found)] at member
    exact absurd member listed
  rintro (⟨earlier, different⟩ | ⟨listed, found⟩)
  · refine ⟨earlier.found, ?_, ?_⟩
    · rw [mem_append, mem_singleton, not_or]
      exact ⟨earlier.unyielded, different⟩
    · apply earlier.unlocked.imp_right
      intro unlocked owner ownerTx stored member
      exact mem_append_left _ (unlocked stored member)
  have different := (invariant.listed found available.found listed).2.1.symm
  refine ⟨found, ?_, .inr ?_⟩
  · rw [mem_append, mem_singleton, not_or]
    refine ⟨?_, different⟩
    intro earlier
    exact available.unyielded (walks.closed earlier available.found listed)
  intro owner ownerTx stored member
  rw [invariant.provider_unique stored member available.found listed]
  exact mem_append_right _ (mem_singleton_self hash)

theorem Walks.take (available : ready.Available yielded hash tx)
    (member : tx.transaction ∈ iterator.independent) :
    ready.Walks unwrapped (yielded ++ [hash]) (tx.unlocks.foldl unlock
      { iterator with
        independent := iterator.independent.remove tx.transaction.key }) := by
  have taken : ∀ {ref}, ref ∈ iterator.independent.remove tx.transaction.key ↔
        ref ∈ iterator.independent ∧ ref ≠ tx.transaction := by
    intro ref
    rw [mem_remove]
    apply and_congr_right
    intro stored
    rw [not_iff_not]
    constructor
    · exact eq_of_key_eq stored member
    · exact congrArg PoolTransactionRef.key
  have last : ∀ other ∈ tx.unlocks, ∃ otherTx, ready.readyTx.lookup other = some otherTx ∧
        otherTx.tx.requires.length ≤ otherTx.requiresOffset + 1 := by
    intro other listed
    obtain ⟨otherTx, _, found, _⟩ := invariant.unlocks available.found listed
    obtain ⟨_, length⟩ := invariant.unlocked available.found listed found
    exact ⟨otherTx, found, by omega⟩
  obtain ⟨all, awaiting, members, complete⟩ := foldl_unlock
    { iterator with independent := iterator.independent.remove tx.transaction.key }
    walks.all walks.awaiting last
  refine ⟨all, awaiting, ?_, ?_, ?_, ?_, ?_⟩
  · intro ref later
    rcases members later with kept | ⟨other, otherTx, listed, found, same⟩
    · obtain ⟨stored, different⟩ := taken.mp kept
      obtain ⟨other, otherTx, earlier, rfl⟩ := walks.available stored
      refine ⟨other, otherTx, (walks.available_append invariant
        available).mpr (.inl ⟨earlier, ?_⟩), rfl⟩
      rintro rfl
      rw [Option.some.inj (earlier.found.symm.trans available.found)] at different
      exact different rfl
    · exact ⟨other, otherTx, (walks.available_append invariant
        available).mpr (.inr ⟨listed, found⟩), same⟩
  · intro isUnwrapped other otherTx later
    have keyed := walks.keyed invariant isUnwrapped
    obtain ⟨kept, entered⟩ := complete
      ⟨keyed.distinct, fun stored => keyed.stored (taken.mp stored).1⟩
    rcases (walks.available_append invariant available).mp later with
      ⟨earlier, different⟩ | ⟨listed, found⟩
    · refine kept (taken.mpr ⟨walks.complete isUnwrapped earlier, ?_⟩)
      intro same
      exact different (invariant.eq_of_ref_eq earlier.found available.found same)
    · exact entered listed found
  · apply Nodup.append walks.nodup (nodup_singleton hash)
    intro other earlier isLast
    rw [mem_singleton.mp isLast] at earlier
    exact available.unyielded earlier
  · intro other listed
    rcases mem_append.mp listed with earlier | isLast
    · exact walks.stored earlier
    · rw [mem_singleton.mp isLast]
      exact mem_of_lookup available.found
  intro other owner ownerTx listed stored unlocks
  apply mem_append_left
  rcases mem_append.mp listed with earlier | isLast
  · exact walks.closed earlier stored unlocks
  rw [mem_singleton.mp isLast] at unlocks
  rcases available.unlocked with independent | unlocked
  · exact absurd independent (invariant.not_independent available.found stored unlocks)
  · exact unlocked stored unlocks

theorem Walks.next :
    (iterator.next = none ∧ (unwrapped → ∀ hash tx, ¬ ready.Available yielded hash tx)) ∨
    ∃ tx later, iterator.next = some (tx.tx, later) ∧
      (unwrapped → ready.Best yielded tx.tx.hash tx) ∧
      ready.Walks unwrapped (yielded ++ [tx.tx.hash]) later := by
  cases last : iterator.independent.last? with
  | none =>
    have nothing := last?_eq_none_iff.mp last
    left
    constructor
    · unfold TransactionsIterator.next
      cases iterator.independent.elems.length with
      | zero => rfl
      | succ fuel => rw [nextLoop, last]
    · intro isUnwrapped hash tx available
      exact nothing _ (walks.complete isUnwrapped available)
  | some best =>
    obtain ⟨member, largest⟩ := last?_eq_some last
    obtain ⟨hash, tx, available, rfl⟩ := walks.available member
    obtain rfl := (invariant.shaped available.found).1
    have nonempty : iterator.independent.elems.length =
        iterator.independent.elems.length - 1 + 1 := by
      have := length_pos_of_mem member
      omega
    refine .inr ⟨tx, _, ?_, ?_, walks.take invariant available member⟩
    · rw [TransactionsIterator.next, nonempty, nextLoop, last]
      simp only [walks.all, available.found]
    intro isUnwrapped
    refine ⟨available, ?_⟩
    intro other otherTx otherAvailable
    exact largest _ (walks.complete isUnwrapped otherAvailable)

end

section

variable (invariant : ready.Invariant unwrapped detached)

include invariant

theorem Invariant.precedes_of_mem_unlocks {owner : TxHash}
    (found : ready.readyTx.lookup hash = some tx)
    (stored : ready.readyTx.lookup owner = some ownerTx)
    (member : hash ∈ ownerTx.unlocks) :
    Precedes ownerTx.tx tx.tx := by
  obtain ⟨other, marker, otherFound, _, required, provides⟩ := invariant.unlocks stored member
  obtain rfl : other = tx := Option.some.inj (otherFound.symm.trans found)
  exact (invariant.shaped found).2.precedes (invariant.shaped stored).2 required provides

/-- When no transaction may come next, all have been yielded: whoever lists a
transaction has a smaller nonce. -/
theorem Invariant.mem_of_exhausted (nothing : ∀ hash tx, ¬ ready.Available yielded hash tx)
    (found : ready.readyTx.lookup hash = some tx) : hash ∈ yielded := by
  generalize nonce : tx.tx.nonce.toNat = value
  induction value using Nat.strong_induction_on generalizing hash tx with
  | _ value ih =>
    by_contra unyielded
    apply nothing hash tx
    refine ⟨found, unyielded, .inr ?_⟩
    intro owner ownerTx stored member
    have smaller := (invariant.precedes_of_mem_unlocks found stored member).nonce
    exact ih ownerTx.tx.nonce.toNat (by omega) stored rfl

end

/-- The transactions come out one after the other, the best one first, until
all have been yielded. -/
def Yields (ready : ReadyTransactions) : List TxHash → List PoolTransaction → Prop
  | yielded, [] => ∀ hash ∈ ready.readyTx, hash ∈ yielded
  | yielded, tx :: txs =>
    (∃ readyTx, readyTx.tx = tx ∧ ready.Best yielded tx.hash readyTx) ∧
      Yields ready (yielded ++ [tx.hash]) txs

section

variable (walks : ready.Walks unwrapped yielded iterator)

include walks

theorem Walks.length_le : yielded.length ≤ ready.readyTx.size := by
  have subset : yielded ⊆ ready.readyTx.keys := by
    intro hash member
    exact mem_keys.mp (walks.stored member)
  apply (subperm_of_subset walks.nodup subset).length_le.trans_eq
  simp [AList.size, AList.keys, List.keys]

theorem Walks.drain {fuel : ℕ} (invariant : ready.Invariant unwrapped detached)
    (enough : ready.readyTx.size < yielded.length + fuel) :
    ∃ txs, iterator.drain fuel = .ok txs ∧ (unwrapped → ready.Yields yielded txs) := by
  induction fuel generalizing yielded iterator with
  | zero =>
    have := walks.length_le
    omega
  | succ fuel ih =>
    rcases walks.next invariant with ⟨ended, nothing⟩ | ⟨tx, later, next, best, laterWalks⟩
    · refine ⟨[], by rw [drain, ended], ?_⟩
      intro isUnwrapped hash stored
      obtain ⟨tx, found⟩ := mem_iff_exists_lookup.mp stored
      exact invariant.mem_of_exhausted (nothing isUnwrapped) found
    obtain ⟨txs, drained, yields⟩ := ih laterWalks (by
      rw [length_append, length_singleton]
      omega)
    refine ⟨tx.tx :: txs, ?_, fun isUnwrapped => ⟨⟨tx, rfl, best isUnwrapped⟩, yields isUnwrapped⟩⟩
    rw [drain, next]
    simp only [drained]
    rfl

end

theorem Invariant.drain_getTransactions {fuel : ℕ}
    (invariant : ready.Invariant unwrapped fun _ => False)
    (enough : ready.readyTx.size < fuel) :
    ∃ txs, ready.getTransactions.drain fuel = .ok txs ∧ (unwrapped → ready.Yields [] txs) := by
  apply invariant.walks_getTransactions.drain invariant
  omega

section Yields

variable {txs : List PoolTransaction}

section

variable (yields : ready.Yields yielded txs) {tx : PoolTransaction}

include yields

theorem Yields.best {before after : List PoolTransaction} (split : txs = before ++ tx :: after) :
    ∃ readyTx, readyTx.tx = tx ∧ ready.Best (yielded ++ before.map (·.hash)) tx.hash readyTx := by
  induction before generalizing txs yielded with
  | nil =>
    subst split
    rw [map_nil, append_nil]
    exact yields.1
  | cons first before ih =>
    subst split
    rw [map_cons, append_cons]
    exact ih yields.2 rfl

theorem Yields.mem_of_stored (stored : hash ∈ ready.readyTx) :
    hash ∈ yielded ∨ hash ∈ txs.map (·.hash) := by
  induction txs generalizing yielded with
  | nil => exact .inl (yields hash stored)
  | cons tx txs ih =>
    rw [map_cons, mem_cons]
    rcases ih yields.2 with earlier | later
    · rcases mem_append.mp earlier with earlier | isFirst
      · exact .inl earlier
      · exact .inr (.inl (mem_singleton.mp isFirst))
    · exact .inr (.inr later)

theorem Yields.nodup : (txs.map (·.hash)).Nodup ∧ ∀ hash ∈ txs.map (·.hash), hash ∉ yielded := by
  induction txs generalizing yielded with
  | nil => simp
  | cons tx txs ih =>
    obtain ⟨nodup, unyielded⟩ := ih yields.2
    obtain ⟨⟨readyTx, _, best⟩, _⟩ := yields
    constructor
    · apply nodup_cons.mpr
      refine ⟨?_, nodup⟩
      intro later
      apply unyielded _ later
      exact mem_append_right _ (mem_singleton_self _)
    refine forall_mem_cons.mpr ⟨best.available.unyielded, ?_⟩
    intro hash later earlier
    exact unyielded hash later (mem_append_left _ earlier)

theorem Yields.found (member : tx ∈ txs) :
    ∃ readyTx, readyTx.tx = tx ∧ ready.readyTx.lookup tx.hash = some readyTx := by
  obtain ⟨before, after, split⟩ := append_of_mem member
  obtain ⟨readyTx, same, best⟩ := yields.best split
  exact ⟨readyTx, same, best.available.found⟩

end

variable (invariant : ready.Invariant unwrapped detached)

include invariant

theorem Invariant.nodup_values : (ready.readyTx.values.map (·.tx)).Nodup := by
  have keys : (ready.readyTx.values.map (·.tx)).map (·.hash) = ready.readyTx.keys := by
    rw [values, map_map, map_map]
    apply map_congr_left
    intro entry member
    exact (invariant.shaped (mem_lookup_iff.mpr member)).1
  apply Nodup.of_map (·.hash)
  rw [keys]
  exact ready.readyTx.keys_nodup

theorem Yields.perm (yields : ready.Yields [] txs) :
    txs.Perm (ready.readyTx.values.map (·.tx)) := by
  apply (perm_ext_iff_of_nodup (Nodup.of_map _ yields.nodup.1) invariant.nodup_values).mpr
  intro tx
  constructor
  · intro member
    obtain ⟨readyTx, rfl, found⟩ := yields.found member
    apply mem_map_of_mem
    exact mem_values_iff.mpr ⟨_, found⟩
  intro member
  obtain ⟨readyTx, stored, rfl⟩ := mem_map.mp member
  obtain ⟨hash, found⟩ := mem_values_iff.mp stored
  rcases yields.mem_of_stored (mem_of_lookup found) with none | member
  · cases none
  obtain ⟨tx, listed, rfl⟩ := mem_map.mp member
  obtain ⟨other, rfl, otherFound⟩ := yields.found listed
  rw [Option.some.inj (found.symm.trans otherFound)]
  exact listed

end Yields

end ReadyTransactions

end SwissledgerFoundry.Pool
