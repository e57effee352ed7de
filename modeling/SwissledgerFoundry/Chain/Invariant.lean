import SwissledgerFoundry.Chain.Storage

/-!
# The invariant of the chain store

`Consistent` collects what removing single blocks preserves; together with the
shape of the number index it makes up `StoreInvariant`.
-/

namespace SwissledgerFoundry.Chain

open List AList BlockchainStorage

/-- The index, the blocks and the transaction table describe the same set of
blocks, and no transaction is in two of them. -/
structure Consistent (hashSlow : Header → B256) (storage : BlockchainStorage) : Prop where
  indexed : ∀ {number hash}, storage.hashes.lookup number = some hash →
    ∃ block, storage.blocks.lookup hash = some block ∧ block.header.number = number
  stored : ∀ {hash block}, storage.blocks.lookup hash = some block →
    storage.hashes.lookup block.header.number = some hash
  hashed : ∀ {hash block}, storage.blocks.lookup hash = some block → hashSlow block.header = hash
  recorded : ∀ {transaction}, transaction ∈ storage.transactions ↔
    ∃ hash block, storage.blocks.lookup hash = some block ∧ transaction ∈ block.transactions
  disjoint : ∀ {left right leftBlock rightBlock transaction},
    storage.blocks.lookup left = some leftBlock →
    storage.blocks.lookup right = some rightBlock →
    transaction ∈ leftBlock.transactions →
    transaction ∈ rightBlock.transactions → left = right

/-- The invariant of the chain store: a consistent store whose index is the
contiguous range from the genesis block to the best block, linked by parent
hashes. -/
structure StoreInvariant (hashSlow : Header → B256) (genesis : ℕ)
    (storage : BlockchainStorage) : Prop
    extends Consistent hashSlow storage where
  best : storage.hashes.lookup storage.bestNumber = some storage.bestHash
  numbers : ∀ {number}, number ∈ storage.hashes ↔ genesis ≤ number ∧ number ≤ storage.bestNumber
  parents : ∀ {hash block}, storage.blocks.lookup hash = some block →
    genesis < block.header.number →
    storage.hashes.lookup (block.header.number - 1) = some block.header.parentHash

/-- Block `number` is gone from all three tables and nothing else is. -/
structure RemovedNumber (number : ℕ) (before after : BlockchainStorage) : Prop where
  hashes : ∀ probe, after.hashes.lookup probe =
    if probe = number then none else before.hashes.lookup probe
  blocks : ∀ probe, after.blocks.lookup probe =
    if before.hashes.lookup number = some probe then none
    else before.blocks.lookup probe
  transactions : ∀ transaction, transaction ∈ after.transactions ↔
    transaction ∈ before.transactions ∧ ∀ hash block, before.hashes.lookup number = some hash →
        before.blocks.lookup hash = some block →
        transaction ∉ block.transactions

variable {storage : BlockchainStorage} {number : ℕ}

theorem RemovedNumber.of_absent (absent : storage.hashes.lookup number = none) :
    RemovedNumber number storage storage := by
  constructor
  · intro probe
    by_cases same : probe = number
    · subst probe
      rw [if_pos rfl, absent]
    · rw [if_neg same]
  · simp [absent]
  · simp [absent]

variable {before after : BlockchainStorage} {hash : B256} {block : Block}

theorem RemovedNumber.of_erased (found : before.hashes.lookup number = some hash)
    (stored : before.blocks.lookup hash = some block)
    (hashes : after.hashes = before.hashes.erase number)
    (blocks : ∀ probe, after.blocks.lookup probe =
      if probe = hash then none else before.blocks.lookup probe)
    (transactions : after.transactions = before.transactions.eraseAll block.transactions) :
    RemovedNumber number before after := by
  constructor
  · intro probe
    rw [hashes]
    exact lookup_erase_eq _ _ _
  · intro probe
    rw [blocks, found]
    simp only [Option.some.injEq, eq_comm]
  intro transaction
  rw [transactions, mem_eraseAll, found]
  constructor
  · rintro ⟨absent, recorded⟩
    refine ⟨recorded, ?_⟩
    rintro _ otherBlock ⟨⟩ otherStored
    cases stored.symm.trans otherStored
    exact absent
  · rintro ⟨recorded, outside⟩
    exact ⟨outside hash block rfl stored, recorded⟩

variable {hashSlow : Header → B256}

theorem revertNumber_removes (consistent : Consistent hashSlow storage) :
    RemovedNumber number storage (storage.revertNumber number) := by
  cases found : storage.hashes.lookup number with
  | none =>
    have unchanged : storage.revertNumber number = storage := by simp [revertNumber, found]
    rw [unchanged]
    exact .of_absent found
  | some hash =>
    obtain ⟨block, stored, _⟩ := consistent.indexed found
    apply RemovedNumber.of_erased found stored
    · simp [revertNumber, found, stored]
    · intro probe
      simp [revertNumber, found, stored, lookup_erase_eq]
    · simp [revertNumber, found, stored]

/-- `unwind_to` empties the body of the block before it removes the block, to
the same effect. -/
theorem unwindNumber_removes {unwound : BlockchainStorage × List Block}
    (consistent : Consistent hashSlow unwound.1) :
    RemovedNumber number unwound.1 (unwindNumber unwound number).1 := by
  cases found : unwound.1.hashes.lookup number with
  | none =>
    have unchanged : unwindNumber unwound number = unwound := by simp [unwindNumber, found]
    rw [unchanged]
    exact .of_absent found
  | some hash =>
    obtain ⟨block, stored, _⟩ := consistent.indexed found
    apply RemovedNumber.of_erased found stored
    · simp [unwindNumber, removeBlockTransactionsByNumber, removeBlockTransactions, found, stored]
    · intro probe
      simp only [unwindNumber, removeBlockTransactionsByNumber,
        removeBlockTransactions, found, stored, lookup_erase_eq,
        lookup_insert_eq]
      split <;> rfl
    · simp [unwindNumber, removeBlockTransactionsByNumber, removeBlockTransactions, found, stored]

section

variable (removed : RemovedNumber number before after)

include removed

theorem RemovedNumber.blocks_subset (stored : after.blocks.lookup hash = some block) :
    before.hashes.lookup number ≠ some hash ∧ before.blocks.lookup hash = some block := by
  rw [removed.blocks] at stored
  split at stored
  · cases stored
  · exact ⟨‹_›, stored⟩

theorem RemovedNumber.consistent (consistent : Consistent hashSlow before) :
    Consistent hashSlow after := by
  constructor
  · intro probe hash found
    rw [removed.hashes] at found
    split at found
    · cases found
    rename_i different
    obtain ⟨block, stored, numbered⟩ := consistent.indexed found
    refine ⟨block, ?_, numbered⟩
    rw [removed.blocks, if_neg, stored]
    intro gone
    obtain ⟨other, otherStored, otherNumbered⟩ := consistent.indexed gone
    cases stored.symm.trans otherStored
    exact different (numbered.symm.trans otherNumbered)
  · intro hash block stored
    obtain ⟨kept, earlier⟩ := removed.blocks_subset stored
    have found := consistent.stored earlier
    rw [removed.hashes, if_neg, found]
    intro same
    rw [same] at found
    exact kept found
  · intro hash block stored
    exact consistent.hashed (removed.blocks_subset stored).2
  · intro transaction
    rw [removed.transactions, consistent.recorded]
    constructor
    · rintro ⟨⟨hash, block, stored, member⟩, outside⟩
      refine ⟨hash, block, ?_, member⟩
      rw [removed.blocks, if_neg, stored]
      intro gone
      exact outside hash block gone stored member
    rintro ⟨hash, block, stored, member⟩
    obtain ⟨kept, earlier⟩ := removed.blocks_subset stored
    refine ⟨⟨hash, block, earlier, member⟩, ?_⟩
    intro other otherBlock found otherStored otherMember
    have same := consistent.disjoint earlier otherStored member otherMember
    rw [same] at kept
    exact kept found
  intro left right leftBlock rightBlock transaction leftStored rightStored
  exact consistent.disjoint (removed.blocks_subset leftStored).2
    (removed.blocks_subset rightStored).2

end

/-- Removing a list of numbers, one after the other, with a loop body that may
carry more than the storage. -/
theorem foldl_removes {Loop : Type*} (hashSlow : Header → B256)
    (storage : Loop → BlockchainStorage) (body : Loop → ℕ → Loop)
    (removes : ∀ loop number, Consistent hashSlow (storage loop) →
      RemovedNumber number (storage loop) (storage (body loop number)))
    (numbers : List ℕ) (loop : Loop)
    (consistent : Consistent hashSlow (storage loop)) :
    Consistent hashSlow (storage (numbers.foldl body loop)) ∧
      (∀ probe, (storage (numbers.foldl body loop)).hashes.lookup probe =
        if probe ∈ numbers then none
        else (storage loop).hashes.lookup probe) ∧
      (∀ hash block, (storage (numbers.foldl body loop)).blocks.lookup hash = some block →
        (storage loop).blocks.lookup hash = some block) := by
  induction numbers generalizing loop with
  | nil => exact ⟨consistent, by simp, by simp⟩
  | cons number numbers ih =>
    have removed := removes loop number consistent
    obtain ⟨final, hashes, blocks⟩ := ih (body loop number) (removed.consistent consistent)
    refine ⟨final, ?_, ?_⟩
    · intro probe
      rw [foldl_cons, hashes, removed.hashes]
      by_cases later : probe ∈ numbers
      · simp [later]
      · simp [later]
    · intro hash block stored
      exact (removed.blocks_subset (blocks hash block stored)).2

variable {genesis : ℕ}

/-- Removing all blocks above one of the chain and making that block the best
one keeps the invariant. -/
theorem StoreInvariant.cut {Loop : Type*} {loop : Loop} (view : Loop → BlockchainStorage)
    (body : Loop → ℕ → Loop)
    (removes : ∀ loop number, Consistent hashSlow (view loop) →
      RemovedNumber number (view loop) (view (body loop number)))
    {numbers : List ℕ}
    (listed : ∀ {probe}, probe ∈ numbers ↔ number + 1 ≤ probe ∧ probe ≤ (view loop).bestNumber)
    (invariant : StoreInvariant hashSlow genesis (view loop))
    (onChain : (view loop).hashes.lookup number = some hash) :
    StoreInvariant hashSlow genesis
      { view (numbers.foldl body loop) with
        bestNumber := number
        bestHash := hash } := by
  obtain ⟨consistent, hashes, blocks⟩ := foldl_removes hashSlow view body
    removes numbers loop invariant.toConsistent
  have numberBounds := invariant.numbers.mp (mem_of_lookup onChain)
  refine
    { indexed := consistent.indexed, stored := consistent.stored,
      hashed := consistent.hashed, recorded := consistent.recorded,
      disjoint := consistent.disjoint, best := ?_, numbers := ?_,
      parents := ?_ }
  · dsimp only
    rw [hashes, if_neg, onChain]
    rw [listed]
    omega
  · intro probe
    dsimp only
    rw [mem_iff_exists_lookup, hashes]
    have numbered : probe ∈ (view loop).hashes ↔
        genesis ≤ probe ∧ probe ≤ (view loop).bestNumber := invariant.numbers
    rw [mem_iff_exists_lookup] at numbered
    split
    next above =>
      rw [listed] at above
      simp only [reduceCtorEq, exists_false, false_iff]
      omega
    rename_i above
    rw [listed] at above
    rw [numbered]
    omega
  intro blockHash block stored later
  have found := consistent.stored stored
  rw [hashes] at found ⊢
  have parent := invariant.parents (blocks blockHash block stored) later
  split at found
  · cases found
  rename_i below
  rw [if_neg, parent]
  rw [listed] at below ⊢
  have bounds := invariant.numbers.mp (mem_of_lookup found)
  omega

section

variable (invariant : StoreInvariant hashSlow genesis storage)

include invariant

section

variable (onChain : storage.hashes.lookup number = some hash) (below : number < u64Max)

include onChain below

theorem revertTo_invariant : StoreInvariant hashSlow genesis (storage.revertTo number hash) := by
  rw [revertTo, u64Succ_of_lt below]
  apply StoreInvariant.cut id revertNumber _ _ invariant onChain
  · exact fun _ number consistent => revertNumber_removes consistent
  · intro probe
    simp [mem_reverse, mem_rangeInclusive]

theorem unwindTo_invariant : StoreInvariant hashSlow genesis (storage.unwindTo number hash).1 := by
  rw [unwindTo, u64Succ_of_lt below]
  apply StoreInvariant.cut Prod.fst unwindNumber _ _ invariant onChain
  · exact fun _ number consistent => unwindNumber_removes consistent
  · exact mem_rangeInclusive

end

theorem removeBlockTransactions_invariant (hash : B256) :
    StoreInvariant hashSlow genesis (storage.removeBlockTransactions hash) := by
  cases stored : storage.blocks.lookup hash with
  | none => simpa [removeBlockTransactions, stored] using invariant
  | some block =>
    have emptied : storage.removeBlockTransactions hash =
        { storage with
          transactions := storage.transactions.eraseAll block.transactions
          blocks := storage.blocks.insert hash
            { block with transactions := [] } } := by
      simp [removeBlockTransactions, stored]
    rw [emptied]
    have sameHeader : ∀ {probe found}, (storage.blocks.insert hash
          { block with transactions := [] }).lookup probe = some found →
        ∃ original, storage.blocks.lookup probe = some original ∧
          original.header = found.header := by
      intro probe found inserted
      rcases lookup_of_insert inserted with ⟨rfl, rfl⟩ | ⟨_, earlier⟩
      · exact ⟨block, stored, rfl⟩
      · exact ⟨found, earlier, rfl⟩
    refine
      { indexed := ?_, stored := ?_, hashed := ?_, recorded := ?_,
        disjoint := ?_, best := invariant.best,
        numbers := invariant.numbers, parents := ?_ }
    · intro number probe found
      obtain ⟨original, earlier, numbered⟩ := invariant.indexed found
      by_cases same : probe = hash
      · subst probe
        cases stored.symm.trans earlier
        exact ⟨_, lookup_insert _, numbered⟩
      · exact ⟨original, by rw [lookup_insert_ne same, earlier], numbered⟩
    · intro probe found inserted
      obtain ⟨original, earlier, header⟩ := sameHeader inserted
      rw [← header]
      exact invariant.stored earlier
    · intro probe found inserted
      obtain ⟨original, earlier, header⟩ := sameHeader inserted
      rw [← header]
      exact invariant.hashed earlier
    · intro transaction
      rw [mem_eraseAll, invariant.recorded]
      constructor
      · rintro ⟨outside, probe, original, earlier, member⟩
        have different : probe ≠ hash := by
          rintro rfl
          cases stored.symm.trans earlier
          exact outside member
        exact ⟨probe, original, by rw [lookup_insert_ne different, earlier], member⟩
      rintro ⟨probe, found, inserted, member⟩
      rcases lookup_of_insert inserted with ⟨_, rfl⟩ | ⟨different, earlier⟩
      · cases member
      refine ⟨?_, probe, found, earlier, member⟩
      intro own
      exact different (invariant.disjoint earlier stored member own)
    · intro left right leftBlock rightBlock transaction leftFound rightFound leftMember rightMember
      rcases lookup_of_insert leftFound with ⟨_, rfl⟩ | ⟨_, leftStored⟩
      · cases leftMember
      rcases lookup_of_insert rightFound with ⟨_, rfl⟩ | ⟨_, rightStored⟩
      · cases rightMember
      · exact invariant.disjoint leftStored rightStored leftMember rightMember
    intro probe found inserted later
    obtain ⟨original, earlier, header⟩ := sameHeader inserted
    rw [← header] at later ⊢
    exact invariant.parents earlier later

theorem removeBlockTransactionsByNumber_invariant (number : ℕ) :
    StoreInvariant hashSlow genesis (storage.removeBlockTransactionsByNumber number) := by
  unfold removeBlockTransactionsByNumber
  split
  · exact invariant
  · exact removeBlockTransactions_invariant invariant _

theorem dropOldTransactions_invariant (transactionBlockKeeper : Option ℕ) (blockNumber : ℕ) :
    StoreInvariant hashSlow genesis
      (storage.dropOldTransactions transactionBlockKeeper blockNumber) := by
  unfold dropOldTransactions
  split
  · exact invariant
  split
  · exact removeBlockTransactionsByNumber_invariant invariant _
  · exact invariant

end

/-- A block put on top of the best block, with the next number, a hash of its
own and new transactions, keeps the invariant. -/
theorem StoreInvariant.extend (after : BlockchainStorage)
    (invariant : StoreInvariant hashSlow genesis before)
    (newHash : hashSlow block.header ∉ before.blocks)
    (number : block.header.number = before.bestNumber + 1)
    (parent : block.header.parentHash = before.bestHash)
    (fresh : ∀ transaction ∈ block.transactions, transaction ∉ before.transactions)
    (blocks : after.blocks = before.blocks.insert (hashSlow block.header) block)
    (hashes : after.hashes = before.hashes.insert block.header.number (hashSlow block.header))
    (transactions : ∀ transaction, transaction ∈ after.transactions ↔
      transaction ∈ block.transactions ∨ transaction ∈ before.transactions)
    (bestNumber : after.bestNumber = block.header.number)
    (bestHash : after.bestHash = hashSlow block.header) :
    StoreInvariant hashSlow genesis after := by
  have storedBelow : ∀ {hash stored}, before.blocks.lookup hash =
      some stored → stored.header.number ≤ before.bestNumber := by
    intro hash stored found
    exact (invariant.numbers.mp (mem_of_lookup (invariant.stored found))).2
  have lookup : ∀ {probe found}, after.blocks.lookup probe = some found →
      (probe = hashSlow block.header ∧ block = found) ∨
        before.blocks.lookup probe = some found := by
    intro probe found inserted
    rw [blocks] at inserted
    exact (lookup_of_insert inserted).imp_right And.right
  have keepsBlocks : ∀ {hash stored}, before.blocks.lookup hash =
      some stored → after.blocks.lookup hash = some stored := by
    intro hash stored found
    rw [blocks, lookup_insert_ne, found]
    rintro rfl
    exact newHash (mem_of_lookup found)
  have keepsHashes : ∀ {probe}, probe ≤ before.bestNumber →
      after.hashes.lookup probe = before.hashes.lookup probe := by
    intro probe below
    rw [hashes, lookup_insert_ne (by omega)]
  have newBlock : after.blocks.lookup (hashSlow block.header) = some block := by
    rw [blocks, lookup_insert]
  refine
    { indexed := ?_, stored := ?_, hashed := ?_, recorded := ?_,
      disjoint := ?_, best := ?_, numbers := ?_, parents := ?_ }
  · intro probe hash found
    rw [hashes] at found
    rcases lookup_of_insert found with ⟨rfl, rfl⟩ | ⟨_, found⟩
    · exact ⟨block, newBlock, rfl⟩
    · obtain ⟨stored, earlier, numbered⟩ := invariant.indexed found
      exact ⟨stored, keepsBlocks earlier, numbered⟩
  · intro hash stored found
    rcases lookup found with ⟨rfl, rfl⟩ | earlier
    · rw [hashes, lookup_insert]
    · rw [keepsHashes (storedBelow earlier)]
      exact invariant.stored earlier
  · intro hash stored found
    rcases lookup found with ⟨rfl, rfl⟩ | earlier
    · rfl
    · exact invariant.hashed earlier
  · intro transaction
    rw [transactions, invariant.recorded]
    constructor
    · rintro (member | ⟨hash, stored, earlier, member⟩)
      · exact ⟨_, block, newBlock, member⟩
      · exact ⟨hash, stored, keepsBlocks earlier, member⟩
    rintro ⟨hash, stored, found, member⟩
    rcases lookup found with ⟨rfl, rfl⟩ | earlier
    · exact .inl member
    · exact .inr ⟨hash, stored, earlier, member⟩
  · intro left right leftBlock rightBlock transaction leftFound rightFound leftMember rightMember
    rcases lookup leftFound with ⟨rfl, rfl⟩ | leftStored
    · rcases lookup rightFound with ⟨rfl, rfl⟩ | rightStored
      · rfl
      · exact absurd (invariant.recorded.mpr ⟨right, rightBlock, rightStored, rightMember⟩)
          (fresh transaction leftMember)
    rcases lookup rightFound with ⟨rfl, rfl⟩ | rightStored
    · exact absurd (invariant.recorded.mpr ⟨left, leftBlock, leftStored, leftMember⟩)
        (fresh transaction rightMember)
    · exact invariant.disjoint leftStored rightStored leftMember rightMember
  · rw [bestNumber, bestHash, hashes, lookup_insert]
  · intro probe
    rw [hashes, mem_insert, invariant.numbers]
    have bestBounds := invariant.numbers.mp (mem_of_lookup invariant.best)
    omega
  intro hash stored found later
  rcases lookup found with ⟨rfl, rfl⟩ | earlier
  · rw [keepsHashes (by omega), parent, number]
    exact invariant.best
  have below := storedBelow earlier
  rw [keepsHashes (by omega)]
  exact invariant.parents earlier later

theorem insertBlock_invariant (block : Block) (invariant : StoreInvariant hashSlow genesis storage)
    (newHash : hashSlow block.header ∉ storage.blocks)
    (number : block.header.number = storage.bestNumber + 1)
    (parent : block.header.parentHash = storage.bestHash)
    (fresh : ∀ transaction ∈ block.transactions, transaction ∉ storage.transactions)
    (outcome : B256 → Bytes × Bytes) (transactionBlockKeeper : Option ℕ) (isEip3675 : Bool) :
    StoreInvariant hashSlow genesis (storage.insertBlock transactionBlockKeeper isEip3675
        (hashSlow block.header) block.header.number block outcome) := by
  have inserted := fun totalDifficulty => StoreInvariant.extend (insertTransactions
      { storage with
        bestNumber := block.header.number
        bestHash := hashSlow block.header
        totalDifficulty := totalDifficulty
        blocks := storage.blocks.insert (hashSlow block.header) block
        hashes := storage.hashes.insert block.header.number (hashSlow block.header) }
      outcome (hashSlow block.header) block.header.number block.transactions)
    invariant newHash number parent fresh rfl rfl
    (fun _ => mem_foldl_insert) rfl rfl
  exact dropOldTransactions_invariant (inserted _) transactionBlockKeeper _

theorem new_invariant {header : Header} :
    StoreInvariant hashSlow header.number (new hashSlow header) := by
  have lookupBlock : ∀ {hash block}, (new hashSlow header).blocks.lookup hash = some block →
      hash = hashSlow header ∧ { header := header, transactions := [] } = block := by
    intro hash block found
    rcases lookup_of_insert found with same | ⟨_, none⟩
    · exact same
    · cases none
  have lookupHash : ∀ {number hash}, (new hashSlow header).hashes.lookup number =
        some hash ↔ number = header.number ∧ hash = hashSlow header := by
    intro number hash
    simp only [new, lookup_insert_eq]
    split
    · simp [*, eq_comm]
    · simp [*]
  refine
    { indexed := ?_, stored := ?_, hashed := ?_, recorded := ?_,
      disjoint := ?_, best := ?_, numbers := ?_, parents := ?_ }
  · intro number hash found
    obtain ⟨rfl, rfl⟩ := lookupHash.mp found
    exact ⟨_, lookup_insert _, rfl⟩
  · intro hash block found
    obtain ⟨rfl, rfl⟩ := lookupBlock found
    exact lookupHash.mpr ⟨rfl, rfl⟩
  · intro hash block found
    obtain ⟨rfl, rfl⟩ := lookupBlock found
    rfl
  · intro transaction
    constructor
    · intro member
      exact absurd member (notMem_empty transaction)
    rintro ⟨hash, block, found, member⟩
    obtain ⟨rfl, rfl⟩ := lookupBlock found
    cases member
  · intro left right leftBlock rightBlock transaction leftFound rightFound leftMember
    obtain ⟨rfl, rfl⟩ := lookupBlock leftFound
    cases leftMember
  · exact lookupHash.mpr ⟨rfl, rfl⟩
  · intro number
    rw [mem_iff_exists_lookup]
    simp only [lookupHash]
    simp only [new]
    constructor
    · rintro ⟨hash, rfl, _⟩
      omega
    · intro bounds
      exact ⟨hashSlow header, by omega, rfl⟩
  intro hash block found later
  obtain ⟨rfl, rfl⟩ := lookupBlock found
  exact absurd later (lt_irrefl _)

end SwissledgerFoundry.Chain
