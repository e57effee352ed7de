import SwissledgerFoundry.Chain.Backend
import SwissledgerFoundry.Chain.Invariant

/-!
# The chain store over whole runs

Every operation keeps the invariant of the chain store as long as reverted
snapshots point to blocks of the current chain.  After a rollback they need not.
-/

namespace SwissledgerFoundry.Chain

open Transition

variable {genesis : ℕ}

section

variable {History Inner : Type} (components : Components History Inner)

/-- What an operation relies on: block numbers have not reached the largest
64-bit value, and a snapshot that is reverted was taken at a block that is
still on the chain. -/
def Operation.OnChain (backend : Backend History Inner) : Operation Inner → Prop
  | .doMineBlock _ => backend.storage.bestNumber < u64Max
  | .createStateSnapshot => True
  | .revertStateSnapshot id =>
    ∀ block ∈ backend.activeStateSnapshots.lookup id,
      block.1 < u64Max ∧ backend.storage.hashes.lookup block.1 = some block.2
  | .rollback commonBlock => commonBlock.header.number < u64Max

instance (backend : Backend History Inner) (operation : Operation Inner) :
    Decidable (operation.OnChain backend) := by
  unfold Operation.OnChain
  split <;> infer_instance

variable {components} {backend : Backend History Inner}

theorem revertStateSnapshot_storage (backend : Backend History Inner) (id : U256) :
    (backend.revertStateSnapshot id).1.storage =
      match backend.activeStateSnapshots.lookup id with
      | none => backend.storage
      | some (number, hash) => backend.storage.revertTo number hash := by
  unfold Backend.revertStateSnapshot
  cases backend.activeStateSnapshots.lookup id with
  | none => rfl
  | some recorded =>
    dsimp only
    split <;> rfl

variable (invariant : StoreInvariant components.hashSlow genesis
    backend.storage)

include invariant

theorem doMineBlock_invariant {executed : ExecutedBlock Inner}
    (admissible : (Operation.doMineBlock executed).Admissible components backend)
    (below : backend.storage.bestNumber < u64Max) :
    StoreInvariant components.hashSlow genesis
      (backend.doMineBlock components executed).storage := by
  obtain ⟨newHash, _, fresh⟩ := admissible
  exact insertBlock_invariant
    { header := backend.nextHeader executed, transactions := executed.transactions }
    invariant newHash (u64SaturatingSucc_of_lt below) rfl fresh _ _ _

theorem rollback_invariant {commonBlock : Block} (stored : backend.storage.blocks.lookup
      (components.hashSlow commonBlock.header) = some commonBlock)
    (below : commonBlock.header.number < u64Max) :
    StoreInvariant components.hashSlow genesis
      (backend.rollback components commonBlock).1.storage := by
  unfold Backend.rollback
  dsimp only
  split
  · exact invariant
  · exact unwindTo_invariant invariant (invariant.stored stored) below

theorem step_invariant {operation : Operation Inner}
    (admissible : operation.Admissible components backend)
    (onChain : operation.OnChain backend) :
    StoreInvariant components.hashSlow genesis (step components backend operation).storage := by
  cases operation with
  | doMineBlock executed => exact doMineBlock_invariant invariant admissible onChain
  | createStateSnapshot => exact invariant
  | revertStateSnapshot id =>
    change StoreInvariant components.hashSlow genesis (backend.revertStateSnapshot id).1.storage
    rw [revertStateSnapshot_storage]
    cases recorded : backend.activeStateSnapshots.lookup id with
    | none => exact invariant
    | some snapshot =>
      obtain ⟨below, found⟩ := onChain snapshot recorded
      exact revertTo_invariant invariant found below
  | rollback commonBlock => exact rollback_invariant invariant admissible onChain

end

/-- The chain store as its readers rely on it. -/
structure ChainInvariant (hashSlow : Header → B256) (genesis : ℕ)
    (storage : BlockchainStorage) : Prop where
  best : storage.hashes.lookup storage.bestNumber = some storage.bestHash
  bestStored : storage.bestHash ∈ storage.blocks
  numbers : ∀ number, number ∈ storage.hashes ↔ genesis ≤ number ∧ number ≤ storage.bestNumber
  indexed : ∀ number hash, storage.hashes.lookup number = some hash →
    ∃ block, storage.blocks.lookup hash = some block ∧
      block.header.number = number ∧ hashSlow block.header = hash
  parents : ∀ hash block, storage.blocks.lookup hash = some block → genesis < block.header.number →
    storage.hashes.lookup (block.header.number - 1) = some block.header.parentHash
  transactions : ∀ transaction, transaction ∈ storage.transactions ↔
    ∃ hash block, storage.blocks.lookup hash = some block ∧ transaction ∈ block.transactions

theorem StoreInvariant.chainInvariant {hashSlow : Header → B256} {storage : BlockchainStorage}
    (invariant : StoreInvariant hashSlow genesis storage) :
    ChainInvariant hashSlow genesis storage := by
  refine
    { best := invariant.best
      bestStored := ?_
      numbers := fun _ => invariant.numbers
      indexed := ?_
      parents := fun _ _ stored later => invariant.parents stored later
      transactions := fun _ => invariant.recorded }
  · obtain ⟨block, stored, _⟩ := invariant.indexed invariant.best
    exact AList.mem_of_lookup stored
  intro number hash found
  obtain ⟨block, stored, numbered⟩ := invariant.indexed found
  exact ⟨block, stored, numbered, invariant.hashed stored⟩

/-- In every run from a genesis block in which reverted snapshots were taken
at blocks that are still on the chain, the chain store is well formed after
every step. -/
theorem run_chainInvariant {History Inner : Type} (components : Components History Inner)
    (header : Header) (states : History) (inner : Inner)
    (operations : List (Operation Inner))
    (along : Transition.Along (step components) (fun backend operation =>
        operation.Admissible components backend ∧ operation.OnChain backend)
      (Backend.new components header states inner) operations) :
    ∀ reached, reached <+: operations → ChainInvariant components.hashSlow header.number
        (run (step components) (Backend.new components header states inner) reached).storage := by
  intro reached isPrefix
  refine (invariant_along (fun backend => StoreInvariant components.hashSlow header.number
      backend.storage) ?_ ?_ along reached isPrefix).chainInvariant
  · intro backend operation invariant allowed
    exact step_invariant invariant allowed.1 allowed.2
  · exact new_invariant

/-- A node that keeps no database contents and hashes headers by their
number. -/
def numberedComponents : Components Unit Unit where
  hashSlow header := BitVec.ofNat 256 (header.number + 1)
  insertState _ _ _ := ()
  fullState _ _ := (some (), ())
  removeBlockStates _ _ := ()
  restoreState _ _ _ := ()
  isStateHistorySupported := true
  transactionBlockKeeper := none
  isEip3675 := true

def genesisHeader : Header := { parentHash := 0, number := 0, difficulty := 0, rest := [] }

def genesisBlock : Block := { header := genesisHeader, transactions := [] }

def minedBlock (transactions : List B256) : ExecutedBlock Unit :=
  { difficulty := 0, rest := [], transactions := transactions, outcome := fun _ => ([], []),
    inner := () }

theorem run_chainInvariant_revert_then_rollback : ChainInvariant numberedComponents.hashSlow 0
      (run (step numberedComponents) (Backend.new numberedComponents genesisHeader () ())
        [.doMineBlock (minedBlock [7]), .createStateSnapshot,
          .doMineBlock (minedBlock [8, 9]), .revertStateSnapshot 0,
          .rollback genesisBlock]).storage := by
  exact run_chainInvariant numberedComponents genesisHeader () () _
    (by decide +kernel) _ List.prefix_rfl

/-- A block is mined, a snapshot is taken there, the block is rolled back, and
the snapshot is reverted.  The last call fails because the block of the
snapshot is not found, and leaves a best number without a hash. -/
theorem revertStateSnapshot_after_rollback : Transition.Along (step numberedComponents)
        (fun backend operation => operation.Admissible numberedComponents backend)
        (Backend.new numberedComponents genesisHeader () ())
        [.doMineBlock (minedBlock [7]), .createStateSnapshot,
          .rollback genesisBlock, .revertStateSnapshot 0] ∧
      ((run (step numberedComponents) (Backend.new numberedComponents genesisHeader () ())
        [.doMineBlock (minedBlock [7]), .createStateSnapshot,
          .rollback genesisBlock]).revertStateSnapshot 0).2 =
        .error .blockNotFound ∧
      ¬ ChainInvariant numberedComponents.hashSlow 0 (run (step numberedComponents)
          (Backend.new numberedComponents genesisHeader () ())
          [.doMineBlock (minedBlock [7]), .createStateSnapshot,
            .rollback genesisBlock, .revertStateSnapshot 0]).storage := by
  refine ⟨by decide +kernel, rfl, ?_⟩
  intro invariant
  have best := invariant.best
  revert best
  decide

end SwissledgerFoundry.Chain
