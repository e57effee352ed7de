import SwissledgerFoundry.History.BlockStates

/-!
# What the states of the store stand for

Properties of the states in memory and on disk that agree with moving a state to
disk and reading it back are kept by every operation of the store.
-/

namespace SwissledgerFoundry.History

open AList InMemoryBlockStates

variable {State Snapshot : Type}

/-- How a property of states in memory and on disk is carried along. -/
structure Carried (db : FullDatabase State Snapshot) (held : State → Prop)
    (onDisk : State → Snapshot → Prop) : Prop where
  clear : ∀ {state}, held state →
    onDisk (db.clearIntoStateSnapshot state).2 (db.clearIntoStateSnapshot state).1
  read : ∀ {state snapshot}, onDisk state snapshot → held (db.initFromStateSnapshot state snapshot)
  again : ∀ {state snapshot}, onDisk state snapshot →
    onDisk (db.initFromStateSnapshot state snapshot) snapshot

namespace InMemoryBlockStates

/-- Each state of the store has the property of its hash.  A state on disk
counts only if no newer one is in memory. -/
structure Holds (held : B256 → State → Prop) (onDisk : B256 → State → Snapshot → Prop)
    (blocks : InMemoryBlockStates State Snapshot) : Prop where
  memory : ∀ {hash state}, blocks.states.lookup hash = some state → held hash state
  disk : ∀ {hash state snapshot}, hash ∉ blocks.states →
    blocks.onDiskStates.lookup hash = some state →
      blocks.diskCache.lookup hash = some snapshot → onDisk hash state snapshot
  memoryOnly : blocks.isMemoryOnly → ∀ hash, hash ∉ blocks.onDiskStates

variable {held : B256 → State → Prop} {onDisk : B256 → State → Snapshot → Prop}
  {db : FullDatabase State Snapshot} {blocks after : InMemoryBlockStates State Snapshot}
  {hash : B256} {state : State}

section

variable (holds : blocks.Holds held onDisk)

include holds

theorem Holds.mono (states : ∀ {hash state}, after.states.lookup hash = some state →
      blocks.states.lookup hash = some state)
    (onDiskStates : ∀ {hash state},
      after.onDiskStates.lookup hash = some state → blocks.onDiskStates.lookup hash = some state)
    (diskCache : ∀ {hash snapshot},
      after.diskCache.lookup hash = some snapshot → blocks.diskCache.lookup hash = some snapshot)
    (newest : ∀ {hash}, hash ∈ blocks.states → hash ∉ after.states → hash ∉ after.onDiskStates)
    (memoryOnly : after.maxOnDiskLimit = blocks.maxOnDiskLimit) :
    after.Holds held onDisk where
  memory found := holds.memory (states found)
  disk := by
    intro hash state snapshot absent found cached
    refine holds.disk ?_ (onDiskStates found) (diskCache cached)
    intro older
    exact newest older absent (mem_of_lookup found)
  memoryOnly := by
    intro only hash member
    obtain ⟨state, found⟩ := mem_iff_exists_lookup.mp member
    rw [isMemoryOnly, memoryOnly] at only
    exact holds.memoryOnly only hash (mem_of_lookup (onDiskStates found))

theorem Holds.moveToDisk {snapshot : Snapshot} (own : onDisk hash state snapshot)
    (mayWrite : ¬ blocks.isMemoryOnly)
    (oldestOnDisk : List B256) :
    { blocks with
      states := blocks.states.erase hash
      onDiskStates := blocks.onDiskStates.insert hash state
      oldestOnDisk := oldestOnDisk
      diskCache := blocks.diskCache.insert hash snapshot }.Holds held
        onDisk where
  memory := by
    intro other otherState found
    exact holds.memory (lookup_of_erase found)
  disk := by
    intro other otherState otherSnapshot absent found cached
    rcases lookup_of_insert found with ⟨rfl, rfl⟩ | ⟨different, found⟩
    · cases (lookup_insert _).symm.trans cached
      exact own
    rw [lookup_insert_ne different] at cached
    refine holds.disk ?_ found cached
    intro older
    exact absent (mem_erase.mpr ⟨different, older⟩)
  memoryOnly only := absurd only mayWrite

theorem Holds.putBack (own : held hash state) (inMemoryLimit : ℕ) (present : List B256) :
    { blocks with
      states := (blocks.states.erase hash).insert hash state
      present := present
      inMemoryLimit := inMemoryLimit }.Holds held onDisk where
  memory := by
    intro other otherState found
    rcases lookup_of_insert found with ⟨rfl, rfl⟩ | ⟨_, found⟩
    · exact own
    · exact holds.memory (lookup_of_erase found)
  disk := by
    intro other otherState otherSnapshot absent
    apply holds.disk
    intro older
    rw [mem_insert, mem_erase] at absent
    tauto
  memoryOnly := holds.memoryOnly

theorem Holds.purge {oldestOnDisk : List B256} : (purge oldestOnDisk blocks).Holds held onDisk := by
  induction oldestOnDisk generalizing blocks with
  | nil => exact { holds with }
  | cons hash oldestOnDisk ih =>
    rw [purge]
    split
    · apply ih
      refine holds.mono id ?_ ?_ (fun older absent => absurd older absent) rfl
      · intro other state found
        exact lookup_of_erase found
      · intro other snapshot found
        exact lookup_of_erase found
    · exact { holds with }

theorem Holds.decreaseLimit : blocks.decreaseLimit.Holds held onDisk := by
  unfold InMemoryBlockStates.decreaseLimit
  split
  · exact { holds with }
  · exact holds

theorem Holds.removeBlockStates (hashes : List B256) :
    (blocks.removeBlockStates hashes).Holds held onDisk := by
  refine holds.mono lookup_of_eraseAll lookup_of_eraseAll lookup_of_eraseAll ?_ rfl
  intro hash older absent
  have removed : hash ∈ hashes := by
    by_contra kept
    exact absent (mem_eraseAll.mpr ⟨kept, older⟩)
  exact fun onDisk => (mem_eraseAll.mp onDisk).1 removed

end

section

variable (carried : ∀ hash, Carried db (held hash) (onDisk hash))
  (holds : blocks.Holds held onDisk)

include carried holds

variable {writes : Writes}

theorem Holds.evict {present : List B256} (evicts : evict db writes present blocks = some after) :
    after.Holds held onDisk := by
  induction present generalizing blocks with
  | nil =>
    rw [evict] at evicts
    split at evicts
    · cases evicts
    · cases evicts
      exact { holds with }
  | cons hash present ih =>
    rw [evict] at evicts
    split at evicts
    · cases evicts
      exact { holds with }
    split at evicts
    · exact ih holds evicts
    rename_i state stored
    have moved := (carried hash).clear (holds.memory stored)
    dsimp only at evicts
    split at evicts
    · -- in memory only, there is no older state on disk
      rename_i only
      refine ih ?_ evicts
      refine holds.mono ?_ id id ?_ rfl
      · intro other otherState found
        exact lookup_of_erase found
      · intro other _ _
        exact holds.memoryOnly only other
    rename_i mayWrite
    split at evicts
    · exact ih (holds.moveToDisk moved mayWrite _) evicts
    · cases evicts
      exact holds.putBack ((carried hash).read moved) _ _

theorem Holds.enforceLimits (enforces : blocks.enforceLimits db writes = some after) :
    after.Holds held onDisk := by
  rw [InMemoryBlockStates.enforceLimits, Option.map_eq_some_iff] at enforces
  obtain ⟨evicted, evicts, rfl⟩ := enforces
  have kept := holds.evict carried evicts
  split
  · exact kept
  · exact kept.purge

/-- A state is recorded under a hash; what the other hashes stand for does not
change. -/
theorem Holds.insert {onDisk' : B256 → State → Snapshot → Prop} {held' : B256 → State → Prop}
    (others : ∀ {other}, other ≠ hash → held' other = held other ∧ onDisk' other = onDisk other)
    (own : held' hash state)
    (inserts : blocks.insert db writes hash state = some after) :
    after.Holds held' onDisk' := by
  rw [InMemoryBlockStates.insert, Option.map_eq_some_iff] at inserts
  obtain ⟨limited, enforces, rfl⟩ := inserts
  have kept := holds.decreaseLimit.enforceLimits carried enforces
  refine { memory := ?_, disk := ?_, memoryOnly := kept.memoryOnly }
  · intro other otherState found
    rcases lookup_of_insert found with ⟨rfl, rfl⟩ | ⟨different, found⟩
    · exact own
    · rw [(others different).1]
      exact kept.memory found
  intro other otherState snapshot absent found cached
  rw [mem_insert, not_or] at absent
  rw [(others absent.1).2]
  exact kept.disk absent.2 found cached

theorem Holds.getOnDiskState (missing : blocks.getState hash = none) :
    (blocks.getOnDiskState db hash).2.Holds held onDisk ∧
      ∀ state ∈ (blocks.getOnDiskState db hash).1, held hash state := by
  unfold InMemoryBlockStates.getOnDiskState
  split
  · rename_i state cached stored file
    have absent : hash ∉ blocks.states := lookup_eq_none.mp missing
    have own := holds.disk absent stored file
    constructor
    · refine { memory := holds.memory, disk := ?_, memoryOnly := ?_ }
      · intro other otherState snapshot otherAbsent found otherFile
        rcases lookup_of_insert found with ⟨rfl, rfl⟩ | ⟨_, found⟩
        · cases file.symm.trans otherFile
          exact (carried other).again own
        · exact holds.disk otherAbsent found otherFile
      · intro only
        have stays : hash ∈ blocks.onDiskStates := mem_of_lookup stored
        exact absurd stays (holds.memoryOnly only hash)
    intro read same
    cases same
    exact (carried hash).read own
  · exact ⟨holds, fun state found => by cases found⟩

end

theorem holds_clear (blocks : InMemoryBlockStates State Snapshot) :
    blocks.clear.Holds held onDisk where
  memory found := by cases (lookup_empty _).symm.trans found
  disk _ found := by cases (lookup_empty _).symm.trans found
  memoryOnly _ hash := notMem_empty hash

end InMemoryBlockStates

end SwissledgerFoundry.History
