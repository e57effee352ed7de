import SwissledgerFoundry.History.BlockStates

/-!
# Configured limits

The store of block states as it is configured on the command line.  Recording
a state ends unless the limit for states in memory is zero.
-/

namespace SwissledgerFoundry.History

open InMemoryBlockStates

def maxOnDiskHistoryLimit : ℕ := 3600

structure PruneStateHistoryConfig where
  enabled : Bool
  maxMemoryHistory : Option ℕ

def PruneStateHistoryConfig.fromArgs : Option (Option ℕ) → PruneStateHistoryConfig
  | none => ⟨false, none⟩
  | some maxMemoryHistory => ⟨true, maxMemoryHistory⟩

namespace InMemoryBlockStates

variable {State Snapshot : Type}

def default : InMemoryBlockStates State Snapshot := .new defaultHistoryLimit maxOnDiskHistoryLimit

/-- The store that `with_genesis` starts with. -/
def configured (config : PruneStateHistoryConfig)
    (maxPersistedStates : Option ℕ) : InMemoryBlockStates State Snapshot :=
  if config.enabled then
    { (config.maxMemoryHistory.map (new · 0)).getD default with maxOnDiskLimit := 0 }
  else (maxPersistedStates.map (new defaultHistoryLimit)).getD default

/-- What changes the store, with the results of the disk writes. -/
inductive Record (State : Type) where
  | insert (writes : Writes) (hash : B256) (state : State)
  | interval (writes : Writes) (blockTime : ℕ)

def record (db : FullDatabase State Snapshot) (blocks : InMemoryBlockStates State Snapshot) :
    Record State → Option (InMemoryBlockStates State Snapshot)
  | .insert writes hash state => blocks.insert db writes hash state
  | .interval writes blockTime => blocks.updateIntervalMineBlockTime db writes blockTime

structure Positive (blocks : InMemoryBlockStates State Snapshot) : Prop where
  limit : 1 ≤ blocks.inMemoryLimit
  minLimit : 1 ≤ blocks.minInMemoryLimit

variable {blocks : InMemoryBlockStates State Snapshot}

theorem positive_new {onDiskLimit : ℕ} {inMemoryLimit : ℕ} (positive : 1 ≤ inMemoryLimit) :
    (new inMemoryLimit onDiskLimit : InMemoryBlockStates State Snapshot).Positive :=
  ⟨positive, le_min positive (by decide)⟩

section

variable (db : FullDatabase State Snapshot) (positive : blocks.Positive)

include positive

theorem Positive.evict (writes : Writes) (present : List B256) :
    ∃ after, evict db writes present blocks = some after ∧ after.Positive := by
  induction present generalizing blocks with
  | nil =>
    rw [evict, if_neg (Nat.ne_of_gt positive.limit)]
    exact ⟨_, rfl, positive.limit, positive.minLimit⟩
  | cons hash present ih =>
    rw [evict]
    split
    · exact ⟨_, rfl, positive.limit, positive.minLimit⟩
    split
    · exact ih positive
    dsimp only
    split
    · exact ih ⟨positive.limit, positive.minLimit⟩
    split
    · exact ih ⟨positive.limit, positive.minLimit⟩
    · refine ⟨_, rfl, ?_, positive.minLimit⟩
      exact le_min (Nat.le_add_left 1 _) (by decide)

theorem Positive.enforceLimits (writes : Writes) :
    ∃ after, enforceLimits db writes blocks = some after ∧ after.Positive := by
  obtain ⟨middle, evicts, left⟩ := positive.evict db writes blocks.present
  rw [InMemoryBlockStates.enforceLimits, evicts]
  refine ⟨_, rfl, ?_⟩
  dsimp only
  split
  · exact left
  · obtain ⟨_, limit, minLimit, _⟩ := purge_frame middle.oldestOnDisk middle
    exact ⟨limit ▸ left.limit, minLimit ▸ left.minLimit⟩

theorem Positive.record (entry : Record State) :
    ∃ after, blocks.record db entry = some after ∧ after.Positive := by
  cases entry with
  | insert writes hash state =>
    have decreased : blocks.decreaseLimit.Positive := by
      unfold decreaseLimit
      split
      · exact ⟨positive.minLimit.trans (le_max_right _ _), positive.minLimit⟩
      · exact positive
    obtain ⟨middle, enforced, left⟩ := decreased.enforceLimits db writes
    rw [InMemoryBlockStates.record, InMemoryBlockStates.insert, enforced]
    exact ⟨_, rfl, left.limit, left.minLimit⟩
  | interval writes blockTime =>
    rw [InMemoryBlockStates.record, updateIntervalMineBlockTime]
    split
    · apply Positive.enforceLimits
      exact ⟨(by decide : 1 ≤ defaultHistoryLimit * 3), positive.minLimit⟩
    · exact ⟨blocks, rfl, positive⟩

end

/-- Recording any number of states ends, whatever disk writes fail and however
the mining interval changes, unless the history is pruned to zero states. -/
theorem record_ends (db : FullDatabase State Snapshot)
    (pruneHistory : Option (Option ℕ)) (maxPersistedStates : Option ℕ)
    (kept : pruneHistory ≠ some (some 0)) (records : List (Record State)) :
    ∃ after, records.foldlM (record db) (configured (.fromArgs pruneHistory)
      maxPersistedStates) = some after := by
  have start : (configured (.fromArgs pruneHistory) maxPersistedStates :
      InMemoryBlockStates State Snapshot).Positive := by
    rcases pruneHistory with _ | _ | limit
    · cases maxPersistedStates <;> exact positive_new (by decide)
    · exact { positive_new (by decide : 1 ≤ defaultHistoryLimit) with }
    · have nonzero : limit ≠ 0 := fun zero => kept (by rw [zero])
      exact { positive_new (Nat.one_le_iff_ne_zero.mpr nonzero) with }
  generalize configured _ _ = blocks at start
  induction records generalizing blocks with
  | nil => exact ⟨blocks, rfl⟩
  | cons entry records ih =>
    obtain ⟨after, recorded, positive⟩ := start.record db entry
    obtain ⟨last, rest⟩ := ih after positive
    refine ⟨last, ?_⟩
    rw [List.foldlM_cons, recorded]
    exact rest

def echoDatabase : FullDatabase ℕ ℕ := ⟨fun state => (state, state), fun _ snapshot => snapshot⟩

theorem record_ends_one_state : ∃ after, [Record.insert (fun _ => false) 1 10,
        .insert (fun _ => false) 2 20].foldlM (record echoDatabase)
      (configured (.fromArgs (some (some 1))) none) = some after :=
  record_ends echoDatabase (some (some 1)) none (by decide) _

/-- Pruned to zero states, the first record has nothing to evict and the loop
goes on. -/
theorem record_hangs : [Record.insert (fun _ => true) 1 10].foldlM (record echoDatabase)
      (configured (.fromArgs (some (some 0))) none) = none := by
  rfl

end InMemoryBlockStates

end SwissledgerFoundry.History
