import SwissledgerFoundry.Collections.HashMap
import SwissledgerFoundry.Collections.Transition
import SwissledgerFoundry.Primitives

/-!
# Historical block states

The states of the blocks.  The oldest ones are evicted from memory, to disk if
the disk may be used, and the oldest ones on disk are purged.
-/

namespace SwissledgerFoundry.History

open List AList

/-- How a database moves its contents into a snapshot and back. -/
structure FullDatabase (State Snapshot : Type) where
  clearIntoStateSnapshot : State → Snapshot × State
  initFromStateSnapshot : State → Snapshot → State

/-- `InMemoryBlockStates`.  The disk cache is the map of the written files. -/
structure InMemoryBlockStates (State Snapshot : Type) where
  states : HashMap B256 State
  onDiskStates : HashMap B256 State
  inMemoryLimit : ℕ
  minInMemoryLimit : ℕ
  maxOnDiskLimit : ℕ
  oldestOnDisk : List B256
  present : List B256
  diskCache : HashMap B256 Snapshot

def defaultHistoryLimit : ℕ := 500

def minHistoryLimit : ℕ := 10

/-- For each file that a call writes, whether the write succeeds. -/
abbrev Writes := B256 → Bool

namespace InMemoryBlockStates

variable {State Snapshot : Type}

def new (inMemoryLimit onDiskLimit : ℕ) : InMemoryBlockStates State Snapshot where
  states := ∅
  onDiskStates := ∅
  inMemoryLimit := inMemoryLimit
  minInMemoryLimit := min inMemoryLimit minHistoryLimit
  maxOnDiskLimit := onDiskLimit
  oldestOnDisk := []
  present := []
  diskCache := ∅

def isMemoryOnly (blocks : InMemoryBlockStates State Snapshot) : Bool := blocks.maxOnDiskLimit = 0

/-- The first loop of `enforce_limits`.  With a limit of zero it does not end,
since nothing is left to evict. -/
def evict (db : FullDatabase State Snapshot) (writes : Writes) :
    List B256 → InMemoryBlockStates State Snapshot → Option (InMemoryBlockStates State Snapshot)
  | [], blocks =>
    if blocks.inMemoryLimit = 0 then none
    else some { blocks with present := [] }
  | hash :: present, blocks =>
    if present.length + 1 < blocks.inMemoryLimit then
      some { blocks with present := hash :: present }
    else
      match blocks.states.lookup hash with
      | none => evict db writes present blocks
      | some state =>
        let blocks := { blocks with states := blocks.states.erase hash }
        if blocks.isMemoryOnly then evict db writes present blocks
        else
          let (stateSnapshot, state) := db.clearIntoStateSnapshot state
          if writes hash then
            evict db writes present
              { blocks with
                onDiskStates := blocks.onDiskStates.insert hash state
                oldestOnDisk := blocks.oldestOnDisk ++ [hash]
                diskCache := blocks.diskCache.insert hash stateSnapshot }
          else
            some
              { blocks with
                states := blocks.states.insert hash (db.initFromStateSnapshot state stateSnapshot)
                present := hash :: present
                inMemoryLimit := min (blocks.inMemoryLimit + 1) u64Max }

/-- The second loop of `enforce_limits`. -/
def purge : List B256 → InMemoryBlockStates State Snapshot → InMemoryBlockStates State Snapshot
  | [], blocks => { blocks with oldestOnDisk := [] }
  | hash :: oldestOnDisk, blocks =>
    if blocks.maxOnDiskLimit ≤ oldestOnDisk.length + 1 then
      purge oldestOnDisk
        { blocks with
          onDiskStates := blocks.onDiskStates.erase hash
          diskCache := blocks.diskCache.erase hash }
    else { blocks with oldestOnDisk := hash :: oldestOnDisk }

def enforceLimits (db : FullDatabase State Snapshot) (writes : Writes)
    (blocks : InMemoryBlockStates State Snapshot) :
    Option (InMemoryBlockStates State Snapshot) :=
  (evict db writes blocks.present blocks).map fun blocks =>
    if blocks.isMemoryOnly then blocks
    else purge blocks.oldestOnDisk blocks

/-- The first statement of `insert`: a limit that was reached is decreased. -/
def decreaseLimit (blocks : InMemoryBlockStates State Snapshot) :
    InMemoryBlockStates State Snapshot :=
  if !blocks.isMemoryOnly && decide (blocks.inMemoryLimit ≤ blocks.present.length) then
    { blocks with inMemoryLimit := max (blocks.inMemoryLimit - 1) blocks.minInMemoryLimit }
  else blocks

section

variable (db : FullDatabase State Snapshot)
  (writes : Writes)
  (blocks : InMemoryBlockStates State Snapshot)

def insert (hash : B256) (state : State) : Option (InMemoryBlockStates State Snapshot) :=
  (blocks.decreaseLimit.enforceLimits db writes).map fun blocks =>
    { blocks with states := blocks.states.insert hash state, present := blocks.present ++ [hash] }

/-- `update_interval_mine_block_time`; the block time is in seconds. -/
def updateIntervalMineBlockTime (blockTime : ℕ) : Option (InMemoryBlockStates State Snapshot) :=
  if blockTime ≤ 2 then
    { blocks with inMemoryLimit := defaultHistoryLimit * 3 }.enforceLimits db writes
  else some blocks

end

section

variable (blocks : InMemoryBlockStates State Snapshot)

def clear : InMemoryBlockStates State Snapshot :=
  { blocks with
    states := ∅
    onDiskStates := ∅
    present := []
    oldestOnDisk := []
    diskCache := blocks.diskCache.eraseAll blocks.oldestOnDisk }

def removeBlockStates (hashes : List B256) : InMemoryBlockStates State Snapshot :=
  { blocks with
    states := blocks.states.eraseAll hashes
    onDiskStates := blocks.onDiskStates.eraseAll hashes
    present := blocks.present.filter (· ∉ hashes)
    oldestOnDisk := blocks.oldestOnDisk.filter (· ∉ hashes)
    diskCache := blocks.diskCache.eraseAll hashes }

def getState (hash : B256) : Option State :=
  blocks.states.lookup hash

end

/-- `get_on_disk_state`: the state is filled in place. -/
def getOnDiskState (db : FullDatabase State Snapshot)
    (blocks : InMemoryBlockStates State Snapshot) (hash : B256) :
    Option State × InMemoryBlockStates State Snapshot :=
  match blocks.onDiskStates.lookup hash, blocks.diskCache.lookup hash with
  | some state, some cached =>
    let state := db.initFromStateSnapshot state cached
    (some state,
      { blocks with onDiskStates := blocks.onDiskStates.insert hash state })
  | _, _ => (none, blocks)

/-- The queues list what the maps hold, and no state is held twice. -/
structure Consistent (blocks : InMemoryBlockStates State Snapshot)
    (present oldestOnDisk : List B256) : Prop where
  nodup : present.Nodup
  states : ∀ {hash}, hash ∈ blocks.states ↔ hash ∈ present
  oldestNodup : oldestOnDisk.Nodup
  onDisk : ∀ {hash}, hash ∈ blocks.onDiskStates ↔ hash ∈ oldestOnDisk
  disjoint : ∀ {hash}, hash ∈ present → hash ∉ oldestOnDisk

section Limits

variable {blocks : InMemoryBlockStates State Snapshot}
  {present oldestOnDisk : List B256} {hash : B256}

section

variable (consistent : blocks.Consistent (hash :: present) oldestOnDisk)

include consistent

theorem Consistent.erase : { blocks with states := blocks.states.erase hash }.Consistent present
      oldestOnDisk where
  nodup := (nodup_cons.mp consistent.nodup).2
  states := by
    intro probe
    rw [mem_erase, consistent.states, ← consistent.nodup.mem_erase_iff, erase_cons_head]
  oldestNodup := consistent.oldestNodup
  onDisk := consistent.onDisk
  disjoint member := consistent.disjoint (mem_cons_of_mem hash member)

theorem Consistent.moveToDisk (state : State) {diskCache : HashMap B256 Snapshot} :
    { blocks with
      states := blocks.states.erase hash
      onDiskStates := blocks.onDiskStates.insert hash state
      oldestOnDisk := oldestOnDisk ++ [hash]
      diskCache := diskCache }.Consistent present (oldestOnDisk ++ [hash]) := by
  have fresh := consistent.disjoint mem_cons_self
  have own := (nodup_cons.mp consistent.nodup).1
  refine
    { nodup := consistent.erase.nodup
      states := consistent.erase.states
      oldestNodup := ?_
      onDisk := ?_
      disjoint := ?_ }
  · exact nodup_append_comm.mpr (nodup_cons.mpr ⟨fresh, consistent.oldestNodup⟩)
  · intro probe
    rw [mem_insert, consistent.onDisk, mem_append, mem_singleton]
    exact or_comm
  intro probe member
  rw [mem_append, mem_singleton]
  rintro (onDisk | rfl)
  · exact consistent.disjoint (mem_cons_of_mem hash member) onDisk
  · exact own member

end

theorem mem_eraseAll_iff {Value : Type} {map : HashMap B256 Value}
    (listed : hash ∈ map ↔ hash ∈ present) (hashes : List B256) :
    hash ∈ map.eraseAll hashes ↔ hash ∈ present.filter (· ∉ hashes) := by
  rw [mem_eraseAll, listed, mem_filter, decide_eq_true_iff, and_comm]

structure Evicted (blocks : InMemoryBlockStates State Snapshot)
    (present : List B256) (after : InMemoryBlockStates State Snapshot) :
    Prop where
  consistent : after.Consistent after.present after.oldestOnDisk
  recent : after.present <:+ present
  oldest : ∀ hash ∈ after.oldestOnDisk, hash ∈ blocks.oldestOnDisk ∨ hash ∈ present
  positive : 1 ≤ after.inMemoryLimit
  minInMemoryLimit : after.minInMemoryLimit = blocks.minInMemoryLimit
  maxOnDiskLimit : after.maxOnDiskLimit = blocks.maxOnDiskLimit
  memoryOnly : blocks.isMemoryOnly → after.inMemoryLimit = blocks.inMemoryLimit ∧
      after.present.length = min present.length (blocks.inMemoryLimit - 1) ∧
      ∀ hash ∈ after.present, after.states.lookup hash = blocks.states.lookup hash

theorem Evicted.refl (consistent : blocks.Consistent present blocks.oldestOnDisk)
    (positive : 1 ≤ blocks.inMemoryLimit)
    (short : present.length < blocks.inMemoryLimit) :
    blocks.Evicted present { blocks with present := present } where
  consistent := { consistent with }
  recent := suffix_rfl
  oldest _ := .inl
  positive := positive
  minInMemoryLimit := rfl
  maxOnDiskLimit := rfl
  memoryOnly _ := ⟨rfl, (Nat.min_eq_left (Nat.le_sub_one_of_lt short)).symm, fun _ _ => rfl⟩

theorem Evicted.cons {middle after : InMemoryBlockStates State Snapshot}
    (evicted : middle.Evicted present after)
    (fresh : hash ∉ present)
    (states : middle.states = blocks.states.erase hash)
    (oldest : ∀ other ∈ middle.oldestOnDisk, other ∈ blocks.oldestOnDisk ∨ other = hash)
    (inMemoryLimit : middle.inMemoryLimit = blocks.inMemoryLimit)
    (minInMemoryLimit : middle.minInMemoryLimit = blocks.minInMemoryLimit)
    (maxOnDiskLimit : middle.maxOnDiskLimit = blocks.maxOnDiskLimit)
    (full : blocks.inMemoryLimit ≤ present.length + 1) :
    blocks.Evicted (hash :: present) after where
  consistent := evicted.consistent
  recent := evicted.recent.trans (suffix_cons hash present)
  oldest := by
    intro other onDisk
    rcases evicted.oldest other onDisk with earlier | evictedLater
    · exact (oldest other earlier).imp_right fun same => mem_cons.mpr (.inl same)
    · exact .inr (mem_cons_of_mem hash evictedLater)
  positive := evicted.positive
  minInMemoryLimit := evicted.minInMemoryLimit.trans minInMemoryLimit
  maxOnDiskLimit := evicted.maxOnDiskLimit.trans maxOnDiskLimit
  memoryOnly := by
    intro memoryOnly
    obtain ⟨limit, length, kept⟩ := evicted.memoryOnly (by
      simpa only [isMemoryOnly, maxOnDiskLimit] using memoryOnly)
    rw [inMemoryLimit] at limit length
    refine ⟨limit, ?_, ?_⟩
    · rw [length_cons]
      omega
    intro probe member
    rw [kept probe member, states, lookup_erase_ne]
    rintro rfl
    exact fresh (evicted.recent.subset member)

theorem evict_eq_some {db : FullDatabase State Snapshot} {writes : Writes}
    (consistent : blocks.Consistent present blocks.oldestOnDisk)
    (positive : 1 ≤ blocks.inMemoryLimit) :
    ∃ after, evict db writes present blocks = some after ∧ blocks.Evicted present after := by
  induction present generalizing blocks with
  | nil =>
    refine ⟨_, ?_, .refl consistent positive positive⟩
    rw [evict, if_neg (Nat.one_le_iff_ne_zero.mp positive)]
  | cons hash present ih =>
    rw [evict]
    by_cases short : present.length + 1 < blocks.inMemoryLimit
    · rw [if_pos short]
      exact ⟨_, rfl, .refl consistent positive short⟩
    have fresh := (nodup_cons.mp consistent.nodup).1
    have full := Nat.not_lt.mp short
    obtain ⟨state, stored⟩ := mem_iff_exists_lookup.mp (consistent.states.mpr mem_cons_self)
    simp only [if_neg short, stored]
    by_cases memoryOnly : blocks.isMemoryOnly
    · have unchanged : { blocks with states := blocks.states.erase hash }.isMemoryOnly = true :=
        memoryOnly
      rw [if_pos unchanged]
      obtain ⟨after, evicts, evicted⟩ := ih consistent.erase positive
      exact ⟨after, evicts, evicted.cons fresh rfl (fun _ => .inl) rfl rfl rfl full⟩
    have unchanged : ¬ { blocks with states := blocks.states.erase hash }.isMemoryOnly = true :=
      memoryOnly
    rw [if_neg unchanged]
    by_cases written : writes hash
    · rw [if_pos written]
      obtain ⟨after, evicts, evicted⟩ := ih
        (consistent.moveToDisk (db.clearIntoStateSnapshot state).2)
        positive
      refine ⟨after, evicts, evicted.cons fresh rfl ?_ rfl rfl rfl full⟩
      intro other onDisk
      exact (mem_append.mp onDisk).imp_right mem_singleton.mp
    rw [if_neg written]
    refine ⟨_, rfl, ?_⟩
    refine
      { consistent := ?_
        recent := suffix_rfl
        oldest := fun _ => .inl
        positive := ?_
        minInMemoryLimit := rfl
        maxOnDiskLimit := rfl
        memoryOnly := fun only => absurd only memoryOnly }
    · refine
        { nodup := consistent.nodup
          states := ?_
          oldestNodup := consistent.oldestNodup
          onDisk := consistent.onDisk
          disjoint := consistent.disjoint }
      intro probe
      rw [mem_insert, mem_erase, consistent.states, mem_cons]
      tauto
    change 1 ≤ min _ u64Max
    unfold u64Max
    omega

theorem purge_frame (oldestOnDisk : List B256) (blocks : InMemoryBlockStates State Snapshot) :
    (purge oldestOnDisk blocks).present = blocks.present ∧
      (purge oldestOnDisk blocks).inMemoryLimit = blocks.inMemoryLimit ∧
      (purge oldestOnDisk blocks).minInMemoryLimit = blocks.minInMemoryLimit ∧
      (purge oldestOnDisk blocks).maxOnDiskLimit = blocks.maxOnDiskLimit := by
  induction oldestOnDisk generalizing blocks with
  | nil => exact ⟨rfl, rfl, rfl, rfl⟩
  | cons hash oldestOnDisk ih =>
    rw [purge]
    split
    · exact ih _
    · exact ⟨rfl, rfl, rfl, rfl⟩

theorem purge_spec (consistent : blocks.Consistent present oldestOnDisk) :
    (purge oldestOnDisk blocks).Consistent present (purge oldestOnDisk blocks).oldestOnDisk ∧
      (purge oldestOnDisk blocks).oldestOnDisk ⊆ oldestOnDisk := by
  induction oldestOnDisk generalizing blocks with
  | nil => exact ⟨{ consistent with }, Subset.refl _⟩
  | cons hash oldestOnDisk ih =>
    rw [purge]
    split
    · have smaller : { blocks with
          onDiskStates := blocks.onDiskStates.erase hash
          diskCache := blocks.diskCache.erase hash }.Consistent present
            oldestOnDisk := by
        refine
          { nodup := consistent.nodup
            states := consistent.states
            oldestNodup := (nodup_cons.mp consistent.oldestNodup).2
            onDisk := ?_
            disjoint := ?_ }
        · intro probe
          rw [mem_erase, consistent.onDisk, ← consistent.oldestNodup.mem_erase_iff, erase_cons_head]
        · intro probe member onDisk
          exact consistent.disjoint member (mem_cons_of_mem hash onDisk)
      obtain ⟨purged, subset⟩ := ih smaller
      exact ⟨purged, subset_cons_of_subset hash subset⟩
    · exact ⟨{ consistent with }, Subset.refl _⟩

theorem enforceLimits_eq_some (db : FullDatabase State Snapshot) (writes : Writes)
    (consistent : blocks.Consistent blocks.present blocks.oldestOnDisk)
    (positive : 1 ≤ blocks.inMemoryLimit) :
    ∃ after, blocks.enforceLimits db writes = some after ∧ blocks.Evicted blocks.present after := by
  obtain ⟨middle, evicts, evicted⟩ := evict_eq_some consistent positive
  rw [enforceLimits, evicts, Option.map_some]
  by_cases memoryOnly : middle.isMemoryOnly
  · rw [if_pos memoryOnly]
    exact ⟨middle, rfl, evicted⟩
  rw [if_neg memoryOnly]
  obtain ⟨purged, subset⟩ := purge_spec evicted.consistent
  obtain ⟨presentSame, limitSame, minSame, maxSame⟩ := purge_frame middle.oldestOnDisk middle
  refine ⟨_, rfl, ?_⟩
  refine
    { consistent := ?_
      recent := ?_
      oldest := fun other onDisk => evicted.oldest other (subset onDisk)
      positive := ?_
      minInMemoryLimit := minSame.trans evicted.minInMemoryLimit
      maxOnDiskLimit := maxSame.trans evicted.maxOnDiskLimit
      memoryOnly := ?_ }
  · rw [presentSame]
    exact purged
  · rw [presentSame]
    exact evicted.recent
  · rw [limitSame]
    exact evicted.positive
  intro only
  refine absurd ?_ memoryOnly
  simpa only [isMemoryOnly, evicted.maxOnDiskLimit] using only

end Limits

end InMemoryBlockStates

end SwissledgerFoundry.History
