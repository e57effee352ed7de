import SwissledgerFoundry.History.BlockStates

/-!
# The most recent block states

A hash that is inserted while its state is held is listed twice, and evicting
the first entry loses the state.  If every inserted hash is new, a store without
a disk keeps the most recent states.
-/

namespace SwissledgerFoundry.History

open List AList InMemoryBlockStates Transition

inductive Operation (State : Type) where
  | insert (hash : B256) (state : State)
  | removeBlockStates (hashes : List B256)
  | updateIntervalMineBlockTime (blockTime : ℕ)
  | clear

/-- The store, and the states that were inserted and not removed since, the
most recent one first. -/
structure Recorded (State Snapshot : Type) where
  blocks : InMemoryBlockStates State Snapshot
  live : List (B256 × State)

variable {State Snapshot : Type}

def InMemoryBlockStates.apply (db : FullDatabase State Snapshot)
    (writes : Writes) (blocks : InMemoryBlockStates State Snapshot) :
    Operation State → Option (InMemoryBlockStates State Snapshot)
  | .insert hash state => blocks.insert db writes hash state
  | .removeBlockStates hashes => some (blocks.removeBlockStates hashes)
  | .updateIntervalMineBlockTime blockTime => blocks.updateIntervalMineBlockTime db writes blockTime
  | .clear => some blocks.clear

def recordLive (live : List (B256 × State)) : Operation State → List (B256 × State)
  | .insert hash state => (hash, state) :: live.filter (·.1 ≠ hash)
  | .removeBlockStates hashes => live.filter (·.1 ∉ hashes)
  | .updateIntervalMineBlockTime _ => live
  | .clear => []

namespace Recorded

def start (inMemoryLimit onDiskLimit : ℕ) : Recorded State Snapshot where
  blocks := .new inMemoryLimit onDiskLimit
  live := []

def step (db : FullDatabase State Snapshot) (recorded : Option (Recorded State Snapshot))
    (action : Writes × Operation State) :
    Option (Recorded State Snapshot) :=
  recorded.bind fun recorded =>
    (recorded.blocks.apply db action.1 action.2).map fun blocks =>
      { blocks := blocks, live := recordLive recorded.live action.2 }

/-- The queues list what the maps hold, no state is held twice, and without a
disk the most recent states can be retrieved. -/
structure Sound (recorded : Recorded State Snapshot) : Prop where
  consistent : recorded.blocks.Consistent recorded.blocks.present recorded.blocks.oldestOnDisk
  recent : recorded.blocks.isMemoryOnly →
    ∀ hash state, (hash, state) ∈ recorded.live.take recorded.blocks.inMemoryLimit →
      recorded.blocks.getState hash = some state

section

variable (recorded : Recorded State Snapshot)

/-- Every live state is still held in memory. -/
def AllHeld : Prop :=
  ∀ entry ∈ recorded.live, entry.1 ∈ recorded.blocks.present

instance (recorded : Recorded State Snapshot) : Decidable recorded.AllHeld :=
  inferInstanceAs (Decidable (∀ _ ∈ _, _))

/-- No held hash is inserted again, and a store without a disk that has
evicted live states is not asked for more of them: no held state is removed
and the limit is not raised. -/
def Careful : Operation State → Prop
  | .insert hash _ => hash ∉ recorded.blocks.present ∧ hash ∉ recorded.blocks.oldestOnDisk
  | .removeBlockStates hashes =>
    recorded.blocks.isMemoryOnly →
      recorded.AllHeld ∨ ∀ hash ∈ hashes, hash ∉ recorded.blocks.present
  | .updateIntervalMineBlockTime blockTime =>
    recorded.blocks.isMemoryOnly → blockTime ≤ 2 →
      recorded.AllHeld ∧ recorded.live.length < defaultHistoryLimit * 3
  | .clear => True

end

instance (recorded : Recorded State Snapshot) (operation : Operation State) :
    Decidable (recorded.Careful operation) := by
  unfold Careful
  split <;> infer_instance

/-- Without a disk, the states in memory are the most recent live ones. -/
structure Remembers (recorded : Recorded State Snapshot) : Prop where
  recent : recorded.blocks.present.reverse <+: recorded.live.map (·.1)
  stored : ∀ {hash state}, (hash, state) ∈ recorded.live → hash ∈ recorded.blocks.present →
    recorded.blocks.states.lookup hash = some state
  covered : recorded.live.length ≤ recorded.blocks.present.length ∨
    recorded.blocks.inMemoryLimit ≤ recorded.blocks.present.length
  nodup : (recorded.live.map (·.1)).Nodup

variable {recorded : Recorded State Snapshot}

theorem map_filter_live (live : List (B256 × State)) (keeps : B256 → Bool) :
    (live.filter fun entry => keeps entry.1).map (·.1) = (live.map (·.1)).filter keeps :=
  filter_map.symm

theorem AllHeld.subset (allHeld : recorded.AllHeld) :
    recorded.live.map (·.1) ⊆ recorded.blocks.present := by
  intro hash member
  obtain ⟨entry, listed, rfl⟩ := mem_map.mp member
  exact allHeld entry listed

variable {hash : B256}

theorem Remembers.mem_present {state : State} (remembers : recorded.Remembers)
    (member : (hash, state) ∈ recorded.live.take recorded.blocks.inMemoryLimit) :
    hash ∈ recorded.blocks.present := by
  have listed : hash ∈ (recorded.live.map (·.1)).take recorded.blocks.present.length := by
    rw [← map_take]
    apply mem_map_of_mem (f := fun entry => entry.1) (a := (hash, state))
    rcases remembers.covered with short | full
    · rw [take_of_length_le short]
      exact mem_of_mem_take member
    · exact take_subset_take_left _ full member
  rw [← length_reverse, ← prefix_iff_eq_take.mp remembers.recent] at listed
  exact mem_reverse.mp listed

variable {after : InMemoryBlockStates State Snapshot}

section

variable (remembers : recorded.Remembers)

include remembers

theorem Remembers.insert (state : State)
    (evicted : recorded.blocks.Evicted recorded.blocks.present after)
    (memoryOnly : recorded.blocks.isMemoryOnly)
    (positive : 1 ≤ recorded.blocks.inMemoryLimit)
    (absent : hash ∉ recorded.blocks.present) :
    Remembers
      { blocks :=
          { after with
            states := after.states.insert hash state
            present := after.present ++ [hash] }
        live := recordLive recorded.live (.insert hash state) } := by
  obtain ⟨limit, length, kept⟩ := evicted.memoryOnly memoryOnly
  have gone : hash ∉ after.present := fun member => absent (evicted.recent.subset member)
  have hashes := map_filter_live recorded.live (· ≠ hash)
  constructor
  · simp only [recordLive, reverse_append, reverse_cons, reverse_nil, nil_append, singleton_append,
      map_cons, cons_prefix_cons, true_and, hashes]
    have shorter : after.present.reverse <+: recorded.live.map (·.1) :=
      ( reverse_prefix.mpr evicted.recent).trans remembers.recent
    have filtered := shorter.filter (· ≠ hash)
    rw [filter_eq_self.mpr] at filtered
    · exact filtered
    intro probe member
    have different : probe ≠ hash := by
      rintro rfl
      exact gone (mem_reverse.mp member)
    simpa using different
  · intro probe probeState member present
    simp only [recordLive, mem_cons, Prod.mk.injEq, mem_filter] at member
    rw [lookup_insert_eq]
    rcases member with ⟨same, rfl⟩ | ⟨earlier, different⟩
    · rw [if_pos same]
    have other : probe ≠ hash := of_decide_eq_true different
    rw [if_neg other]
    have still : probe ∈ after.present := by
      rcases mem_append.mp present with still | own
      · exact still
      · exact absurd (mem_singleton.mp own) other
    rw [kept probe still]
    exact remembers.stored earlier (evicted.recent.subset still)
  · have filtered := length_filter_le (fun entry : B256 × State => entry.1 ≠ hash) recorded.live
    have covered := remembers.covered
    simp only [recordLive, length_cons, length_append, limit, length]
    omega
  simp only [recordLive, map_cons, hashes]
  refine nodup_cons.mpr ⟨?_, remembers.nodup.filter _⟩
  simp

theorem Remembers.removeBlockStates {hashes : List B256}
    (careful : recorded.AllHeld ∨ ∀ hash ∈ hashes, hash ∉ recorded.blocks.present) :
    Remembers
      { blocks := recorded.blocks.removeBlockStates hashes
        live := recordLive recorded.live (.removeBlockStates hashes) } := by
  have live := map_filter_live recorded.live (· ∉ hashes)
  constructor
  · simp only [recordLive, InMemoryBlockStates.removeBlockStates, live, ← filter_reverse]
    exact remembers.recent.filter _
  · intro hash state member present
    obtain ⟨earlier, kept⟩ := mem_filter.mp member
    have held := (mem_filter.mp present).1
    have absent : hash ∉ hashes := of_decide_eq_true kept
    simp only [InMemoryBlockStates.removeBlockStates]
    rw [lookup_eraseAll, if_neg absent]
    exact remembers.stored earlier held
  · rcases careful with allHeld | apart
    · left
      have shorter := (subperm_of_subset (remembers.nodup.filter _)
        (filter_subset (· ∉ hashes) allHeld.subset)).length_le
      rw [← live, length_map] at shorter
      exact shorter
    · have unchanged : recorded.blocks.present.filter (· ∉ hashes) = recorded.blocks.present := by
        apply filter_eq_self.mpr
        intro hash member
        have kept : hash ∉ hashes := fun listed => apart hash listed member
        simpa using kept
      simp only [InMemoryBlockStates.removeBlockStates, unchanged, recordLive]
      exact remembers.covered.imp_left fun short => (length_filter_le _ _).trans short
  · simp only [recordLive, live]
    exact remembers.nodup.filter _

theorem Remembers.raise {limit : ℕ}
    (evicted : { recorded.blocks with
      inMemoryLimit := limit }.Evicted recorded.blocks.present after)
    (memoryOnly : recorded.blocks.isMemoryOnly) (allHeld : recorded.AllHeld)
    (few : recorded.live.length < limit) :
    Remembers { recorded with blocks := after } := by
  obtain ⟨_, length, kept⟩ := evicted.memoryOnly memoryOnly
  have held := (subperm_of_subset remembers.nodup allHeld.subset).length_le
  have listed := remembers.recent.length_le
  rw [length_map] at held listed
  rw [length_reverse] at listed
  have unchanged : after.present = recorded.blocks.present := by
    apply evicted.recent.eq_of_length
    rw [length]
    change min recorded.blocks.present.length (limit - 1) = _
    omega
  constructor
  · rw [unchanged]
    exact remembers.recent
  · intro hash state member present
    rw [kept hash present]
    rw [unchanged] at present
    exact remembers.stored member present
  · left
    rw [unchanged]
    exact held
  · exact remembers.nodup

end

/-- What holds in every state of a careful run. -/
structure Invariant (recorded : Recorded State Snapshot) : Prop where
  consistent : recorded.blocks.Consistent recorded.blocks.present recorded.blocks.oldestOnDisk
  positive : 1 ≤ recorded.blocks.inMemoryLimit
  positiveMin : 1 ≤ recorded.blocks.minInMemoryLimit
  remembers : recorded.blocks.isMemoryOnly → recorded.Remembers

theorem Invariant.sound (invariant : recorded.Invariant) : recorded.Sound where
  consistent := invariant.consistent
  recent := by
    intro memoryOnly hash state member
    have remembers := invariant.remembers memoryOnly
    exact remembers.stored (mem_of_mem_take member) (remembers.mem_present member)

theorem clear_invariant (blocks : InMemoryBlockStates State Snapshot)
    (positive : 1 ≤ blocks.inMemoryLimit)
    (positiveMin : 1 ≤ blocks.minInMemoryLimit) :
    Invariant { blocks := blocks.clear, live := [] } where
  consistent := by
    constructor
    · exact nodup_nil
    · intro hash
      simp [clear]
    · exact nodup_nil
    · intro hash
      simp [clear]
    · nofun
  positive := positive
  positiveMin := positiveMin
  remembers _ := by
    constructor
    · exact prefix_rfl
    · nofun
    · exact .inl (Nat.le_refl 0)
    · exact nodup_nil

theorem start_invariant {inMemoryLimit : ℕ} (positive : 1 ≤ inMemoryLimit) (onDiskLimit : ℕ) :
    (start inMemoryLimit onDiskLimit : Recorded State Snapshot).Invariant := by
  have positiveMin : 1 ≤ min inMemoryLimit minHistoryLimit := by
    unfold minHistoryLimit
    omega
  exact clear_invariant (.new inMemoryLimit onDiskLimit) positive positiveMin

theorem consistent_insert {state : State} {blocks : InMemoryBlockStates State Snapshot}
    {present : List B256} (evicted : blocks.Evicted present after)
    (absent : hash ∉ present)
    (undisked : hash ∉ blocks.oldestOnDisk) :
    { after with
      states := after.states.insert hash state
      present := after.present ++ [hash] }.Consistent
        (after.present ++ [hash]) after.oldestOnDisk := by
  have gone : hash ∉ after.present := fun member => absent (evicted.recent.subset member)
  have away : hash ∉ after.oldestOnDisk :=
    fun onDisk => (evicted.oldest hash onDisk).elim undisked absent
  refine
    { nodup := ?_
      states := ?_
      oldestNodup := evicted.consistent.oldestNodup
      onDisk := evicted.consistent.onDisk
      disjoint := ?_ }
  · exact nodup_append_comm.mpr (nodup_cons.mpr ⟨gone, evicted.consistent.nodup⟩)
  · intro probe
    rw [mem_insert, evicted.consistent.states, mem_append, mem_singleton]
    exact or_comm
  intro probe member
  rcases mem_append.mp member with earlier | own
  · exact evicted.consistent.disjoint earlier
  · rw [mem_singleton.mp own]
    exact away

section

variable (invariant : recorded.Invariant)

include invariant

theorem Invariant.decreaseLimit :
    Invariant { recorded with blocks := recorded.blocks.decreaseLimit } ∧
      recorded.blocks.decreaseLimit.present = recorded.blocks.present ∧
      recorded.blocks.decreaseLimit.oldestOnDisk = recorded.blocks.oldestOnDisk := by
  unfold InMemoryBlockStates.decreaseLimit
  split
  · rename_i full
    refine ⟨?_, rfl, rfl⟩
    refine
      { consistent := { invariant.consistent with }
        positive := invariant.positiveMin.trans (Nat.le_max_right _ _)
        positiveMin := invariant.positiveMin
        remembers := ?_ }
    intro memoryOnly
    have onDisk := (Bool.and_eq_true_iff.mp full).1
    change recorded.blocks.isMemoryOnly = true at memoryOnly
    simp [memoryOnly] at onDisk
  · exact ⟨invariant, rfl, rfl⟩

theorem Invariant.insert (db : FullDatabase State Snapshot) (writes : Writes)
    {state : State} (careful : recorded.Careful (.insert hash state)) :
    ∃ blocks, recorded.blocks.insert db writes hash state = some blocks ∧ Invariant
        { blocks := blocks
          live := recordLive recorded.live (.insert hash state) } := by
  obtain ⟨absent, undisked⟩ := careful
  obtain ⟨decreased, samePresent, sameOldest⟩ := invariant.decreaseLimit
  rw [← samePresent] at absent
  rw [← sameOldest] at undisked
  obtain ⟨after, enforced, evicted⟩ := enforceLimits_eq_some db writes
    decreased.consistent decreased.positive
  rw [InMemoryBlockStates.insert, enforced]
  refine ⟨_, rfl, ?_⟩
  refine
    { consistent := consistent_insert evicted absent undisked
      positive := evicted.positive
      positiveMin := ?_
      remembers := ?_ }
  · rw [evicted.minInMemoryLimit]
    exact decreased.positiveMin
  intro memoryOnly
  have before : recorded.blocks.decreaseLimit.isMemoryOnly := by
    simpa only [isMemoryOnly, evicted.maxOnDiskLimit] using memoryOnly
  exact (decreased.remembers before).insert state evicted before decreased.positive absent

theorem Invariant.removeBlockStates {hashes : List B256}
    (careful : recorded.Careful (.removeBlockStates hashes)) :
    Invariant
      { blocks := recorded.blocks.removeBlockStates hashes
        live := recordLive recorded.live (.removeBlockStates hashes) } where
  consistent := by
    have consistent := invariant.consistent
    constructor
    · exact consistent.nodup.filter _
    · exact mem_eraseAll_iff consistent.states hashes
    · exact consistent.oldestNodup.filter _
    · exact mem_eraseAll_iff consistent.onDisk hashes
    · intro hash member onDisk
      exact consistent.disjoint (mem_filter.mp member).1 (mem_filter.mp onDisk).1
  positive := invariant.positive
  positiveMin := invariant.positiveMin
  remembers memoryOnly := (invariant.remembers memoryOnly).removeBlockStates (careful memoryOnly)

theorem Invariant.updateIntervalMineBlockTime {blockTime : ℕ} (db : FullDatabase State Snapshot)
    (writes : Writes)
    (careful : recorded.Careful (.updateIntervalMineBlockTime blockTime)) :
    ∃ blocks, recorded.blocks.updateIntervalMineBlockTime db writes blockTime = some blocks ∧
      Invariant { recorded with blocks := blocks } := by
  unfold InMemoryBlockStates.updateIntervalMineBlockTime
  split
  · rename_i fast
    have raised : Consistent { recorded.blocks with inMemoryLimit := defaultHistoryLimit * 3 }
        recorded.blocks.present recorded.blocks.oldestOnDisk :=
      { invariant.consistent with }
    obtain ⟨after, enforced, evicted⟩ := enforceLimits_eq_some db writes
      raised (show 1 ≤ defaultHistoryLimit * 3 by decide)
    refine ⟨after, enforced, ?_⟩
    refine
      { consistent := evicted.consistent
        positive := evicted.positive
        positiveMin := ?_
        remembers := ?_ }
    · rw [evicted.minInMemoryLimit]
      exact invariant.positiveMin
    intro memoryOnly
    have before : recorded.blocks.isMemoryOnly := by
      simpa only [isMemoryOnly, evicted.maxOnDiskLimit] using memoryOnly
    obtain ⟨allHeld, few⟩ := careful before fast
    exact (invariant.remembers before).raise evicted before allHeld few
  · exact ⟨_, rfl, invariant⟩

theorem Invariant.apply {operation : Operation State} (db : FullDatabase State Snapshot)
    (writes : Writes)
    (careful : recorded.Careful operation) :
    ∃ blocks, recorded.blocks.apply db writes operation = some blocks ∧ Invariant
        { blocks := blocks
          live := recordLive recorded.live operation } := by
  cases operation with
  | insert hash state => exact invariant.insert db writes careful
  | removeBlockStates hashes => exact ⟨_, rfl, invariant.removeBlockStates careful⟩
  | updateIntervalMineBlockTime blockTime =>
    exact invariant.updateIntervalMineBlockTime db writes careful
  | clear =>
    exact ⟨_, rfl, clear_invariant recorded.blocks invariant.positive invariant.positiveMin⟩

end

def Allowed (state : Option (Recorded State Snapshot)) (action : Writes × Operation State) : Prop :=
  ∀ recorded ∈ state, recorded.Careful action.2

instance (state : Option (Recorded State Snapshot))
    (action : Writes × Operation State) : Decidable (Allowed state action) :=
  inferInstanceAs (Decidable (∀ _ ∈ _, _))

/-- In every careful run the queues list what the maps hold, and without a
disk the most recent states can be retrieved. -/
theorem run_sound (db : FullDatabase State Snapshot) (inMemoryLimit : ℕ)
    (positive : 1 ≤ inMemoryLimit) (onDiskLimit : ℕ)
    (actions : List (Writes × Operation State))
    (careful : Transition.Along (step db) Allowed
      (some (start inMemoryLimit onDiskLimit)) actions) :
    ∀ reached, reached <+: actions → ∃ recorded, run (step db)
          (some (start inMemoryLimit onDiskLimit)) reached = some recorded ∧
        recorded.Sound := by
  intro reached shorter
  obtain ⟨recorded, isReached, invariant⟩ := invariant_along
    (fun state : Option (Recorded State Snapshot) =>
      ∃ recorded, state = some recorded ∧ recorded.Invariant)
    (by
      rintro _ action ⟨recorded, rfl, invariant⟩ allowed
      obtain ⟨blocks, applied, holds⟩ := invariant.apply db action.1 (allowed recorded rfl)
      refine ⟨_, ?_, holds⟩
      rw [step, Option.bind_some, applied]
      rfl)
    ⟨_, rfl, start_invariant positive onDiskLimit⟩ careful reached shorter
  exact ⟨recorded, isReached, invariant.sound⟩

def plainDatabase : FullDatabase ℕ ℕ where
  clearIntoStateSnapshot state := (state, 0)
  initFromStateSnapshot _ snapshot := snapshot

/-- With a disk, on which the state of the second block cannot be written, and
without one. -/
theorem run_sound_evicting : (∀ reached, reached <+:
        [(fun _ => true, .insert 1 10), (fun _ => true, .insert 2 20),
          (fun _ => false, .insert 3 30)] →
      ∃ recorded, run (step plainDatabase) (some (start 1 4))
          reached = some recorded ∧ recorded.Sound) ∧
    ∀ reached, reached <+: [(fun _ => true, .insert 1 10), (fun _ => true, .insert 2 20),
          (fun _ => true, .insert 1 11)] →
      ∃ recorded, run (step plainDatabase) (some (start 1 0))
          reached = some recorded ∧ recorded.Sound := by
  constructor
  · exact run_sound _ 1 (by decide) 4 _ (by decide +kernel)
  · exact run_sound _ 1 (by decide) 0 _ (by decide +kernel)

/-- A hash is inserted twice, and the queue lists it twice.  The next insertion
evicts its state, although it is one of the two most recent ones and is still
listed. -/
theorem run_loses_repeated_hash : (∃ recorded, run (step plainDatabase) (some (start 2 0))
        [(fun _ => true, .insert 1 10), (fun _ => true, .insert 1 11)] = some recorded ∧
      recorded.blocks.present = [1, 1]) ∧
    ∃ recorded, run (step plainDatabase) (some (start 2 0))
        [(fun _ => true, .insert 1 10), (fun _ => true, .insert 1 11),
          (fun _ => true, .insert 2 20)] = some recorded ∧
      recorded.blocks.present = [1, 2] ∧
      recorded.live.take recorded.blocks.inMemoryLimit = [(2, 20), (1, 11)] ∧
      recorded.blocks.getState 1 = none := by
  refine ⟨⟨_, rfl, rfl⟩, _, rfl, rfl, ?_, ?_⟩ <;> decide +kernel

end Recorded

end SwissledgerFoundry.History
