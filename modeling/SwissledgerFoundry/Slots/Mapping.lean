import SwissledgerFoundry.Collections.HashMap
import SwissledgerFoundry.Collections.Transition
import SwissledgerFoundry.Primitives

/-!
# Recorded mapping slots

The slot of a mapping entry is the hash of its key and of the slot of the
mapping.  The hashes of two words are remembered, and a store to such a slot
records the slot below its mapping, the slot of that mapping below its own, and
so on.
-/

namespace SwissledgerFoundry.Slots

open List AList Relation Transition

structure MappingSlots where
  parentSlots : HashMap B256 B256
  keys : HashMap B256 B256
  children : HashMap B256 (List B256)
  seenSha3 : HashMap B256 (B256 × B256)

namespace MappingSlots

def default : MappingSlots where
  parentSlots := ∅
  keys := ∅
  children := ∅
  seenSha3 := ∅

section

variable (slots : MappingSlots)

def childrenOf (parent : B256) : List B256 :=
  (slots.children.lookup parent).getD []

def push (slot key parent : B256) : MappingSlots :=
  { slots with
    keys := slots.keys.insert slot key
    parentSlots := slots.parentSlots.insert slot parent
    children := slots.children.insert parent (slots.childrenOf parent ++ [slot]) }

/-- Slots with a known preimage that are not recorded. -/
def unrecorded : List B256 :=
  slots.seenSha3.keys.filter fun slot => (slots.keys.lookup slot).isNone

end

variable {slots : MappingSlots}

variable {slot key parent : B256}

theorem length_unrecorded_push (seen : slots.seenSha3.lookup slot = some (key, parent))
    (absent : slot ∉ slots.keys) :
    (slots.push slot key parent).unrecorded.length < slots.unrecorded.length := by
  have fewer : (slots.push slot key parent).unrecorded = slots.unrecorded.filter (· ≠ slot) := by
    rw [unrecorded, unrecorded, filter_filter]
    apply filter_congr
    intro probe _
    by_cases same : probe = slot
    · subst same
      simp [push]
    · simp [push, same]
  rw [fewer, length_filter_lt_length_iff_exists]
  refine ⟨slot, mem_filter.mpr ⟨?_, ?_⟩, by simp⟩
  · exact mem_keys.mp (mem_of_lookup seen)
  · simp [lookup_eq_none.mpr absent]

def insert (slots : MappingSlots) (slot : B256) : MappingSlots × Bool :=
  match _seen : slots.seenSha3.lookup slot with
  | none => (slots, false)
  | some (key, parent) =>
    if _recorded : slot ∈ slots.keys then
      ({ slots with keys := slots.keys.insert slot key }, false)
    else ((insert (slots.push slot key parent) parent).1, true)
termination_by slots.unrecorded.length
decreasing_by apply length_unrecorded_push <;> assumption

/-- A slot and the parent in its preimage. -/
def Below (slots : MappingSlots) (slot parent : B256) : Prop :=
  ∃ key, slots.seenSha3.lookup slot = some (key, parent)

/-- Every recorded slot is listed once, below the parent in its preimage, which
is recorded too if it has a known preimage and is not still to be inserted. -/
structure Recorded (waiting : List B256) (slots : MappingSlots) : Prop where
  keys : ∀ slot, slot ∈ slots.keys ↔ slot ∈ slots.parentSlots
  once : ∀ parent slot, (slots.childrenOf parent).count slot =
    if slots.parentSlots.lookup slot = some parent then 1 else 0
  below : ∀ {slot parent}, slots.parentSlots.lookup slot = some parent → slots.Below slot parent
  next : ∀ {slot parent}, slots.parentSlots.lookup slot = some parent →
    parent ∈ slots.seenSha3 → parent ∈ slots.keys ∨ parent ∈ waiting

namespace Recorded

theorem push (recorded : slots.Recorded [slot]) (absent : slot ∉ slots.keys)
    (seen : slots.seenSha3.lookup slot = some (key, parent)) :
    (slots.push slot key parent).Recorded [parent] where
  keys probe := by simp only [MappingSlots.push, mem_insert, recorded.keys]
  once other probe := by
    have listed := recorded.once other probe
    have new := lookup_eq_none.mpr (mt (recorded.keys slot).mpr absent)
    rcases eq_or_ne other parent with rfl | elsewhere
    · rcases eq_or_ne probe slot with rfl | different
      · simp_all [childrenOf, MappingSlots.push]
      · simp_all [childrenOf, MappingSlots.push, different.symm]
    rcases eq_or_ne probe slot with rfl | different
    · simp_all [childrenOf, MappingSlots.push, elsewhere.symm]
    · simp_all [childrenOf, MappingSlots.push]
  below {other above} listed := by
    rcases lookup_of_insert listed with ⟨rfl, rfl⟩ | ⟨_, old⟩
    · exact ⟨key, seen⟩
    · exact recorded.below old
  next {other above} listed known := by
    rcases lookup_of_insert listed with ⟨_, rfl⟩ | ⟨_, old⟩
    · exact .inr (mem_singleton.mpr rfl)
    apply Or.inl
    apply (mem_insert _).mpr
    exact (recorded.next old known).symm.imp_left mem_singleton.mp

theorem insert (recorded : slots.Recorded [slot]) : (slots.insert slot).1.Recorded [] := by
  fun_induction MappingSlots.insert slots slot with
  | case1 slots slot missing =>
    refine { recorded with next := fun listed known => ?_ }
    rcases recorded.next listed known with before | waits
    · exact .inl before
    · rw [mem_singleton.mp waits] at known
      exact absurd known (lookup_eq_none.mp missing)
  | case2 slots slot key parent _ present =>
    refine { recorded with keys := fun probe => ?_, next := fun listed known => ?_ }
    · rw [← recorded.keys, mem_insert, or_iff_right_of_imp]
      rintro rfl
      exact present
    apply Or.inl
    apply (mem_insert _).mpr
    exact (recorded.next listed known).symm.imp_left mem_singleton.mp
  | case3 slots slot key parent seen absent ih => exact ih (recorded.push absent seen)

end Recorded

theorem mem_insert_keys {other : B256} (present : other ∈ slots.keys) :
    other ∈ (slots.insert slot).1.keys := by
  fun_induction insert slots slot with
  | case1 => exact present
  | case2 => exact (mem_insert _).mpr (.inr present)
  | case3 slots slot key parent _ _ ih => exact ih ((mem_insert _).mpr (.inr present))

theorem insert_mem_keys (known : slot ∈ (slots.insert slot).1.seenSha3) :
    slot ∈ (slots.insert slot).1.keys := by
  rw [insert] at known ⊢
  split at known
  · rename_i missing
    exact absurd known (lookup_eq_none.mp missing)
  split
  · exact (mem_insert _).mpr (.inl rfl)
  · exact mem_insert_keys ((mem_insert _).mpr (.inl rfl))

/-- From a recorded slot on, the preimages lead to recorded slots. -/
theorem Recorded.ancestor {top : B256} (recorded : slots.Recorded [])
    (start : slot ∈ slots.seenSha3 → slot ∈ slots.keys) (path : ReflTransGen slots.Below slot top)
    (seen : slots.seenSha3.lookup top = some (key, parent)) :
    (slots.childrenOf parent).count top = 1 := by
  have listed : ∀ {slot key parent}, slots.seenSha3.lookup slot = some (key, parent) →
      slot ∈ slots.keys → slots.parentSlots.lookup slot = some parent := by
    intro slot key parent seen present
    obtain ⟨found, listed⟩ := mem_iff_exists_lookup.mp ((recorded.keys slot).mp present)
    obtain ⟨_, same⟩ := recorded.below listed
    cases seen.symm.trans same
    exact listed
  have present : top ∈ slots.seenSha3 → top ∈ slots.keys := by
    clear seen
    induction path with
    | refl => exact start
    | tail _ below ih =>
      obtain ⟨_, before⟩ := below
      intro known
      have next := recorded.next (listed before (ih (mem_of_lookup before))) known
      exact next.resolve_right not_mem_nil
  rw [recorded.once, if_pos (listed seen (present (mem_of_lookup seen)))]

/-- The preimage of a slot is seen for the first time before the slot or one
below it is recorded. -/
def Timely (slots : MappingSlots) (slot : B256) (preimage : B256 × B256) : Prop :=
  slots.seenSha3.lookup slot = some preimage ∨
    slot ∉ slots.parentSlots ∧ ∀ other, slots.parentSlots.lookup other ≠ some slot

theorem Recorded.see {preimage : B256 × B256} (recorded : slots.Recorded [])
    (timely : slots.Timely slot preimage) :
    Recorded [] { slots with seenSha3 := slots.seenSha3.insert slot preimage } where
  keys := recorded.keys
  once := recorded.once
  below {other parent} listed := by
    obtain ⟨key, seen⟩ := recorded.below listed
    refine ⟨key, ?_⟩
    by_cases same : other = slot
    · subst same
      rcases timely with known | ⟨absent, _⟩
      · rw [lookup_insert, ← known, seen]
      · exact absurd (mem_of_lookup listed) absent
    · rw [lookup_insert_ne same, seen]
  next {other parent} listed known := by
    apply recorded.next listed
    rcases (mem_insert _).mp known with rfl | old
    · rcases timely with known | ⟨_, childless⟩
      · exact mem_of_lookup known
      · exact absurd listed (childless other)
    · exact old

end MappingSlots

inductive Observation where
  /-- `KECCAK256` of two words. -/
  | keccak256 (address : Address) (low high : B256)
  | sstore (address : Address) (slot : B256)

def slotsOf (mappingSlots : HashMap Address MappingSlots) (address : Address) : MappingSlots :=
  (mappingSlots.lookup address).getD .default

section

variable (keccak : B256 → B256 → B256) (mappingSlots : HashMap Address MappingSlots)

def step : Observation → HashMap Address MappingSlots
  | .keccak256 address low high =>
    let slots := slotsOf mappingSlots address
    mappingSlots.insert address
      { slots with seenSha3 := slots.seenSha3.insert (keccak low high) (low, high) }
  | .sstore address slot =>
    match mappingSlots.lookup address with
    | some slots => mappingSlots.insert address (slots.insert slot).1
    | none => mappingSlots

def Timely : Observation → Prop
  | .keccak256 address low high =>
    (slotsOf mappingSlots address).Timely (keccak low high) (low, high)
  | .sstore _ _ => True

end

theorem default_recorded : MappingSlots.default.Recorded [] where
  keys := by simp [MappingSlots.default]
  once := by simp [MappingSlots.default, MappingSlots.childrenOf]
  below listed := by cases listed
  next listed := by cases listed

theorem step_recorded {keccak : B256 → B256 → B256} {mappingSlots : HashMap Address MappingSlots}
    {observation : Observation}
    (recorded : ∀ address slots, mappingSlots.lookup address = some slots → slots.Recorded [])
    (timely : Timely keccak mappingSlots observation) (address : Address) (slots : MappingSlots)
    (found : (step keccak mappingSlots observation).lookup address = some slots) :
    slots.Recorded [] := by
  cases observation with
  | keccak256 own low high =>
    rcases lookup_of_insert found with ⟨_, rfl⟩ | ⟨_, old⟩
    · apply MappingSlots.Recorded.see _ timely
      cases tracked : mappingSlots.lookup own with
      | none => simpa [slotsOf, tracked] using default_recorded
      | some slots => simpa [slotsOf, tracked] using recorded own slots tracked
    · exact recorded address slots old
  | sstore own slot =>
    rw [step] at found
    split at found
    · rename_i before tracked
      rcases lookup_of_insert found with ⟨_, rfl⟩ | ⟨_, old⟩
      · have settled := recorded own before tracked
        apply MappingSlots.Recorded.insert
        exact { settled with
          next := fun listed known => (settled.next listed known).imp_right nofun }
      · exact recorded address slots old
    · exact recorded address slots found

/-- If preimages are seen in time, every recorded slot is listed once below its
parent, and a store records the slot and all those above it. -/
theorem run_records (keccak : B256 → B256 → B256) (observations : List Observation)
    (timely : Along (step keccak) (Timely keccak) ∅ observations)
    (address : Address) (slot : B256) (slots : MappingSlots)
    (stored : (run (step keccak) ∅ (observations ++ [.sstore address slot])).lookup
      address = some slots) :
    (∀ other ∈ slots.keys, ∃ parent, slots.parentSlots.lookup other = some parent ∧
      (slots.childrenOf parent).count other = 1) ∧
    ∀ ancestor key parent, ReflTransGen slots.Below slot ancestor →
      slots.seenSha3.lookup ancestor = some (key, parent) →
        (slots.childrenOf parent).count ancestor = 1 := by
  have reached := invariant_along
    (fun state => ∀ address slots, state.lookup address = some slots → slots.Recorded [])
    (fun _ _ => step_recorded) (fun _ _ found => by cases found) timely observations
    (prefix_refl _)
  rw [run_append] at stored
  have recorded := step_recorded reached
    (show Timely keccak _ (.sstore address slot) from trivial) address slots stored
  constructor
  · intro other present
    obtain ⟨parent, listed⟩ := mem_iff_exists_lookup.mp ((recorded.keys other).mp present)
    refine ⟨parent, listed, ?_⟩
    rw [recorded.once, if_pos listed]
  intro ancestor key parent path seen
  apply recorded.ancestor _ path seen
  simp only [run_cons, run_nil, step] at stored
  split at stored
  · cases (lookup_insert _).symm.trans stored
    exact MappingSlots.insert_mem_keys
  · rename_i missing
    cases missing.symm.trans stored

/-- The preimage of the mapping of a slot is seen first. -/
theorem run_records_nested : ∃ slots,
    (run (step (· + ·)) ∅ [.keccak256 0 1 1, .keccak256 0 1 2, .sstore 0 3]).lookup 0 =
      some slots ∧ (slots.childrenOf 1).count 2 = 1 := by
  refine ⟨_, rfl, (run_records (· + ·) [.keccak256 0 1 1, .keccak256 0 1 2] ?_ 0 3 _ rfl).2
    2 1 1 (.single ⟨1, by decide +kernel⟩) (by decide +kernel)⟩
  refine ⟨.inr ?_, .inr ?_, trivial⟩ <;> exact ⟨nofun, nofun⟩

/-- The preimage of the mapping of a slot is seen after the slot was recorded:
the next store to the slot does not record it. -/
theorem run_misses_ancestor : ∃ slots, (run (step (· + ·)) ∅
      [.keccak256 0 1 2, .sstore 0 3, .keccak256 0 1 1, .sstore 0 3]).lookup 0 = some slots ∧
      slots.Below 3 2 ∧ slots.Below 2 1 ∧ slots.childrenOf 1 = [] := by
  refine ⟨_, rfl, ⟨1, ?_⟩, ⟨1, ?_⟩, ?_⟩ <;> decide +kernel

end SwissledgerFoundry.Slots
