import SwissledgerFoundry.Collections.Transition
import SwissledgerFoundry.Fuzz.Dictionary

/-!
# Reverting the fuzz dictionary

A revert keeps the first values, and a persistent value raises their number by
one.  The value itself stands at the end of all values.
-/

namespace SwissledgerFoundry.Fuzz

open List IndexSet Transition

namespace FuzzDictionary

/-- Only values of the run were added. -/
structure Collects (before after : FuzzDictionary) : Prop where
  stateValues : before.stateValues.elems <+: after.stateValues.elems
  dbStateValues : after.dbStateValues = before.dbStateValues
  persistentValues : after.persistentValues = before.persistentValues

namespace Collects

variable {dictionary middle after : FuzzDictionary}

theorem refl (dictionary : FuzzDictionary) : Collects dictionary dictionary where
  stateValues := prefix_refl _
  dbStateValues := rfl
  persistentValues := rfl

theorem trans (first : Collects dictionary middle)
    (second : Collects middle after) : Collects dictionary after where
  stateValues := first.stateValues.trans second.stateValues
  dbStateValues := second.dbStateValues.trans first.dbStateValues
  persistentValues := second.persistentValues.trans first.persistentValues

theorem foldl {Item : Type} {round : FuzzDictionary → Item → FuzzDictionary}
    (collects : ∀ dictionary item, Collects dictionary (round dictionary item))
    (items : List Item) (dictionary : FuzzDictionary) :
    Collects dictionary (items.foldl round dictionary) := by
  apply foldlRecOn (motive := Collects dictionary)
  · exact .refl dictionary
  · intro state holds item _
    exact holds.trans (collects state item)

end Collects

section Collect

variable (dictionary : FuzzDictionary)

theorem insertValue_collects (value : B256) :
    Collects dictionary (dictionary.insertValue value).1 := by
  unfold insertValue
  split
  · exact .refl dictionary
  dsimp only
  split
  · exact { stateValues := prefix_insert _ value, dbStateValues := rfl, persistentValues := rfl }
  · exact { stateValues := prefix_insert _ value, dbStateValues := rfl, persistentValues := rfl }

theorem insertValueU256_collects (value : U256) :
    Collects dictionary (dictionary.insertValueU256 value).1 :=
  ((insertValue_collects dictionary value).trans
    (insertValue_collects _ (value - 1))).trans (insertValue_collects _ (value + 1))

theorem seedSamples_collects : Collects dictionary dictionary.seedSamples := by
  unfold seedSamples
  split
  · exact .refl dictionary
  · exact ⟨prefix_refl _, rfl, rfl⟩

theorem setSamples_collects (type : DynSolType) (values : IndexSet B256) :
    Collects dictionary (dictionary.setSamples type values) :=
  ⟨prefix_refl _, rfl, rfl⟩

theorem insertBucket_collects (type : DynSolType) (value : B256) :
    Collects dictionary (dictionary.insertBucket type value) := by
  unfold insertBucket
  dsimp only
  split <;> exact setSamples_collects _ _ _

theorem insertTypedCmpValue_collects (width : UInt8) (value : B256) :
    Collects dictionary (dictionary.insertTypedCmpValue width value) := by
  have native := (seedSamples_collects dictionary).trans
    (insertBucket_collects _ (nativeType width) value)
  unfold insertTypedCmpValue
  split
  · exact ((native.trans (insertBucket_collects _ (.uint 128) value)).trans
      (insertBucket_collects _ (.uint 256) value)).trans (insertBucket_collects _ (.int 256) value)
  · exact native

theorem insertSample_collects (limit : ℕ) (dictionary : FuzzDictionary) (sample : DynSolValue) :
    Collects dictionary (insertSample limit dictionary sample) := by
  unfold insertSample
  split
  · split
    · split
      · exact setSamples_collects _ _ _
      · exact insertValue_collects _ _
    · exact setSamples_collects _ _ _
  · exact .refl dictionary

theorem insertSampleValues_collects (samples : List DynSolValue) (limit : ℕ) :
    Collects dictionary (dictionary.insertSampleValues samples limit) :=
  (seedSamples_collects dictionary).trans (.foldl (insertSample_collects limit) samples _)

theorem insertValues_collects (values : List B256) :
    Collects dictionary (dictionary.insertValues values) :=
  .foldl insertValue_collects values dictionary

theorem insertResultValues_collects (decoded : Option (List DynSolValue)) (runDepth : ℕ) :
    Collects dictionary (dictionary.insertResultValues decoded runDepth) := by
  cases decoded with
  | none => exact .refl dictionary
  | some values => exact insertSampleValues_collects _ _ _

theorem insertLogsValues_collects (decode : Log → Option (List DynSolValue))
    (logs : List Log) (runDepth : ℕ) :
    Collects dictionary (dictionary.insertLogsValues decode logs runDepth) := by
  refine Collects.trans (.foldl ?_ logs dictionary) (insertSampleValues_collects _ _ _)
  intro state log
  split
  · exact .refl state
  · exact (insertValues_collects _ _).trans (insertValues_collects _ _)

theorem insertAddress_collects (address : Address) :
    Collects dictionary (dictionary.insertAddress address) := by
  unfold insertAddress
  split
  · exact ⟨prefix_refl _, rfl, rfl⟩
  · exact .refl dictionary

theorem collectPushBytes_collects (code : Bytes) :
    Collects dictionary (dictionary.collectPushBytes code) := by
  apply Collects.foldl
  intro state immediate
  split
  · exact .refl state
  split
  · exact .refl state
  split
  · exact .refl state
  · exact insertValueU256_collects _ _

variable (isCbor : Bytes → Bool)

theorem insertPushBytesValues_collects (dictionary : FuzzDictionary)
    (address : Address) (info : AccountInfo) :
    Collects dictionary (dictionary.insertPushBytesValues isCbor address info) := by
  unfold insertPushBytesValues
  split
  · exact .refl dictionary
  split
  · have recorded := insertAddress_collects dictionary address
    dsimp only
    split
    · exact recorded
    · exact recorded.trans (collectPushBytes_collects _ _)
  · exact .refl dictionary

theorem insertStorageValue_collects (slot value : U256)
    (identify : B256 → B256 → Option DynSolType) :
    Collects dictionary (dictionary.insertStorageValue slot value identify) := by
  have inserted := insertValue_collects dictionary slot
  unfold insertStorageValue
  dsimp only
  split
  · exact (inserted.trans (seedSamples_collects _)).trans (setSamples_collects _ _ _)
  · exact inserted.trans (insertValueU256_collects _ value)

theorem insertAccount_collects (identify : Address → B256 → B256 → Option DynSolType)
    (dictionary : FuzzDictionary) (account : Collected) :
    Collects dictionary (insertAccount isCbor identify dictionary account) := by
  have named := (insertValue_collects dictionary (intoWord account.address)).trans
      (insertPushBytesValues_collects isCbor _ account.address account.info)
  unfold insertAccount
  dsimp only
  split
  · apply named.trans
    apply Collects.foldl
    intro state slot
    exact insertStorageValue_collects state slot.1 slot.2 _
  · exact named

end Collect

/-- What is called between the creation of the dictionary and its end. -/
inductive Operation where
  | insertValue (value : B256)
  | insertValueU256 (value : U256)
  | insertSampleValues (samples : List DynSolValue) (limit : ℕ)
  | insertResultValues (decoded : Option (List DynSolValue)) (runDepth : ℕ)
  | insertLogsValues (decode : Log → Option (List DynSolValue))
      (logs : List Log) (runDepth : ℕ)
  | insertNewStateValues
      (identify : Address → B256 → B256 → Option DynSolType)
      (changes : List Collected)
  | insertTypedCmpValue (width : UInt8) (value : B256)
  | insertPersistentValue (value : B256)
  | revert

def step (isCbor : Bytes → Bool) (dictionary : FuzzDictionary) : Operation → FuzzDictionary
  | .insertValue value => (dictionary.insertValue value).1
  | .insertValueU256 value => (dictionary.insertValueU256 value).1
  | .insertSampleValues samples limit => dictionary.insertSampleValues samples limit
  | .insertResultValues decoded runDepth => dictionary.insertResultValues decoded runDepth
  | .insertLogsValues decode logs runDepth => dictionary.insertLogsValues decode logs runDepth
  | .insertNewStateValues identify changes =>
    dictionary.insertNewStateValues isCbor identify changes
  | .insertTypedCmpValue width value => dictionary.insertTypedCmpValue width value
  | .insertPersistentValue value => dictionary.insertPersistentValue value
  | .revert => dictionary.revert

section

variable (dictionary : FuzzDictionary)

/-- The values that a revert keeps. -/
def kept : List B256 :=
  dictionary.stateValues.elems.take dictionary.dbStateValues

/-- A persistent value that is accepted is kept already, or comes while there
are no values of the run. -/
def Allowed (operation : Operation) : Prop :=
  match operation with
  | .insertPersistentValue value =>
    dictionary.persistentValues.len < maxPersistentValues → value ∉ dictionary.persistentValues →
        value ∈ dictionary.kept ∨ dictionary.stateValues.len = dictionary.dbStateValues
  | _ => True

end

instance (dictionary : FuzzDictionary) (operation : Operation) :
    Decidable (dictionary.Allowed operation) := by
  unfold Allowed
  split <;> infer_instance

/-- The values that a revert keeps are those of the start and the persistent
ones. -/
structure Settled (start : IndexSet B256) (dictionary : FuzzDictionary) : Prop where
  bound : dictionary.dbStateValues ≤ dictionary.stateValues.len
  kept : ∀ value, value ∈ dictionary.kept ↔ value ∈ start ∨ value ∈ dictionary.persistentValues

namespace Settled

variable {start : IndexSet B256} {dictionary after : FuzzDictionary}
  (settled : Settled start dictionary)

include settled

theorem collects (collects : Collects dictionary after) : Settled start after := by
  obtain ⟨values, sameCount, samePersistent⟩ := collects
  have sameKept : after.kept = dictionary.kept := by
    obtain ⟨added, extended⟩ := values
    unfold FuzzDictionary.kept
    rw [sameCount, ← extended, take_append_of_le_length settled.bound]
  constructor
  · rw [sameCount]
    exact settled.bound.trans values.length_le
  intro value
  rw [sameKept, samePersistent]
  exact settled.kept value

theorem revert : Settled start dictionary.revert where
  bound := by
    show dictionary.dbStateValues ≤ (dictionary.stateValues.elems.take
      dictionary.dbStateValues).length
    rw [length_take]
    exact le_min (Nat.le_refl _) settled.bound
  kept value := by
    have sameKept : dictionary.revert.kept = dictionary.kept := by
      show (dictionary.stateValues.elems.take dictionary.dbStateValues).take
        dictionary.dbStateValues = _
      rw [take_take, Nat.min_self]
      rfl
    rw [sameKept]
    exact settled.kept value

theorem insertPersistentValue {value : B256}
    (allowed : dictionary.Allowed (.insertPersistentValue value)) :
    Settled start (dictionary.insertPersistentValue value) := by
  unfold FuzzDictionary.insertPersistentValue
  split
  · exact settled
  rename_i room
  by_cases old : value ∈ dictionary.persistentValues
  · rw [IndexSet.insert_of_mem old]
    exact settled
  have fresh := insert_elems old
  have member : ∀ other, other ∈ (dictionary.persistentValues.insert value).1 ↔
        other ∈ dictionary.persistentValues ∨ other = value :=
    fun other => mem_insert
  dsimp only
  rw [if_pos fresh.2]
  by_cases known : value ∈ dictionary.stateValues
  · -- the value is among the kept ones, and nothing moves
    rw [IndexSet.insert_of_mem known]
    rw [if_neg Bool.false_ne_true]
    have isKept : value ∈ dictionary.kept := by
      rcases allowed (not_le.mp room) old with isKept | noRun
      · exact isKept
      unfold FuzzDictionary.kept
      rw [← noRun, len, take_length]
      exact known
    refine ⟨settled.bound, fun other => ?_⟩
    rw [member]
    show other ∈ dictionary.kept ↔ _
    rw [settled.kept, ← or_assoc]
    constructor
    · exact .inl
    rintro (both | rfl)
    · exact both
    · exact (settled.kept _).mp isKept
  -- the value is the next kept one
  obtain ⟨elems, added⟩ := insert_elems known
  have noRun : dictionary.stateValues.len = dictionary.dbStateValues := by
    rcases allowed (not_le.mp room) old with isKept | noRun
    · exact absurd (mem_of_mem_take isKept) known
    · exact noRun
  have allKept : dictionary.kept = dictionary.stateValues.elems := by
    unfold FuzzDictionary.kept
    rw [← noRun, len, take_length]
  rw [if_pos added]
  have length : (dictionary.stateValues.elems ++ [value]).length =
      dictionary.dbStateValues + 1 := by
    rw [length_append, ← noRun]
    rfl
  constructor
  · show _ ≤ (dictionary.stateValues.insert value).1.elems.length
    rw [elems, length]
  intro other
  show other ∈ (dictionary.stateValues.insert value).1.elems.take (dictionary.dbStateValues + 1) ↔ _
  rw [member, elems, ← length, take_length, mem_append,
    mem_singleton, ← or_assoc, ← settled.kept, allKept]

theorem step (isCbor : Bytes → Bool) {operation : Operation}
    (allowed : dictionary.Allowed operation) :
    Settled start (dictionary.step isCbor operation) := by
  cases operation with
  | insertValue value => exact settled.collects (insertValue_collects _ _)
  | insertValueU256 value => exact settled.collects (insertValueU256_collects _ _)
  | insertSampleValues samples limit => exact settled.collects (insertSampleValues_collects _ _ _)
  | insertResultValues decoded runDepth =>
    exact settled.collects (insertResultValues_collects _ _ _)
  | insertLogsValues decode logs runDepth =>
    exact settled.collects (insertLogsValues_collects _ _ _ _)
  | insertNewStateValues identify changes =>
    exact settled.collects (.foldl (insertAccount_collects _ identify) changes _)
  | insertTypedCmpValue width value => exact settled.collects (insertTypedCmpValue_collects _ _ _)
  | insertPersistentValue value => exact settled.insertPersistentValue allowed
  | revert => exact settled.revert

end Settled

theorem insertDbValues_settled {dictionary : FuzzDictionary}
    (noPersistent : dictionary.persistentValues = .empty)
    (isCbor : Bytes → Bool) (accounts : List Collected)
    (random : Address) :
    Settled (dictionary.insertDbValues isCbor accounts random).stateValues
      (dictionary.insertDbValues isCbor accounts random) := by
  have collected : Collects dictionary
      (accounts.foldl (insertAccount isCbor fun _ _ _ => none) dictionary) :=
    .foldl (insertAccount_collects isCbor _) accounts dictionary
  have empty : (dictionary.insertDbValues isCbor accounts random).persistentValues = .empty := by
    unfold insertDbValues
    dsimp only
    split
    · exact ((collected.trans (insertValue_collects _ _)).persistentValues).trans noPersistent
    · exact collected.persistentValues.trans noPersistent
  constructor
  · exact Nat.le_refl _
  intro value
  have all : (dictionary.insertDbValues isCbor accounts random).kept =
      (dictionary.insertDbValues isCbor accounts random).stateValues.elems :=
    take_length
  rw [all, empty]
  constructor
  · exact .inl
  rintro (member | absurd)
  · exact member
  · cases absurd

theorem ofDatabase_settled (isCbor : Bytes → Bool) (db : CacheDb)
    (config : FuzzDictionaryConfig) (literals : Option Samples)
    (random : Address) :
    Settled (ofDatabase isCbor db config literals random).stateValues
      (ofDatabase isCbor db config literals random) := by
  have fresh : (new config).persistentValues = .empty := (insertValue_collects _ 0).persistentValues
  have settled := insertDbValues_settled fresh isCbor ((db.accounts.entries.insertionSort
      fun left right => left.1 ≤ right.1).map sortedAccount) random
  cases literals with
  | none => exact settled
  | some literals => exact ⟨settled.bound, settled.kept⟩

/-- In a run in which accepted persistent values come before the values of the
run, each revert leaves the values of the start and the persistent ones. -/
theorem run_revert_stateValues (isCbor : Bytes → Bool) (db : CacheDb)
    (config : FuzzDictionaryConfig) (literals : Option Samples)
    (random : Address) (operations : List Operation)
    (meets : Transition.Along (step isCbor) Allowed
      (ofDatabase isCbor db config literals random) operations)
    (reached : List Operation) (isPrefix : reached <+: operations)
    (value : B256) :
    value ∈ (run (step isCbor) (ofDatabase isCbor db config literals random)
        reached).revert.stateValues ↔
      value ∈ (ofDatabase isCbor db config literals random).stateValues ∨
        value ∈ (run (step isCbor) (ofDatabase isCbor db config literals random)
          reached).persistentValues := by
  have settled := invariant_along
    (Settled (ofDatabase isCbor db config literals random).stateValues)
    (fun _ _ holds allowed => holds.step isCbor allowed)
    (ofDatabase_settled isCbor db config literals random) meets reached
    isPrefix
  rw [← settled.kept]
  exact Iff.rfl

def plainConfig : FuzzDictionaryConfig where
  includeStorage := true
  includePushBytes := true
  maxFuzzDictionaryAddresses := 10
  maxFuzzDictionaryValues := 10

def plainDictionary : FuzzDictionary :=
  ofDatabase (fun _ => false) (.new (.empty fun _ => 0)) plainConfig none 1

/-- The persistent value comes before the value of the run. -/
theorem run_revert_stateValues_persistent_first :
    (7 : B256) ∈ (run (step fun _ => false) plainDictionary
      [.insertPersistentValue 7, .insertValue 5]).revert.stateValues ↔
    (7 : B256) ∈ plainDictionary.stateValues ∨
      (7 : B256) ∈ (run (step fun _ => false) plainDictionary
        [.insertPersistentValue 7, .insertValue 5]).persistentValues :=
  run_revert_stateValues (fun _ => false) (.new (.empty fun _ => 0))
    plainConfig none 1 [.insertPersistentValue 7, .insertValue 5]
    (by decide +kernel) _ (prefix_refl _) 7

/-- The persistent value comes after a value of the run, which survives in its
place. -/
theorem run_revert_keeps_run_value : ∃ dictionary, run (step fun _ => false) plainDictionary
        [.insertValue 5, .insertPersistentValue 7, .revert] = dictionary ∧
      (7 : B256) ∈ dictionary.persistentValues ∧
      (7 : B256) ∉ dictionary.stateValues ∧
      (5 : B256) ∈ dictionary.stateValues ∧
      (5 : B256) ∉ plainDictionary.stateValues ∧
      (5 : B256) ∉ dictionary.persistentValues := by
  refine ⟨_, rfl, ?_, ?_, ?_, ?_, ?_⟩ <;> decide +kernel

end FuzzDictionary

end SwissledgerFoundry.Fuzz
