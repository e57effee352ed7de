import SwissledgerFoundry.Chain.Storage
import Mathlib.Data.List.Chain

/-!
# Block tags and the fee history

The places that translate a block tag, the cache of fee entries, and
`eth_feeHistory` of a local chain.  A percentile stands for its index in the
list of rewards of a block.
-/

namespace SwissledgerFoundry.Api

open List AList Chain

inductive BlockNumber where
  | latest
  | pending
  | earliest
  | safe
  | finalized
  | number (num : ℕ)
  deriving DecidableEq

section

variable (slotsInAnEpoch current : ℕ)

/-- The number of a tag, for an epoch length.  Products wrap and differences
stop at zero. -/
def tagNumber : BlockNumber → ℕ
  | .latest | .pending => current
  | .earliest => 0
  | .number num => num
  | .safe => current - slotsInAnEpoch
  | .finalized => current - slotsInAnEpoch * 2 % 2 ^ 64

def convertBlockNumber (block : Option BlockNumber) : ℕ :=
  tagNumber slotsInAnEpoch current (block.getD .latest)

/-- `ensure_block_number` of a tag.  The error carries the current and the
requested number. -/
def ensureBlockNumber (block : Option BlockNumber) : Except (ℕ × ℕ) ℕ :=
  let requested := tagNumber slotsInAnEpoch current (block.getD .latest)
  if current < requested then .error (current, requested) else .ok requested

end

/-- The hash of the block that many slots behind the best one. -/
def hashBehind (storage : BlockchainStorage) (slots : ℕ) : Option B256 :=
  if slots < storage.bestNumber then
    storage.hashes.lookup (storage.bestNumber - slots)
  else some storage.genesisHash

/-- `BlockchainStorage::hash`. -/
def hash (storage : BlockchainStorage) : BlockNumber → Option B256
  | .latest => some storage.bestHash
  | .earliest => some storage.genesisHash
  | .pending => none
  | .number num => storage.hashes.lookup num
  | .safe => hashBehind storage 32
  | .finalized => hashBehind storage (32 * 2)

/-- The number that `fee_history` takes for its newest block. -/
def feeHistoryNumber (current : ℕ) (newestBlock : BlockNumber) : ℕ :=
  tagNumber 32 current newestBlock

theorem hashBehind_eq {slots : ℕ} {storage : BlockchainStorage}
    (genesis : storage.hashes.lookup 0 = some storage.genesisHash) :
    hashBehind storage slots = storage.hashes.lookup (storage.bestNumber - slots) := by
  unfold hashBehind
  split
  · rfl
  · rename_i early
    rw [Nat.sub_eq_zero_of_le (not_lt.mp early), genesis]

/-- The tags for which it makes no difference that two of the places count 32
slots instead of the configured ones, and that one knows no pending block. -/
def Unanimous (slotsInAnEpoch bestNumber : ℕ) : BlockNumber → Prop
  | .latest | .earliest => True
  | .pending => False
  | .number num => num ≤ bestNumber
  | .safe => slotsInAnEpoch = 32 ∨ bestNumber ≤ slotsInAnEpoch ∧ bestNumber ≤ 32
  | .finalized =>
    slotsInAnEpoch * 2 % 2 ^ 64 = 64 ∨ bestNumber ≤ slotsInAnEpoch * 2 % 2 ^ 64 ∧ bestNumber ≤ 64

theorem tagNumber_eq_iff (slotsInAnEpoch bestNumber : ℕ) (block : BlockNumber)
    (mined : block ≠ .pending) :
    tagNumber slotsInAnEpoch bestNumber block ≤ bestNumber ∧
        tagNumber 32 bestNumber block = tagNumber slotsInAnEpoch bestNumber block ↔
      Unanimous slotsInAnEpoch bestNumber block := by
  cases block with
  | pending => exact absurd rfl mined
  | latest => simp [tagNumber, Unanimous]
  | earliest => simp [tagNumber, Unanimous]
  | number num => simp [tagNumber, Unanimous]
  | safe =>
    simp only [tagNumber, Unanimous]
    omega
  | finalized =>
    simp only [tagNumber, Unanimous]
    omega

/-- A chain of 50 blocks whose hashes are their numbers. -/
def fiftyBlocks : BlockchainStorage where
  blocks := ∅
  hashes := (range 51).foldl (fun hashes number => hashes.insert number (BitVec.ofNat 256 number)) ∅
  bestHash := 50
  bestNumber := 50
  genesisHash := 0
  transactions := ∅
  totalDifficulty := 0

structure FeeHistoryCacheItem (Ratio : Type) where
  baseFee : ℕ
  gasUsedRatio : Ratio
  baseFeePerBlobGas : Option ℕ
  blobGasUsedRatio : Ratio
  rewards : List ℕ
  deriving DecidableEq

variable {Ratio : Type}

abbrev FeeHistoryCache (Ratio : Type) := HashMap ℕ (FeeHistoryCacheItem Ratio)

/-- `insert_cache_entry` for a block, unless the subtraction of the loop
underflows. -/
def insertCacheEntry (feeHistoryLimit : ℕ) (cache : FeeHistoryCache Ratio)
    (entry : ℕ × FeeHistoryCacheItem Ratio) :
    Option (FeeHistoryCache Ratio) :=
  let cache := cache.insert entry.1 entry.2
  let popNext := entry.1 - feeHistoryLimit
  (range (cache.size - feeHistoryLimit)).foldlM (fun cache num =>
    if popNext < num then none else some (cache.erase (popNext - num))) cache

/-- The cache after the notified blocks. -/
def insertEntries (feeHistoryLimit : ℕ) (entries : List (ℕ × FeeHistoryCacheItem Ratio)) :
    Option (FeeHistoryCache Ratio) :=
  entries.foldlM (insertCacheEntry feeHistoryLimit) ∅

/-- The cache holds the blocks from `low` to `high`. -/
structure Window (cache : FeeHistoryCache Ratio) (low high : ℕ) : Prop where
  le : low ≤ high
  mem : ∀ {number}, number ∈ cache ↔ low ≤ number ∧ number ≤ high

variable {cache : FeeHistoryCache Ratio}

theorem Window.size {low high : ℕ} (window : Window cache low high) :
    cache.size = high + 1 - low := by
  have perm : cache.keys.Perm (range' low (high + 1 - low)) := by
    refine (perm_ext_iff_of_nodup cache.keys_nodup nodup_range').mpr fun number => ?_
    rw [mem_range'_1, ← AList.mem_keys, window.mem]
    omega
  have length := perm.length_eq
  rw [length_range', AList.keys, List.keys, length_map] at length
  exact length

theorem insertCacheEntry_of_size_le {entry : ℕ × FeeHistoryCacheItem Ratio} {limit : ℕ}
    (fits : (cache.insert entry.1 entry.2).size ≤ limit) :
    insertCacheEntry limit cache entry = some (cache.insert entry.1 entry.2) := by
  simp [insertCacheEntry, Nat.sub_eq_zero_of_le fits]

/-- The number of the last block again, or the next one, moves the window. -/
theorem Window.insertCacheEntry {low high limit : ℕ} {entry : ℕ × FeeHistoryCacheItem Ratio}
    (window : Window cache low high) (bounded : cache.size ≤ limit)
    (near : entry.1 = high ∨ entry.1 = high + 1) :
    ∃ after lower, insertCacheEntry limit cache entry = some after ∧
      Window after lower entry.1 ∧ after.size ≤ limit ∧
      after.lookup entry.1 = some entry.2 := by
  have ordered := window.le
  have inserted : Window (cache.insert entry.1 entry.2) low entry.1 := by
    refine ⟨by omega, ?_⟩
    intro number
    rw [mem_insert, window.mem]
    omega
  have found : (cache.insert entry.1 entry.2).lookup entry.1 = some entry.2 := lookup_insert _
  have size := inserted.size
  rw [window.size] at bounded
  by_cases fits : (cache.insert entry.1 entry.2).size ≤ limit
  · exact ⟨_, low, insertCacheEntry_of_size_le fits, inserted, fits, found⟩
  -- the window was full, so the entry that leaves is its first one
  have one : (cache.insert entry.1 entry.2).size - limit = 1 := by omega
  have first : entry.1 - limit = low := by omega
  have shifted : Window ((cache.insert entry.1 entry.2).erase low) (low + 1) entry.1 := by
    refine ⟨by omega, ?_⟩
    intro number
    rw [mem_erase, inserted.mem]
    omega
  refine ⟨_, low + 1, ?_, shifted, ?_, ?_⟩
  · simp [Api.insertCacheEntry, one, first]
  · rw [shifted.size]
    omega
  · rw [lookup_erase_ne (by omega)]
    exact found

/-- While the block number does not jump, the cache keeps to its limit and
holds each entry when it was inserted. -/
theorem insertEntries_bounded (feeHistoryLimit : ℕ) (positive : 1 ≤ feeHistoryLimit)
    (entries : List (ℕ × FeeHistoryCacheItem Ratio))
    (near : entries.IsChain fun earlier later => later.1 = earlier.1 ∨ later.1 = earlier.1 + 1) :
    ∀ earlier entry, earlier ++ [entry] <+: entries →
      ∃ cache, insertEntries feeHistoryLimit (earlier ++ [entry]) = some cache ∧
        cache.size ≤ feeHistoryLimit ∧
        cache.lookup entry.1 = some entry.2 := by
  intro earlier entry shorter
  suffices reached : ∃ cache low, insertEntries feeHistoryLimit (earlier ++ [entry]) = some cache ∧
      Window cache low entry.1 ∧ cache.size ≤ feeHistoryLimit ∧
      cache.lookup entry.1 = some entry.2 by
    obtain ⟨cache, _, inserted, _, holds⟩ := reached
    exact ⟨cache, inserted, holds⟩
  have last : ∀ {earlier : List (ℕ × FeeHistoryCacheItem Ratio)} {entry},
      insertEntries feeHistoryLimit (earlier ++ [entry]) =
        (insertEntries feeHistoryLimit earlier).bind
          (insertCacheEntry feeHistoryLimit · entry) := by
    simp [insertEntries]
  rw [last]
  induction earlier using reverseRecOn generalizing entry with
  | nil =>
    have window : Window ((∅ : FeeHistoryCache Ratio).insert entry.1 entry.2) entry.1 entry.1 := by
      refine ⟨le_rfl, ?_⟩
      intro number
      rw [mem_insert]
      simp [le_antisymm_iff, and_comm]
    have fits : ((∅ : FeeHistoryCache Ratio).insert entry.1 entry.2).size ≤
        feeHistoryLimit := by
      rw [window.size]
      omega
    exact ⟨_, _, insertCacheEntry_of_size_le fits, window, fits, lookup_insert _⟩
  | append_singleton earlier previous ih =>
    obtain ⟨cache, low, inserted, window, bounded, _⟩ := ih previous
      ((prefix_append _ _).trans shorter)
    have chain := near.prefix shorter
    rw [append_assoc] at chain
    obtain ⟨after, lower, next, holds⟩ := window.insertCacheEntry bounded
      (isChain_append_cons_cons.mp chain).2.1
    refine ⟨after, lower, ?_, holds⟩
    rw [last, inserted]
    exact next

/-- An entry that differs from others by its base fee. -/
def feeItem (baseFee : ℕ) : FeeHistoryCacheItem Unit where
  baseFee := baseFee
  gasUsedRatio := ()
  baseFeePerBlobGas := none
  blobGasUsedRatio := ()
  rewards := []

theorem insertEntries_bounded_twoBlocks :
    ∃ cache, insertEntries 1 [(7, feeItem 1), (8, feeItem 2)] = some cache ∧
      cache.size ≤ 1 ∧ cache.lookup 8 = some (feeItem 2) :=
  insertEntries_bounded 1 le_rfl [(7, feeItem 1), (8, feeItem 2)]
    (by simp) [(7, feeItem 1)] (8, feeItem 2) (prefix_refl _)

/-- After a jump back the cache exceeds its limit, loses the new entry, or
underflows. -/
theorem insertEntries_jump_back :
    (insertEntries 1 [(5, feeItem 1), (3, feeItem 2)]).map (·.size) = some 2 ∧
      (insertEntries 1 [(5, feeItem 1), (0, feeItem 2)]).map (·.lookup 0) = some none ∧
      insertEntries 1 [(5, feeItem 1), (3, feeItem 2), (0, feeItem 3)] =
        none := by
  decide +kernel

/-- What `fee_history` reads of a node that is no fork. -/
structure FeeNode (Ratio : Type) where
  bestNumber : ℕ
  feeHistoryLimit : ℕ
  cache : FeeHistoryCache Ratio
  nextBaseFee : ℕ
  nextBaseFeePerBlobGas : ℕ

structure FeeHistory (Ratio : Type) where
  oldestBlock : ℕ
  baseFeePerGas : List ℕ
  gasUsedRatio : List Ratio
  reward : List (List ℕ)
  baseFeePerBlobGas : List ℕ
  blobGasUsedRatio : List Ratio

def collectHistory (node : FeeNode Ratio) (lowest highest : ℕ)
    (percentiles : List ℕ) : FeeHistory Ratio :=
  let items := (rangeInclusive lowest highest).filterMap node.cache.lookup
  { oldestBlock := lowest
    baseFeePerGas := items.map (·.baseFee) ++ [node.nextBaseFee]
    gasUsedRatio := items.map (·.gasUsedRatio)
    reward :=
      if percentiles = [] then []
      else items.map fun item => percentiles.map fun index => item.rewards[index]?.getD 0
    baseFeePerBlobGas :=
      items.map (fun item => item.baseFeePerBlobGas.getD 0) ++ [node.nextBaseFeePerBlobGas]
    blobGasUsedRatio := items.map (·.blobGasUsedRatio) }

/-- `fee_history`, or `none` for an invalid block range. -/
def feeHistory (node : FeeNode Ratio) (blockCount : ℕ)
    (newestBlock : BlockNumber) (percentiles : List ℕ) :
    Option (FeeHistory Ratio) :=
  let highest := feeHistoryNumber node.bestNumber newestBlock
  let lowest := highest - (min blockCount 1024 - 1)
  if lowest < node.bestNumber - node.feeHistoryLimit then none
  else some (collectHistory node lowest highest percentiles)

/-- The base fee of a block, also of the one behind the best block. -/
def baseFeeOf (node : FeeNode Ratio) (item : ℕ → FeeHistoryCacheItem Ratio) (number : ℕ) : ℕ :=
  if number ≤ node.bestNumber then (item number).baseFee else node.nextBaseFee

/-- The history has one entry for each block from the oldest one to `newest`,
and the base fee of the block behind. -/
structure Aligned (node : FeeNode Ratio) (item : ℕ → FeeHistoryCacheItem Ratio) (newest : ℕ)
    (percentiles : List ℕ) (history : FeeHistory Ratio) : Prop where
  baseFees : history.baseFeePerGas = (rangeInclusive history.oldestBlock newest).map
    (fun number => (item number).baseFee) ++ [baseFeeOf node item (newest + 1)]
  ratios : history.gasUsedRatio =
    (rangeInclusive history.oldestBlock newest).map fun number => (item number).gasUsedRatio
  rewards : history.reward = if percentiles = [] then []
    else (rangeInclusive history.oldestBlock newest).map fun number =>
      percentiles.map fun index => (item number).rewards[index]?.getD 0

/-- Blocks 0 to 2 with base fees 7, 8 and 9; the next block will have 10. -/
def threeBlocks : FeeNode Unit where
  bestNumber := 2
  feeHistoryLimit := 10
  cache := ((∅ : FeeHistoryCache Unit).insert 0 (feeItem 7)).insert 1
    (feeItem 8) |>.insert 2 (feeItem 9)
  nextBaseFee := 10
  nextBaseFeePerBlobGas := 1

end SwissledgerFoundry.Api
