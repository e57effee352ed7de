import Mathlib.Data.Nat.Dist
import SwissledgerFoundry.Collections.Loop

/-!
# The block closest to a timestamp

`cast find-block` bisects the blocks.  The timestamp of the low end is at most
the target, that of the high end at least.
-/

namespace SwissledgerFoundry.Cast

/-- `unwrap` on nothing. -/
inductive Panic where
  | unwrap
deriving DecidableEq

/-- `checked_sub`, with the `unwrap` after it. -/
def checkedSub (left right : ℕ) : Except Panic ℕ :=
  if right ≤ left then .ok (left - right) else .error .unwrap

/-- The variables of the loop. -/
structure BlockSearch where
  lowBlock : ℕ
  highBlock : ℕ
  matchingBlock : Option ℕ

namespace BlockSearch

variable (timestamp : ℕ → ℕ) (target : ℕ) (search : BlockSearch)

/-- The body of the loop. -/
def round : Except Panic BlockSearch := do
  let difference ← checkedSub search.highBlock search.lowBlock
  let midBlock ← checkedSub search.highBlock (difference / 2)
  if timestamp midBlock = target then
    return { search with matchingBlock := some midBlock }
  else
    let difference ← checkedSub search.highBlock search.lowBlock
    if difference = 1 then
      -- Rounds to the high block if both are equally far away.
      let highDiff ← checkedSub (timestamp search.highBlock) target
      let lowDiff ← checkedSub target (timestamp search.lowBlock)
      return { search with
        matchingBlock := some
          (if lowDiff < highDiff then search.lowBlock
          else search.highBlock) }
    else if timestamp midBlock < target then
      return { search with lowBlock := midBlock }
    else
      return { search with highBlock := midBlock }

def step : BlockSearch ⊕ Except Panic ℕ :=
  if search.lowBlock < search.highBlock ∧ search.matchingBlock = none then
    match search.round timestamp target with
    | .ok next => .inl next
    | .error panicked => .inr (.error panicked)
  else .inr (.ok (search.matchingBlock.getD search.lowBlock))

end BlockSearch

/-- `FindBlockArgs::run` up to the printing, with the number of rounds as
fuel. -/
def findBlock (timestamp : ℕ → ℕ) (lastBlockNum target fuel : ℕ) : Option (Except Panic ℕ) :=
  if timestamp lastBlockNum < target then some (.ok lastBlockNum)
  else if target < timestamp 1 then some (.ok 1)
  else Loop.run (BlockSearch.step timestamp target) fuel
    { lowBlock := 1, highBlock := lastBlockNum, matchingBlock := none }

section Search

variable {timestamp : ℕ → ℕ} {lastBlockNum target : ℕ}

/-- No block is closer to the target. -/
def Closest (timestamp : ℕ → ℕ) (lastBlockNum target block : ℕ) : Prop :=
  1 ≤ block ∧ block ≤ lastBlockNum ∧ ∀ other, 1 ≤ other → other ≤ lastBlockNum →
      Nat.dist (timestamp block) target ≤ Nat.dist (timestamp other) target

def Nondecreasing (timestamp : ℕ → ℕ) (lastBlockNum : ℕ) : Prop :=
  ∀ first second, 1 ≤ first → first ≤ second → second ≤ lastBlockNum →
    timestamp first ≤ timestamp second

theorem closest_of_eq {block : ℕ} (positive : 1 ≤ block)
    (inChain : block ≤ lastBlockNum) (same : timestamp block = target) :
    Closest timestamp lastBlockNum target block := by
  refine ⟨positive, inChain, fun other _ _ => ?_⟩
  rw [same, Nat.dist_self]
  exact Nat.zero_le _

/-- Among two neighbours that enclose the target, the nearer one is the
closest block of all. -/
theorem closest_of_neighbours {low block : ℕ} (ordered : Nondecreasing timestamp lastBlockNum)
    (positive : 1 ≤ low) (inChain : low + 1 ≤ lastBlockNum)
    (below : timestamp low ≤ target) (above : target ≤ timestamp (low + 1))
    (either : block = low ∨ block = low + 1)
    (nearLow : Nat.dist (timestamp block) target ≤ Nat.dist (timestamp low) target)
    (nearHigh : Nat.dist (timestamp block) target ≤ Nat.dist (timestamp (low + 1)) target) :
    Closest timestamp lastBlockNum target block := by
  refine ⟨by omega, by omega, fun other first last => ?_⟩
  by_cases side : other ≤ low
  · have earlier := ordered other low first side (by omega)
    refine nearLow.trans ?_
    simp only [Nat.dist]
    omega
  have later := ordered (low + 1) other (by omega) (by omega) last
  refine nearHigh.trans ?_
  simp only [Nat.dist]
  omega

/-- The ends enclose the target, and a match is a closest block. -/
structure BlockSearch.Bracketed (timestamp : ℕ → ℕ)
    (lastBlockNum target : ℕ) (search : BlockSearch) : Prop where
  positive : 1 ≤ search.lowBlock
  ordered : search.lowBlock ≤ search.highBlock
  inChain : search.highBlock ≤ lastBlockNum
  below : timestamp search.lowBlock ≤ target
  above : target ≤ timestamp search.highBlock
  matching : ∀ block, search.matchingBlock = some block →
    Closest timestamp lastBlockNum target block

/-- The rounds that are left: a match ends the loop. -/
def BlockSearch.remaining (search : BlockSearch) : ℕ :=
  if search.matchingBlock = none then
    search.highBlock - search.lowBlock + 1
  else 0

namespace BlockSearch

variable {search : BlockSearch}

variable (bracketed : search.Bracketed timestamp lastBlockNum target)
  (ordered : Nondecreasing timestamp lastBlockNum)

include bracketed ordered

theorem Bracketed.round (apart : search.lowBlock < search.highBlock)
    (unmatched : search.matchingBlock = none) :
    ∃ next, search.round timestamp target = .ok next ∧
      next.Bracketed timestamp lastBlockNum target ∧
      next.remaining < search.remaining := by
  obtain ⟨positive, _, inChain, below, above, _⟩ := bracketed
  obtain ⟨low, high, matching⟩ := search
  dsimp only at apart unmatched positive inChain below above
  subst unmatched
  have middle : (high - low) / 2 ≤ high := by omega
  simp only [BlockSearch.round, checkedSub, if_pos apart.le, if_pos middle,
    bind, Except.bind, pure, Except.pure]
  split
  · rename_i same
    refine ⟨_, rfl, ⟨positive, apart.le, inChain, below, above, ?_⟩, ?_⟩
    · intro block found
      cases found
      exact closest_of_eq (by omega) (by omega) same
    · simp [remaining]
  rename_i differs
  split
  · rename_i adjacent
    obtain rfl : high = low + 1 := by omega
    refine ⟨_, rfl, ⟨positive, apart.le, inChain, below, above, ?_⟩, ?_⟩
    · intro block found
      cases found
      apply closest_of_neighbours ordered positive inChain below above
      · split
        · exact .inl rfl
        · exact .inr rfl
      · split
        · exact le_rfl
        · simp only [Nat.dist]
          omega
      split
      · simp only [Nat.dist]
        omega
      · exact le_rfl
    · simp [remaining]
  rename_i distant
  split
  · rename_i early
    refine ⟨_, rfl, ⟨by dsimp only; omega, by dsimp only; omega, inChain,
        early.le, above, fun _ found => by cases found⟩, ?_⟩
    simp only [remaining, if_pos]
    omega
  rename_i late
  refine ⟨_, rfl,
    ⟨positive, by dsimp only; omega, by dsimp only; omega, below, Nat.le_of_not_lt late,
      fun _ found => by cases found⟩, ?_⟩
  simp only [remaining, if_pos]
  omega

theorem Bracketed.run {fuel : ℕ} (enough : search.remaining < fuel) :
    ∃ result, Loop.run (step timestamp target) fuel search = some result ∧
      ∃ block, result = .ok block ∧ Closest timestamp lastBlockNum target block := by
  apply Loop.run_ends (Bracketed timestamp lastBlockNum target) remaining _ _ bracketed enough
  · intro search next bracketed stepped
    simp only [step] at stepped
    split at stepped
    · rename_i goes
      obtain ⟨after, rounded, kept, lower⟩ := bracketed.round ordered goes.1 goes.2
      rw [rounded] at stepped
      cases stepped
      exact ⟨kept, lower⟩
    · cases stepped
  intro search result bracketed stepped
  simp only [step] at stepped
  split at stepped
  · rename_i goes
    obtain ⟨after, rounded, _⟩ := bracketed.round ordered goes.1 goes.2
    simp [rounded] at stepped
  rename_i stops
  cases stepped
  refine ⟨_, rfl, ?_⟩
  cases found : search.matchingBlock with
  | some block => exact bracketed.matching block found
  | none =>
    -- The ends have met, so both timestamps are the target.
    have met : search.lowBlock = search.highBlock := by
      have := bracketed.ordered
      simp only [found, and_true] at stops
      omega
    have above := bracketed.above
    rw [← met] at above
    exact closest_of_eq bracketed.positive (bracketed.ordered.trans bracketed.inChain)
      (le_antisymm bracketed.below above)

end BlockSearch

/-- The search ends without a panic, and the block it prints is a closest
one. -/
theorem findBlock_closest (atLeastOne : 1 ≤ lastBlockNum)
    (ordered : Nondecreasing timestamp lastBlockNum) (target : ℕ) {fuel : ℕ}
    (enough : lastBlockNum < fuel) :
    ∃ block, findBlock timestamp lastBlockNum target fuel = some (.ok block) ∧
      Closest timestamp lastBlockNum target block := by
  simp only [findBlock]
  split
  · rename_i late
    refine ⟨_, rfl, atLeastOne, le_rfl, fun other first last => ?_⟩
    have before := ordered other lastBlockNum first last le_rfl
    simp only [Nat.dist]
    omega
  rename_i reached
  split
  · rename_i early
    refine ⟨_, rfl, le_rfl, atLeastOne, fun other first last => ?_⟩
    have after := ordered 1 other le_rfl first last
    simp only [Nat.dist]
    omega
  rename_i started
  have bracketed : BlockSearch.Bracketed timestamp lastBlockNum target ⟨1, lastBlockNum, none⟩ :=
    ⟨le_rfl, atLeastOne, le_rfl, Nat.le_of_not_lt started,
      Nat.le_of_not_lt reached, fun _ found => by cases found⟩
  have rounds : BlockSearch.remaining ⟨1, lastBlockNum, none⟩ <
      fuel := by
    simp only [BlockSearch.remaining, if_pos]
    omega
  obtain ⟨result, found, block, rfl, closest⟩ := bracketed.run ordered rounds
  exact ⟨block, found, closest⟩

end Search

/-- Five blocks, two of them in the same second; the target is between the
third and the fourth block. -/
theorem findBlock_closest_between :
    ∃ block, findBlock (fun block => [0, 10, 12, 12, 20, 30].getD block 0) 5
        15 6 = some (.ok block) ∧
      Closest (fun block => [0, 10, 12, 12, 20, 30].getD block 0) 5 15
        block := by
  have each : ∀ second ≤ 5, ∀ first ≤ second, 1 ≤ first →
      [0, 10, 12, 12, 20, 30].getD first 0 ≤ [0, 10, 12, 12, 20, 30].getD second 0 := by
    decide
  apply findBlock_closest (by decide) _ 15 (by decide)
  intro first second positive before inChain
  exact each second inChain first before positive

end SwissledgerFoundry.Cast
