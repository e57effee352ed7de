import SwissledgerFoundry.Collections.Transition
import SwissledgerFoundry.Primitives

/-!
# Block timestamps

The timestamp of the next block is the one that was set for it, the last one
plus an interval, or the wall clock plus an offset.
-/

namespace SwissledgerFoundry.Chain

open List Transition UInt64

structure TimeManager where
  offset : ℤ
  lastTimestamp : UInt64
  nextExactTimestamp : Option UInt64
  interval : Option UInt64

namespace TimeManager

/-- `i128::saturating_add`. -/
def saturatingAdd (left right : ℤ) : ℤ := max (-2 ^ 127) (min (left + right) (2 ^ 127 - 1))

def new (startTimestamp : UInt64) (current : ℕ) : TimeManager where
  offset := startTimestamp.toNat - current
  lastTimestamp := startTimestamp
  nextExactTimestamp := none
  interval := none

/-- The error names a timestamp before the last one. -/
def setNextBlockTimestamp (time : TimeManager) (timestamp : UInt64) : Except UInt64 TimeManager :=
  if timestamp < time.lastTimestamp then .error timestamp
  else .ok { time with nextExactTimestamp := some timestamp }

section

variable (time : TimeManager) (current : ℕ)

/-- The next timestamp before it is compared with the last one. -/
def candidate : UInt64 :=
  match time.nextExactTimestamp, time.interval with
  | some next, _ => next
  | none, some interval => .ofNat (min (time.lastTimestamp.toNat + interval.toNat) u64Max)
  | none, none => .ofInt (saturatingAdd current time.offset)

def computeNextTimestamp : UInt64 × Option ℤ :=
  let next :=
    if time.candidate current < time.lastTimestamp then time.lastTimestamp + 1
    else time.candidate current
  (next, if time.nextExactTimestamp.isSome then some (next.toNat - current) else none)

def nextTimestamp : TimeManager × UInt64 :=
  let (next, nextOffset) := time.computeNextTimestamp current
  ({ time with
     nextExactTimestamp := none
     offset := nextOffset.getD time.offset
     lastTimestamp := next }, next)

/-- The candidate as an integer without bounds. -/
def value : ℤ :=
  match time.nextExactTimestamp, time.interval with
  | some next, _ => next.toNat
  | none, some interval => min (time.lastTimestamp.toNat + interval.toNat) u64Max
  | none, none => current + time.offset

/-- The next timestamp as an integer without bounds. -/
def unbounded : ℤ :=
  if time.value current < time.lastTimestamp.toNat then time.lastTimestamp.toNat + 1
  else time.value current

end

/-- The time is not before 1970, and a timestamp that was set is not before the
last one. -/
structure Valid (time : TimeManager) (current : ℕ) : Prop where
  positive : 0 ≤ current + time.offset
  ordered : ∀ next ∈ time.nextExactTimestamp, time.lastTimestamp ≤ next

variable {time : TimeManager} {current : ℕ} (valid : time.Valid current)
  (fits : time.unbounded current ≤ u64Max)

include valid fits

theorem Valid.toNat_candidate : (time.candidate current).toNat = time.value current := by
  have positive := valid.positive
  have bound := time.lastTimestamp.toNat_lt
  have small : time.value current < 2 ^ 64 := by
    unfold unbounded u64Max at fits
    split at fits <;> omega
  revert small
  unfold candidate value
  split
  · exact fun _ => rfl
  · intro _
    rw [toNat_ofNat_of_lt' (by unfold u64Max size; omega)]
    omega
  intro small
  have exact : saturatingAdd current time.offset = current + time.offset := by
    unfold saturatingAdd
    omega
  rw [exact, ofInt, toNat_ofNat_of_lt' (by unfold size; omega)]
  omega

theorem Valid.nextTimestamp : (time.nextTimestamp current).2.toNat = time.unbounded current ∧
      time.lastTimestamp ≤ (time.nextTimestamp current).2 ∧
      (time.nextTimestamp current).1.Valid current := by
  have value := valid.toNat_candidate fits
  have bound := time.lastTimestamp.toNat_lt
  rw [← and_assoc]
  constructor
  · simp only [TimeManager.nextTimestamp, computeNextTimestamp, le_iff_toNat_le, lt_iff_toNat_lt]
    unfold unbounded u64Max at *
    split
    · have more : (time.lastTimestamp + 1).toNat = time.lastTimestamp.toNat + 1 := by
        rw [UInt64.toNat_add, UInt64.toNat_one]
        split at fits <;> omega
      rw [if_pos (by omega), more]
      omega
    · rw [if_neg (by omega)]
      omega
  refine ⟨?_, fun _ none => by cases none⟩
  simp only [TimeManager.nextTimestamp, computeNextTimestamp]
  split
  · simp
  · exact valid.positive

end TimeManager

inductive TimeEvent where
  | wait (seconds : ℕ)
  | increaseTime (seconds : UInt64)
  | setNextBlockTimestamp (timestamp : UInt64)
  /-- `set_block_timestamp_interval` and `remove_block_timestamp_interval`. -/
  | setInterval (interval : Option UInt64)
  | nextTimestamp

/-- A time manager, the wall clock and the timestamps that were returned, the
last one first. -/
structure Clocked where
  time : TimeManager
  current : ℕ
  returned : List UInt64

namespace Clocked

def start (startTimestamp : UInt64) (current : ℕ) : Clocked where
  time := .new startTimestamp current
  current := current
  returned := []

def step (clocked : Clocked) : TimeEvent → Clocked
  | .wait seconds => { clocked with current := clocked.current + seconds }
  | .increaseTime seconds =>
    { clocked with time.offset := TimeManager.saturatingAdd clocked.time.offset seconds.toNat }
  | .setNextBlockTimestamp timestamp =>
    { clocked with
      time := (clocked.time.setNextBlockTimestamp timestamp).toOption.getD clocked.time }
  | .setInterval interval => { clocked with time.interval := interval }
  | .nextTimestamp =>
    let (time, next) := clocked.time.nextTimestamp clocked.current
    { clocked with time := time, returned := next :: clocked.returned }

def Fits (clocked : Clocked) : TimeEvent → Prop
  | .nextTimestamp => clocked.time.unbounded clocked.current ≤ u64Max
  | _ => True

def Quiet : TimeEvent → Prop
  | .nextTimestamp => False
  | .setNextBlockTimestamp _ => False
  | _ => True

structure Steady (clocked : Clocked) : Prop where
  valid : clocked.time.Valid clocked.current
  sorted : (clocked.time.lastTimestamp :: clocked.returned).Pairwise (· ≥ ·)

variable {clocked : Clocked}

theorem Steady.step {event : TimeEvent} (steady : clocked.Steady) (fits : clocked.Fits event) :
    (clocked.step event).Steady := by
  obtain ⟨⟨positive, ordered⟩, sorted⟩ := steady
  cases event with
  | wait seconds => exact ⟨⟨by simp only [Clocked.step]; omega, ordered⟩, sorted⟩
  | increaseTime seconds =>
    refine ⟨⟨?_, ordered⟩, sorted⟩
    simp only [Clocked.step, TimeManager.saturatingAdd]
    omega
  | setNextBlockTimestamp timestamp =>
    simp only [Clocked.step, TimeManager.setNextBlockTimestamp]
    split
    · exact ⟨⟨positive, ordered⟩, sorted⟩
    refine ⟨⟨positive, ?_⟩, sorted⟩
    rintro _ ⟨⟩
    exact UInt64.not_lt.mp ‹_›
  | setInterval interval => exact ⟨⟨positive, ordered⟩, sorted⟩
  | nextTimestamp =>
    obtain ⟨_, later, valid⟩ := TimeManager.Valid.nextTimestamp ⟨positive, ordered⟩ fits
    have below : ∀ other ∈ clocked.returned, other ≤ (clocked.time.nextTimestamp _).2 :=
      fun other member => UInt64.le_trans ((pairwise_cons.mp sorted).1 other member) later
    refine ⟨valid, pairwise_cons.mpr ⟨?_, pairwise_cons.mpr ⟨below, sorted.of_cons⟩⟩⟩
    exact forall_mem_cons.mpr ⟨UInt64.le_refl _, below⟩

theorem run_quiet {quiet : List TimeEvent} (each : ∀ event ∈ quiet, Quiet event)
    (clocked : Clocked) :
    (run step clocked quiet).time.nextExactTimestamp = clocked.time.nextExactTimestamp ∧
      (run step clocked quiet).time.lastTimestamp = clocked.time.lastTimestamp := by
  induction quiet generalizing clocked with
  | nil => exact ⟨rfl, rfl⟩
  | cons event quiet ih =>
    obtain ⟨own, later⟩ := forall_mem_cons.mp each
    refine (ih later (clocked.step event)).imp (·.trans ?_) (·.trans ?_)
    · cases event <;> first | exact own.elim | rfl
    · cases event <;> first | exact own.elim | rfl

/-- The timestamps that are returned do not go back and are computed without
wrapping around, and a timestamp that is accepted is the next one returned, as
long as the next timestamps fit into 64 bits. -/
theorem run_timestamps (startTimestamp : UInt64) (current : ℕ) (events : List TimeEvent)
    (fits : Along step Fits (start startTimestamp current) events) :
    ∀ reached, reached <+: events →
      let clocked := run step (start startTimestamp current) reached
      clocked.returned.Pairwise (· ≥ ·) ∧
      (clocked.Fits .nextTimestamp → (clocked.time.nextTimestamp clocked.current).2.toNat =
        clocked.time.unbounded clocked.current) ∧
      ∀ timestamp quiet, (clocked.time.setNextBlockTimestamp timestamp).isOk →
        (∀ event ∈ quiet, Quiet event) →
        (run step clocked (.setNextBlockTimestamp timestamp ::
          (quiet ++ [.nextTimestamp]))).returned.head? = some timestamp := by
  intro reached shorter
  have steady : (run step (start startTimestamp current) reached).Steady := by
    refine invariant_along Steady (fun _ _ steady fits => steady.step fits)
      ⟨⟨?_, fun _ none => by cases none⟩, pairwise_singleton _ _⟩ fits reached shorter
    simp [start, TimeManager.new]
  generalize run step (start startTimestamp current) reached = clocked at steady ⊢
  refine ⟨steady.sorted.of_cons, fun next => (steady.valid.nextTimestamp next).1, ?_⟩
  intro timestamp quiet accepted each
  obtain ⟨exact, last⟩ := run_quiet each (clocked.step (.setNextBlockTimestamp timestamp))
  rw [run_cons, run_append]
  generalize run step (clocked.step _) quiet = before at exact last
  simp only [step, TimeManager.setNextBlockTimestamp] at accepted exact last
  split at accepted
  · cases accepted
  rename_i later
  rw [if_neg later] at exact last
  replace exact : before.time.nextExactTimestamp = some timestamp := exact
  replace last : before.time.lastTimestamp = clocked.time.lastTimestamp := last
  change some (if before.time.candidate _ < _ then _ else before.time.candidate _) = _
  simp only [TimeManager.candidate, exact, last, if_neg later]

theorem run_timestamps_twice :
    (run step (start 3 0) [.nextTimestamp, .nextTimestamp]).returned.Pairwise (· ≥ ·) :=
  (run_timestamps 3 0 [.nextTimestamp, .nextTimestamp]
    ⟨by unfold Fits; decide +kernel, by unfold Fits; decide +kernel, trivial⟩ _ prefix_rfl).1

/-- The timestamp after the largest one is zero. -/
theorem timestamps_go_back :
    (run step (start 0 0) [.setNextBlockTimestamp (.ofNat u64Max), .nextTimestamp,
      .wait 1, .nextTimestamp]).returned = [0, .ofNat u64Max] := by
  decide +kernel

end Clocked

end SwissledgerFoundry.Chain
