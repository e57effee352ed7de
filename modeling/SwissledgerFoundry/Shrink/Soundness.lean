import SwissledgerFoundry.Shrink.Search

/-!
# Soundness of the shrinking searches

A failing sequence shrinks to a failing sequence exactly if the last candidate
that stays dropped did not make the execution return an error.  An optimization
sequence keeps its value exactly if the last accepted candidate does not owe it
to the delays after its last call.
-/

namespace SwissledgerFoundry.Shrink

open UInt32 List Except CallSequenceShrinker

variable {shouldStop : ℕ → Bool} {config : InvariantConfig} {Rest World Outcome Decoder Err : Type}
variable (evm : Evm Rest World Outcome Decoder Err)
variable (contract : InvariantContract) (calls : List BasicTxDetails)
variable (executor : Executor Rest World)

def candidateCheck (config : InvariantConfig) (expectAssertionFailure : Bool)
    (sequence : List BasicTxDetails)
    (candidate : List (Fin sequence.length)) :
    Except (Report Err) Verdict :=
  checkSequence evm executor sequence candidate contract.address contract.selector
    (shrinkOptions Decoder config contract expectAssertionFailure)

/-- A check that reports a broken invariant. -/
def ReportsFailure (outcome : Except (Report Err) Verdict) : Prop :=
  ∃ entirely reason, outcome = .ok (false, entirely, reason)

variable {outcome : Except (Report Err) Verdict}

theorem judgeFailure_eq_keep_iff : judgeFailure outcome = .keep ↔ ReportsFailure outcome := by
  rcases outcome with error | ⟨success, entirely, reason⟩
  · simp [judgeFailure, ReportsFailure]
  · cases success <;> simp [judgeFailure, ReportsFailure]

theorem judgeFailure_eq_skip_iff :
    judgeFailure outcome = .skip ↔ ∃ error, outcome = .error error := by
  rcases outcome with error | ⟨success, entirely, reason⟩
  · simp [judgeFailure]
  · cases success <;> simp [judgeFailure]

def judgeCandidate (config : InvariantConfig) (expectAssertionFailure : Bool)
    (candidate : CallSequenceShrinker calls.length) :
    Except (Report Err) Judgement :=
  .ok (judgeFailure (candidateCheck evm contract executor config
    expectAssertionFailure calls candidate.current))

/-- A returned sequence keeps a subsequence of the calls and breaks the
invariant when it is replayed in full. -/
def StillFails (config : InvariantConfig) (expectAssertionFailure : Bool)
    (sequence : List BasicTxDetails) : Prop :=
  (sequence.map BasicTxDetails.identity).Sublist (calls.map BasicTxDetails.identity) ∧
    ReportsFailure (candidateCheck evm contract executor config
      expectAssertionFailure sequence (finRange sequence.length))

/-- Of the candidates that are examined within the run limit, each one whose
execution returns an error is followed by one that reports a failure. -/
def ErrorsRecovered (config : InvariantConfig) (expectAssertionFailure : Bool)
    (shouldStop : ℕ → Bool) : Prop :=
  ∀ front candidate back,
    examined (judgeCandidate evm contract calls executor config expectAssertionFailure)
        shouldStop config.shrinkRunLimit.toNat 0 0 (.new calls.length) =
      front ++ candidate :: back →
    (∃ error, candidateCheck evm contract executor config expectAssertionFailure calls
      candidate.current = .error error) →
    ∃ later ∈ back, ReportsFailure (candidateCheck evm contract executor config
      expectAssertionFailure calls later.current)

theorem stillFails_build_iff (config : InvariantConfig) (expectAssertionFailure : Bool)
    (shrinker : CallSequenceShrinker calls.length) :
    StillFails evm contract calls executor config expectAssertionFailure
        (buildShrunkSequence calls shrinker config.hasDelay) ↔
      judgeCandidate evm contract calls executor config
        expectAssertionFailure shrinker = .ok .keep := by
  have replayed := checkSequence_buildShrunkSequence evm executor calls
    shrinker contract.address contract.selector
    (shrinkOptions Decoder config contract expectAssertionFailure)
  simp only [StillFails, candidateCheck, judgeCandidate, ok.injEq, judgeFailure_eq_keep_iff]
  rw [show config.hasDelay = (shrinkOptions Decoder config contract
    expectAssertionFailure).accumulateWarpRoll from rfl, replayed]
  exact and_iff_right (buildShrunkSequence_sublist calls shrinker _)

/-- `shrink_sequence` runs the search loop once the invariant is known to hold
without calls. -/
theorem shrinkSequence_eq_map {result : RawCallResult Outcome} {expectAssertionFailure : Bool}
    (holds : callInvariantFunction evm executor contract.address
      contract.selector = .ok (result, true)) :
    shrinkSequence evm config contract calls expectAssertionFailure executor shouldStop =
      (shrinkLoop (judgeCandidate evm contract calls executor config
        expectAssertionFailure) shouldStop config.shrinkRunLimit.toNat 0 0
        (.new calls.length)).map (buildShrunkSequence calls · config.hasDelay) := by
  simp only [shrinkSequence, holds, bind, bind]
  rfl

/-- An EVM whose second committed call breaks the invariant.  A call with
calldata `[2]` cannot be executed before another call was committed. -/
def brittleEvm : Evm Unit ℕ Unit Unit Unit where
  callRaw executor _ _ calldata _ :=
    if calldata = [2] ∧ executor.world = 0 then .error ()
    else .ok { reverted := false, result := [], outcome := () }
  commit executor _ := { executor with world := executor.world + 1 }
  isRawCallMutSuccess executor _ callResult _ := (decide (executor.world < 2), callResult)
  hasGlobalFailure _ _ := false
  didFailOnAssert _ := false
  intoEvmError _ _ := .other
  afterInvariantSelector := []

def brittleExecutor : Executor Unit ℕ :=
  { blockEnv := { timestamp := 0, number := 0, rest := () }, cheatcodes := none, world := 0 }

def demoContract : InvariantContract :=
  { address := 0, selector := [1, 2, 3, 4], callAfterInvariant := false }

def demoCall (warp : Option U256) (calldata : Bytes) : BasicTxDetails :=
  { warp := warp, roll := none, sender := 1, callDetails := { target := 2, calldata := calldata } }

def demoConfig (limit : UInt32) : InvariantConfig :=
  { shrinkRunLimit := limit, failOnRevert := false, maxTimeDelay := none, maxBlockDelay := none }

def candidateValue (sequence : List BasicTxDetails) (candidate : List (Fin sequence.length)) :
    Except (Report Err) (Option I256) :=
  checkSequenceValue evm executor sequence candidate contract.address contract.selector

/-- The same value when the delays after the last kept call are left out. -/
def candidateUntrailedValue (candidate : List (Fin calls.length)) :
    Except (Report Err) (Option I256) :=
  valueWithoutTrailingDelay evm executor calls candidate contract.address contract.selector

def judgeCandidateValue (targetValue : I256) (candidate : CallSequenceShrinker calls.length) :
    Except (Report Err) Judgement :=
  (candidateValue evm contract executor calls candidate.current).map (judgeValue targetValue)

variable {targetValue : I256}

theorem judgeCandidateValue_spec {candidate : CallSequenceShrinker calls.length} :
    (judgeCandidateValue evm contract calls executor targetValue candidate = .ok .keep ↔
      candidateValue evm contract executor calls candidate.current = .ok (some targetValue)) ∧
    judgeCandidateValue evm contract calls executor targetValue candidate ≠ .ok .skip := by
  unfold judgeCandidateValue
  cases candidateValue evm contract executor calls candidate.current with
  | error error => simp [Except.map]
  | ok value =>
    by_cases reaches : value = some targetValue <;> simp [Except.map, judgeValue, reaches]

/-- The empty candidate does not owe the target to the delays of the dropped
calls; and each candidate that is examined within the run limit and owes it to
the delays after its last kept call is followed by one that reaches the target,
too, or ends the search with an error. -/
structure NoTrailingDelayNeeded (config : InvariantConfig) (targetValue : I256)
    (shouldStop : ℕ → Bool) : Prop where
  empty : candidateValue evm contract executor calls [] = .ok (some targetValue) →
    candidateUntrailedValue evm contract calls executor [] = .ok (some targetValue)
  accepted : ∀ value, candidateValue evm contract executor calls [] = .ok value →
    value ≠ some targetValue →
    ∀ front candidate back, examined (judgeCandidateValue evm contract calls executor targetValue)
        shouldStop config.shrinkRunLimit.toNat 0 0 (.new calls.length) =
      front ++ candidate :: back →
    candidateValue evm contract executor calls candidate.current = .ok (some targetValue) →
    candidateUntrailedValue evm contract calls executor candidate.current =
        .ok (some targetValue) ∨
      ∃ later ∈ back,
        candidateValue evm contract executor calls later.current = .ok (some targetValue) ∨
          ∃ error, candidateValue evm contract executor calls later.current = .error error

private theorem sequenceValueLoop_full_no_delay {calls : List BasicTxDetails}
    {idx : ℕ} {executor : Executor Rest World} {final : Executor Rest World × U256 × U256}
    (executed : sequenceValueLoop evm idx calls
      (range' idx calls.length) 0 0 executor = .ok final) :
    final.2 = (0, 0) := by
  induction calls generalizing idx executor with
  | nil =>
    simp only [sequenceValueLoop, ok.injEq] at executed
    subst final
    rfl
  | cons call calls ih =>
    simp only [length_cons, range'_succ, sequenceValueLoop,
      head?_cons, if_true, tail_cons] at executed
    split at executed
    · cases executed
    · exact ih executed

private theorem candidateUntrailedValue_full :
    candidateUntrailedValue evm contract calls executor (finRange calls.length) =
      candidateValue evm contract executor calls (finRange calls.length) := by
  simp only [candidateUntrailedValue, candidateValue,
    valueWithoutTrailingDelay, checkSequenceValue, finRange_map_val]
  cases executed : sequenceValueLoop evm 0 calls (range' 0 calls.length) 0 0 executor with
  | error error => rfl
  | ok final =>
    obtain ⟨final, warp, roll⟩ := final
    have noDelay := sequenceValueLoop_full_no_delay evm executed
    cases noDelay
    exact congrArg (invariantValue evm contract.address contract.selector)
      (applyWarpRollToEnv_zero final).symm

private theorem sequenceValueLoop_no_calls (idx : ℕ) (warp roll : U256) :
    ∃ trailing, sequenceValueLoop evm idx calls [] warp roll executor =
      .ok (executor, trailing) := by
  induction calls generalizing idx warp roll with
  | nil => exact ⟨(warp, roll), rfl⟩
  | cons call calls ih =>
    obtain ⟨trailing, executed⟩ := ih (idx + 1) (warp + call.warp.getD 0) (roll + call.roll.getD 0)
    exact ⟨trailing, by simpa [sequenceValueLoop] using executed⟩

private theorem candidateUntrailedValue_nil :
    candidateUntrailedValue evm contract calls executor [] =
      candidateValue evm contract executor [] (finRange 0) := by
  obtain ⟨trailing, executed⟩ := sequenceValueLoop_no_calls evm calls executor 0 0 0
  simp only [candidateUntrailedValue, valueWithoutTrailingDelay, map_nil]
  rw [executed]
  exact congrArg (invariantValue evm contract.address contract.selector)
    (applyWarpRollToEnv_zero executor).symm

private theorem candidateValue_build (shrinker : CallSequenceShrinker calls.length) :
    candidateValue evm contract executor (buildShrunkSequence calls shrinker true) (finRange _) =
      candidateUntrailedValue evm contract calls executor shrinker.current :=
  checkSequenceValue_buildShrunkSequence evm executor calls shrinker
    contract.address contract.selector

/-- `shrink_sequence_value` runs the search loop unless the empty candidate
already reaches the target. -/
private theorem shrinkSequenceValue_eq :
    shrinkSequenceValue evm config contract calls executor targetValue shouldStop =
      (candidateValue evm contract executor calls []).bind fun value =>
        if value = some targetValue then .ok []
        else (shrinkLoop (judgeCandidateValue evm contract calls executor
          targetValue) shouldStop config.shrinkRunLimit.toNat 0 0
          (.new calls.length)).map (buildShrunkSequence calls · true) :=
  rfl

/-- The loop returns a sequence that reaches the target if and only if the
examined candidates allow it. -/
private theorem shrinkLoop_untrailed_iff {limit : ℕ}
    (reaches : candidateValue evm contract executor calls
      (finRange calls.length) = .ok (some targetValue)) :
    (∀ final, shrinkLoop (judgeCandidateValue evm contract calls executor targetValue)
          shouldStop limit 0 0 (.new calls.length) = .ok final →
        candidateUntrailedValue evm contract calls executor final.current =
          .ok (some targetValue)) ↔
      ∀ front candidate back, examined (judgeCandidateValue evm contract calls executor targetValue)
          shouldStop limit 0 0 (.new calls.length) = front ++ candidate :: back →
        candidateValue evm contract executor calls candidate.current = .ok (some targetValue) →
        candidateUntrailedValue evm contract calls executor candidate.current =
            .ok (some targetValue) ∨
          ∃ later ∈ back,
            candidateValue evm contract executor calls later.current = .ok (some targetValue) ∨
              ∃ error, candidateValue evm contract executor calls later.current =
                .error error := by
  have spec {candidate} := @judgeCandidateValue_spec _ _ _ _ _ evm contract calls executor
    targetValue candidate
  have full : judgeCandidateValue evm contract calls executor targetValue (.new calls.length) =
      .ok .keep := spec.1.mpr ((current_new _).symm ▸ reaches)
  have errs (candidate) (error) : judgeCandidateValue evm contract calls executor targetValue
      candidate = .error error ↔
        candidateValue evm contract executor calls candidate.current = .error error := by
    unfold judgeCandidateValue
    cases candidateValue evm contract executor calls candidate.current <;> simp [Except.map]
  constructor
  · intro sound front candidate back whole target
    have keeps := spec.1.mpr target
    by_contra! lost
    cases looped : shrinkLoop (judgeCandidateValue evm contract calls executor targetValue)
        shouldStop limit 0 0 (.new calls.length) with
    | error error =>
      obtain ⟨last, found, fails⟩ := shrinkLoop_error looped
      rw [whole, getLast?_append, getLast?_cons, Option.some_or] at found
      cases ended : back.getLast? with
      | none =>
        obtain rfl : candidate = last := by simpa [ended] using found
        cases keeps.symm.trans fails
      | some other =>
        obtain rfl : other = last := by simpa [ended] using found
        exact (lost.2 other (mem_of_getLast? ended)).2 error ((errs other error).mp fails)
    | ok final =>
      have ends := shrinkLoop_ok (by simp [full]) looped
      rw [whole] at ends
      obtain ⟨-, restored⟩ | ends := ends
      · cases keeps.symm.trans (restored candidate (by simp))
      obtain rfl | later := ends.mem_back (by simp [keeps])
      · exact lost.1 (sound candidate looped)
      · obtain ⟨_, _, -, kept | skipped, -⟩ := ends
        · exact (lost.2 final later).1 (spec.1.mp kept)
        · exact spec.2 skipped
  · intro accepted final looped
    obtain ⟨rfl, -⟩ | ⟨front, back, whole, kept | skipped, restored⟩ :=
      shrinkLoop_ok (by simp [full]) looped
    · rw [current_new, candidateUntrailedValue_full]
      exact reaches
    · refine (accepted front final back whole (spec.1.mp kept)).resolve_right ?_
      rintro ⟨later, member, target | ⟨error, fails⟩⟩
      · cases (spec.1.mpr target).symm.trans (restored later member)
      · cases ((errs later error).mpr fails).symm.trans (restored later member)
    · exact absurd skipped spec.2

/-- An EVM whose invariant function returns 1 from timestamp 10 on, and 0
before. -/
def clockEvm : Evm Unit Unit Unit Unit Unit where
  callRaw executor _ _ _ _ :=
    .ok
      { reverted := false
        result := replicate 31 0 ++ [if executor.blockEnv.timestamp ≥ 10 then 1 else 0]
        outcome := () }
  commit executor _ := executor
  isRawCallMutSuccess _ _ callResult _ := (true, callResult)
  hasGlobalFailure _ _ := false
  didFailOnAssert _ := false
  intoEvmError _ _ := .other
  afterInvariantSelector := []

def clockExecutor (timestamp : U256) : Executor Unit Unit :=
  { blockEnv := { timestamp := timestamp, number := 0, rest := () }
    cheatcodes := none
    world := () }

end SwissledgerFoundry.Shrink
