import SwissledgerFoundry.Cheatcodes.EmitCounts
import SwissledgerFoundry.Collections.Transition

/-!
# The queue of expected logs

A log changes the first entry of the queue that has not been found, and no
other.
-/

namespace SwissledgerFoundry.Cheatcodes

open Expectation List Transition

/-- Every entry of the queue belongs to a filled expectation. -/
def Filled (depth : ℕ) (expectedEmits : ExpectedEmitTracker) : Prop :=
  ∀ entry ∈ expectedEmits, ∃ (expectation : Expectation) (found : Bool)
    (mismatchError : Option String),
    entry.1 = expectation.emitted depth found mismatchError

theorem checkEvent_eq (context : EmitContext) (expectation : Expectation)
    (depth : ℕ) (mismatchError : Option String) (countMap : CountMap)
    (log : Log) :
    ∃ message, checkEvent context (expectation.emitted depth false mismatchError) expectation.log
      countMap log = expectation.emitted depth (expectation.accepts log &&
          countReached context (expectation.emitted depth false mismatchError) countMap log)
          message := by
  rw [accepts, passesChecks]
  show ∃ message, (if (!checksTopicsAndData expectation.checks
    expectation.log log.data) = true then _ else _) = _
  cases passes : checksTopicsAndData expectation.checks expectation.log log.data with
  | false => exact ⟨some _, rfl⟩
  | true =>
    have emitter : expectation.fromEmitter log =
        (expectation.address.filter (· != log.address)).isNone := by
      cases address : expectation.address with
      | none => simp [fromEmitter, address]
      | some emitter =>
        by_cases same : emitter = log.address
        · simp [fromEmitter, address, same, Option.filter_some]
        · simp [fromEmitter, address, same, Option.filter_some]
    have sameAddress : (expectation.emitted depth false
        mismatchError).address = expectation.address := rfl
    have compared : ¬ (!true) = true := Bool.false_ne_true
    rw [emitter, sameAddress]
    cases expectation.address.filter (· != log.address) with
    | none => exact ⟨mismatchError, rfl⟩
    | some other => exact ⟨some _, rfl⟩

namespace Filled

section

variable {depth : ℕ} {expectedEmits : ExpectedEmitTracker} (filled : Filled depth expectedEmits)

include filled

theorem count_pos {entry : ExpectedEmit × CountMap} (member : entry ∈ expectedEmits) :
    0 < entry.1.count := by
  obtain ⟨expectation, found, message, equal⟩ := filled entry member
  rw [equal]
  exact expectation.positive

theorem not_shouldFillLogs : shouldFillLogs expectedEmits = false := by
  rw [shouldFillLogs, any_eq_false]
  intro entry member
  obtain ⟨expectation, found, message, equal⟩ := filled entry member
  rw [equal]
  exact Bool.false_ne_true

theorem not_forbids (log : Log) : (expectedEmits.any fun entry => forbids entry.1 log) = false := by
  rw [any_eq_false]
  intro entry member
  have positive := filled.count_pos member
  have counted : (entry.1.count == 0) = false := by
    rw [beq_eq_false_iff_ne]
    omega
  simp [forbids, counted]

end

end Filled

variable {expectation : Expectation}

theorem handleExpectEmit_of_head {mismatchError : Option String} {countMap : CountMap} {depth : ℕ}
    {after : ExpectedEmitTracker}
    (filled : Filled depth ((expectation.emitted depth false mismatchError, countMap) :: after))
    (context : EmitContext) (log : Log) :
    ∃ message,
      let counts := recordLog expectation.checks expectation.log countMap log
      let found := expectation.accepts log && countReached context
        (expectation.emitted depth false mismatchError) counts log
      (handleExpectEmit context ((expectation.emitted depth false mismatchError, countMap) :: after)
        log).1 =
        if found then
          after ++ [(expectation.emitted depth found message, counts)]
        else (expectation.emitted depth found message, counts) :: after := by
  obtain ⟨message, event⟩ := checkEvent_eq context expectation depth mismatchError
    (recordLog expectation.checks expectation.log countMap log) log
  have unfilled := filled.not_shouldFillLogs
  have allowed := filled.not_forbids log
  have positive := expectation.positive
  have unequal : expectation.count ≠ 0 := Nat.ne_of_gt positive
  have index : ((expectation.emitted depth false mismatchError, countMap) ::
      after).findIdx? (fun entry =>
        !entry.1.found && decide (0 < entry.1.count)) = some 0 := by
    simp [emitted, findIdx?_cons, positive]
  have missing : ((expectation.emitted depth false mismatchError, countMap) ::
      after).all (·.1.found) = false := by
    simp [emitted]
  have wanted : ((expectation.emitted depth false mismatchError, countMap) ::
      after).all (fun entry => entry.1.found || entry.1.count == 0) =
        false := by
    simp [emitted, unequal]
  have handled : (handleExpectEmit context
      ((expectation.emitted depth false mismatchError, countMap) :: after)
      log).1 =
      let counts := recordLog expectation.checks expectation.log countMap log
      let event := checkEvent context
        (expectation.emitted depth false mismatchError) expectation.log
        counts log
      if event.found then after ++ [(event, counts)]
      else (event, counts) :: after := by
    simp only [handleExpectEmit, missing, allowed, unfilled, wanted,
      indexToFillOrCheck, index, Option.getD_some, Bool.false_eq_true, if_false,
      Bool.and_false, getElem?_cons_zero, eraseIdx_cons_zero]
    show Prod.fst (if (checkEvent context (expectation.emitted depth false
      mismatchError) expectation.log (recordLog expectation.checks
        expectation.log countMap log) log).found = true then _ else _) = _
    split <;> rfl
  simp only [event] at handled
  exact ⟨message, handled⟩

/-- A log and the circumstances it is handled in. -/
structure Emission where
  context : EmitContext
  log : Log

def handleEmission (expectedEmits : ExpectedEmitTracker)
    (emission : Emission) : ExpectedEmitTracker :=
  (handleExpectEmit emission.context expectedEmits emission.log).1

/-- `expectEmit` with the log that fills the expectation. -/
def declare (context : EmitContext) (emitter : Address) (depth : ℕ)
    (expectedEmits : ExpectedEmitTracker) (expectation : Expectation) : ExpectedEmitTracker :=
  (handleExpectEmit context (expectEmit expectedEmits depth expectation.checks
    expectation.address expectation.anonymous expectation.count)
    { address := emitter, data := expectation.log }).1

/-- The queue after the expectations have been declared and filled. -/
def declared (depth : ℕ) (expectations : List Expectation) : ExpectedEmitTracker :=
  expectations.map fun expectation => (expectation.emitted depth false none, ∅)

/-- A declaration and the log that fills it put the expectation behind the
ones declared before. -/
theorem declare_declared (context : EmitContext) (emitter : Address) (depth : ℕ)
    (expectations : List Expectation) (expectation : Expectation) :
    declare context emitter depth (declared depth expectations) expectation =
      declared depth (expectations ++ [expectation]) := by
  have filled : Filled depth (declared depth expectations) := by
    intro entry member
    obtain ⟨earlier, -, rfl⟩ := mem_map.mp member
    exact ⟨earlier, false, none, rfl⟩
  have unfound : (declared depth expectations).findIdx? (·.1.found) =
      none := by
    rw [findIdx?_eq_none_iff]
    intro entry member
    obtain ⟨earlier, -, rfl⟩ := mem_map.mp member
    rfl
  have appended : declared depth (expectations ++ [expectation]) =
      declared depth expectations ++ [(expectation.emitted depth false none, ∅)] := map_append
  have allowed := filled.not_forbids { address := emitter, data := expectation.log }
  rw [declare, expectEmit, appended]
  simp only [handleExpectEmit, shouldFillLogs, indexToFillOrCheck,
    all_append, any_append, findIdx?_append, unfound, allowed]
  simp [forbids, expectation.named, emitted]

theorem run_declare (context : EmitContext) (emitter : Address) (depth : ℕ)
    (expectations : List Expectation) :
    run (declare context emitter depth) [] expectations = declared depth expectations := by
  induction expectations using reverseRecOn with
  | nil => rfl
  | append_singleton earlier expectation ih =>
    rw [run_append, ih]
    exact declare_declared context emitter depth earlier expectation

end SwissledgerFoundry.Cheatcodes
