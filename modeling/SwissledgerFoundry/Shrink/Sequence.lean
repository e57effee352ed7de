import Mathlib.Data.Finset.Card
import Mathlib.Data.List.FinRange
import SwissledgerFoundry.Shrink.Executor

/-!
# Shrinking a call sequence

Calls are dropped one at a time and each candidate is executed from the initial
executor.  `shrinkSequence` keeps a candidate that still breaks the invariant,
`shrinkSequenceValue` one that still reaches the target value.
-/

namespace SwissledgerFoundry.Shrink

/-- `CallSequenceShrinker` of a sequence of `callSequenceLen` calls.  The bit
set of included calls is the finite set of its set bits. -/
structure CallSequenceShrinker (callSequenceLen : ℕ) where
  includedCalls : Finset ℕ
deriving DecidableEq

namespace CallSequenceShrinker

variable {callSequenceLen : ℕ}

def new (callSequenceLen : ℕ) : CallSequenceShrinker callSequenceLen :=
  { includedCalls := Finset.range callSequenceLen }

section

variable (shrinker : CallSequenceShrinker callSequenceLen)

def clear (callIdx : ℕ) : CallSequenceShrinker callSequenceLen :=
  { includedCalls := shrinker.includedCalls.erase callIdx }

def set (callIdx : ℕ) : CallSequenceShrinker callSequenceLen :=
  { includedCalls := insert callIdx shrinker.includedCalls }

def count : ℕ := shrinker.includedCalls.card

/-- Indices of the calls the candidate keeps, in order. -/
def current : List (Fin callSequenceLen) :=
  (List.finRange callSequenceLen).filter (·.val ∈ shrinker.includedCalls)

end

/-- The next call index, wrapping around to 0 at the end. -/
def nextIndex (_ : CallSequenceShrinker callSequenceLen) (callIdx : ℕ) : ℕ :=
  if callIdx + 1 = callSequenceLen then 0 else callIdx + 1

end CallSequenceShrinker

/-- `apply_warp_roll`: a zero delay leaves the call's own delay in place. -/
def applyWarpRoll (call : BasicTxDetails) (warp roll : U256) : BasicTxDetails :=
  { call with
    warp := if warp > 0 then some warp else call.warp
    roll := if roll > 0 then some roll else call.roll }

/-- The accumulating branch of `build_shrunk_sequence`, from call index
`idx` on. -/
def buildAccumulated (includedCalls : Finset ℕ) :
    ℕ → List BasicTxDetails → U256 → U256 → List BasicTxDetails
  | _, [], _, _ => []
  | idx, call :: calls, warp, roll =>
    let warp := warp + call.warp.getD 0
    let roll := roll + call.roll.getD 0
    if idx ∈ includedCalls then
      applyWarpRoll call warp roll :: buildAccumulated includedCalls (idx + 1) calls 0 0
    else buildAccumulated includedCalls (idx + 1) calls warp roll

def buildShrunkSequence (calls : List BasicTxDetails) (shrinker : CallSequenceShrinker calls.length)
    (accumulateWarpRoll : Bool) : List BasicTxDetails :=
  if accumulateWarpRoll then
    buildAccumulated shrinker.includedCalls 0 calls 0 0
  else shrinker.current.map calls.get

structure CheckSequenceOptions (Decoder : Type) where
  accumulateWarpRoll : Bool
  failOnRevert : Bool
  expectAssertionFailure : Bool
  callAfterInvariant : Bool
  rd : Option Decoder

/-- Whether the invariant held, whether the sequence was entirely applied,
and the reason of a failure. -/
abbrev Verdict := Bool × Bool × Option String

section

variable {Rest World Outcome Decoder Err : Type} (evm : Evm Rest World Outcome Decoder Err)

section

variable (callResult : RawCallResult Outcome) (rd : Option Decoder)

def callFailureReason : Option String :=
  match evm.intoEvmError callResult rd with
  | .execution reason => some reason
  | .other => none

def assertionFailureReason : Option String :=
  (callFailureReason evm callResult rd).or (some "assertion failed")

end

/-- The closure `handle_terminal_failure` of `finish_sequence_check`. -/
def handleTerminalFailure (executor : Executor Rest World) (options : CheckSequenceOptions Decoder)
    (callResult : RawCallResult Outcome) : Verdict :=
  let shouldIgnoreFailure := options.expectAssertionFailure
    && !evm.hasGlobalFailure executor callResult
    && !evm.didFailOnAssert callResult
  if shouldIgnoreFailure then (true, true, none)
  else
    let reason :=
      if options.expectAssertionFailure then
        assertionFailureReason evm callResult options.rd
      else callFailureReason evm callResult options.rd
    (false, true, reason)

def finishSequenceCheck (testAddress : Address) (calldata : Bytes)
    (options : CheckSequenceOptions Decoder)
    (executor : Executor Rest World) : Except (Report Err) Verdict := do
  let (invariantResult, success) ← callInvariantFunction evm executor testAddress calldata
  if !success then
    return handleTerminalFailure evm executor options invariantResult
  if options.callAfterInvariant then
    let (afterInvariantResult, afterInvariantSuccess) ←
      callAfterInvariantFunction evm executor testAddress
    if !afterInvariantSuccess then
      return handleTerminalFailure evm executor options afterInvariantResult
  return (true, true, none)

/-- What one call of a checked sequence leads to: a verdict that ends the
check, or the executor of the next call. -/
inductive CallStep (Rest World : Type) where
  | verdict (verdict : Verdict)
  | proceed (executor : Executor Rest World)

/-- The common body of the two checking loops: execute the call, judge it,
and commit it unless it reverted. -/
def checkCall (options : CheckSequenceOptions Decoder)
    (executor : Executor Rest World) (tx : BasicTxDetails) :
    Except (Report Err) (CallStep Rest World) := do
  let (executor, callResult) ← executeTx evm executor tx
  let assertionFailure := evm.didFailOnAssert callResult
  if callResult.result ≠ magicAssume then
    if assertionFailure then
      return .verdict (false, false, assertionFailureReason evm callResult options.rd)
    if callResult.reverted && options.failOnRevert then
      if options.expectAssertionFailure then
        return .verdict (true, false, none)
      return .verdict (false, false, callFailureReason evm callResult options.rd)
  if !callResult.reverted then
    return .proceed (evm.commit executor callResult)
  return .proceed executor

section

variable (testAddress : Address) (calldata : Bytes) (options : CheckSequenceOptions Decoder)

/-- The loop of `check_sequence_simple` over the selected calls. -/
def checkCalls : List BasicTxDetails → Executor Rest World → Except (Report Err) Verdict
  | [], executor => finishSequenceCheck evm testAddress calldata options executor
  | tx :: calls, executor =>
    match checkCall evm options executor tx with
    | .error error => .error error
    | .ok (.verdict verdict) => .ok verdict
    | .ok (.proceed executor) => checkCalls calls executor

/-- The loop of `check_sequence_with_accumulation` from call index `idx` on.
Delays left over after the last executed call are not applied. -/
def checkAccumulated : ℕ → List BasicTxDetails → List ℕ → U256 → U256 →
      Executor Rest World → Except (Report Err) Verdict
  | _, [], _, _, _, executor => finishSequenceCheck evm testAddress calldata options executor
  | idx, tx :: calls, sequence, warp, roll, executor =>
    let warp := warp + tx.warp.getD 0
    let roll := roll + tx.roll.getD 0
    if sequence.head? = some idx then
      match checkCall evm options executor (applyWarpRoll tx warp roll) with
      | .error error => .error error
      | .ok (.verdict verdict) => .ok verdict
      | .ok (.proceed executor) => checkAccumulated (idx + 1) calls sequence.tail 0 0 executor
    else
      checkAccumulated (idx + 1) calls sequence warp roll executor

end

def checkSequence (executor : Executor Rest World) (calls : List BasicTxDetails)
    (sequence : List (Fin calls.length)) (testAddress : Address)
    (calldata : Bytes) (options : CheckSequenceOptions Decoder) :
    Except (Report Err) Verdict :=
  if options.accumulateWarpRoll then
    checkAccumulated evm testAddress calldata options 0 calls (sequence.map Fin.val) 0 0 executor
  else
    checkCalls evm testAddress calldata options (sequence.map calls.get) executor

/-- The loop of `check_sequence_value` from call index `idx` on, with the
delays left over at its end. -/
def sequenceValueLoop : ℕ → List BasicTxDetails → List ℕ → U256 → U256 → Executor Rest World →
      Except (Report Err) (Executor Rest World × U256 × U256)
  | _, [], _, warp, roll, executor => .ok (executor, warp, roll)
  | idx, tx :: calls, sequence, warp, roll, executor =>
    let warp := warp + tx.warp.getD 0
    let roll := roll + tx.roll.getD 0
    if sequence.head? = some idx then
      match executeTx evm executor (applyWarpRoll tx warp roll) with
      | .error error => .error error
      | .ok (executor, callResult) =>
        let executor :=
          if !callResult.reverted then evm.commit executor callResult
          else executor
        sequenceValueLoop (idx + 1) calls sequence.tail 0 0 executor
    else
      sequenceValueLoop (idx + 1) calls sequence warp roll executor

def invariantValue (testAddress : Address) (calldata : Bytes) (executor : Executor Rest World) :
    Except (Report Err) (Option I256) := do
  let (invResult, success) ← callInvariantFunction evm executor testAddress calldata
  if success && decide (invResult.result.length ≥ 32) then
    if let some value := I256.tryFromBeSlice (invResult.result.take 32) then
      return some value
  return none

/-- `check_sequence_value`: delays left over after the last executed call are
applied before the invariant call. -/
def checkSequenceValue (executor : Executor Rest World) (calls : List BasicTxDetails)
    (sequence : List (Fin calls.length)) (testAddress : Address)
    (calldata : Bytes) : Except (Report Err) (Option I256) := do
  let (executor, warp, roll) ← sequenceValueLoop evm 0 calls (sequence.map Fin.val) 0 0 executor
  invariantValue evm testAddress calldata (applyWarpRollToEnv executor warp roll)

end

/-- What a search makes of a candidate.  `keep` stops the search at a single
call; `skip` leaves the call dropped without judging the candidate. -/
inductive Judgement where
  | keep
  | restore
  | skip
deriving DecidableEq, Repr

/-- The search loop of `shrink_sequence` and `shrink_sequence_value`.
`shouldStop` is the early-exit flag as the successive iterations read it. -/
def shrinkLoop {callSequenceLen : ℕ} {Err : Type}
    (judge : CallSequenceShrinker callSequenceLen → Except Err Judgement)
    (shouldStop : ℕ → Bool) :
    ℕ → ℕ → ℕ → CallSequenceShrinker callSequenceLen →
      Except Err (CallSequenceShrinker callSequenceLen)
  | 0, _, _, shrinker => .ok shrinker
  | limit + 1, iteration, callIdx, shrinker =>
    if shouldStop iteration then .ok shrinker
    else
      let candidate := shrinker.clear callIdx
      let next := candidate.nextIndex callIdx
      match judge candidate with
      | .error error => .error error
      | .ok .keep =>
        if candidate.count = 1 then .ok candidate
        else shrinkLoop judge shouldStop limit (iteration + 1) next candidate
      | .ok .restore =>
        shrinkLoop judge shouldStop limit (iteration + 1) next (candidate.set callIdx)
      | .ok .skip => shrinkLoop judge shouldStop limit (iteration + 1) next candidate

/-- The fields of `InvariantConfig` that shrinking reads. -/
structure InvariantConfig where
  shrinkRunLimit : UInt32
  failOnRevert : Bool
  maxTimeDelay : Option UInt32
  maxBlockDelay : Option UInt32

def InvariantConfig.hasDelay (config : InvariantConfig) : Bool :=
  config.maxBlockDelay.isSome || config.maxTimeDelay.isSome

/-- The fields of `InvariantContract` that shrinking reads.  `selector` is the
selector of its invariant function. -/
structure InvariantContract where
  address : Address
  selector : Bytes
  callAfterInvariant : Bool

section

variable {Rest World Outcome Decoder Err : Type}

/-- The options `shrink_sequence` checks its candidates with. -/
def shrinkOptions (Decoder : Type) (config : InvariantConfig)
    (contract : InvariantContract) (expectAssertionFailure : Bool) :
    CheckSequenceOptions Decoder :=
  { accumulateWarpRoll := config.hasDelay
    failOnRevert := config.failOnRevert
    expectAssertionFailure := expectAssertionFailure
    callAfterInvariant := contract.callAfterInvariant
    rd := none }

/-- How `shrink_sequence` judges the outcome of a candidate.  An error falls
through to the last arm of its match, which leaves the call dropped. -/
def judgeFailure : Except (Report Err) Verdict → Judgement
  | .ok (false, _, _) => .keep
  | .ok (true, _, _) => .restore
  | .error _ => .skip

def shrinkSequence (evm : Evm Rest World Outcome Decoder Err)
    (config : InvariantConfig) (contract : InvariantContract)
    (calls : List BasicTxDetails) (expectAssertionFailure : Bool)
    (executor : Executor Rest World) (shouldStop : ℕ → Bool) :
    Except (Report Err) (List BasicTxDetails) := do
  let (_, success) ← callInvariantFunction evm executor contract.address contract.selector
  if !success then
    return []
  let options := shrinkOptions Decoder config contract expectAssertionFailure
  let shrinker ← shrinkLoop
    (fun candidate => .ok (judgeFailure
      (checkSequence evm executor calls candidate.current contract.address
        contract.selector options)))
    shouldStop config.shrinkRunLimit.toNat 0 0 (.new calls.length)
  return buildShrunkSequence calls shrinker config.hasDelay

/-- How `shrink_sequence_value` judges the value of a candidate. -/
def judgeValue (targetValue : I256) (value : Option I256) : Judgement :=
  if value = some targetValue then .keep else .restore

def shrinkSequenceValue (evm : Evm Rest World Outcome Decoder Err)
    (config : InvariantConfig) (contract : InvariantContract)
    (calls : List BasicTxDetails) (executor : Executor Rest World)
    (targetValue : I256) (shouldStop : ℕ → Bool) :
    Except (Report Err) (List BasicTxDetails) := do
  let value ← checkSequenceValue evm executor calls [] contract.address contract.selector
  if value = some targetValue then
    return []
  let shrinker ← shrinkLoop
    (fun candidate => (checkSequenceValue evm executor calls
      candidate.current contract.address contract.selector).map (judgeValue targetValue))
    shouldStop config.shrinkRunLimit.toNat 0 0 (.new calls.length)
  return buildShrunkSequence calls shrinker true

end

end SwissledgerFoundry.Shrink
