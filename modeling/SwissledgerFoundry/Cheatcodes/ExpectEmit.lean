import SwissledgerFoundry.Cheatcodes.EmitMessage
import SwissledgerFoundry.Cheatcodes.Frames
import SwissledgerFoundry.Collections.Iteration

/-!
# Expected logs

`expectEmit` puts an expectation into a queue.  The next log fills it; every
later log is checked against the first expectation that has not been found,
which goes to the back of the queue once it has seen its number of logs.
-/

namespace SwissledgerFoundry.Cheatcodes

structure ExpectedEmit where
  depth : ℕ
  log : Option RawLog
  checks : Checks
  address : Option Address
  anonymous : Bool
  found : Bool
  count : ℕ
  mismatchError : Option String

/-- How often each log was seen.  Only logs that pass the checks are in the
map. -/
structure LogCountMap where
  checks : Checks
  expectedLog : RawLog
  map : HashMap RawLog ℕ
  satisfied : ∀ log ∈ map, checksTopicsAndData checks expectedLog log = true

namespace LogCountMap

def new (checks : Checks) (expectedLog : RawLog) : LogCountMap where
  checks := checks
  expectedLog := expectedLog
  map := ∅
  satisfied := fun log member => absurd member (AList.notMem_empty log)

variable (counts : LogCountMap)

def satisfiesChecks (log : RawLog) : Bool :=
  checksTopicsAndData counts.checks counts.expectedLog log

/-- `entry(log).and_modify(|c| *c += 1).or_insert(1)`. -/
def bump (log : RawLog)
    (passes : counts.satisfiesChecks log = true) : LogCountMap where
  checks := counts.checks
  expectedLog := counts.expectedLog
  map := counts.map.insert log ((counts.map.lookup log).getD 0 + 1)
  satisfied := by
    intro other member
    rcases (AList.mem_insert _).mp member with rfl | earlier
    · exact passes
    · exact counts.satisfied other earlier

def insert (log : RawLog) : LogCountMap × Bool :=
  -- A log that is in the map is counted without checking it again.
  if known : log ∈ counts.map then
    (counts.bump log (counts.satisfied log known), true)
  else if passes : counts.satisfiesChecks log = true then
    (counts.bump log passes, true)
  else (counts, false)

def countUnchecked : ℕ := counts.map.values.sum

def count (log : RawLog) : ℕ :=
  if counts.satisfiesChecks log then counts.countUnchecked else 0

end LogCountMap

abbrev CountMap := HashMap Address LogCountMap

abbrev ExpectedEmitTracker := List (ExpectedEmit × CountMap)

def expectEmit (expectedEmits : ExpectedEmitTracker) (depth : ℕ)
    (checks : Checks) (address : Option Address) (anonymous : Bool)
    (count : ℕ) : ExpectedEmitTracker :=
  let expectedEmit : ExpectedEmit :=
    { depth, checks, address, found := false, log := none, anonymous, count,
      mismatchError := none }
  match expectedEmits.findIdx? (·.1.found) with
  | some foundEmitPos => expectedEmits.insertIdx foundEmitPos (expectedEmit, ∅)
  | none => expectedEmits ++ [(expectedEmit, ∅)]

/-- Where a failure of the handler goes: to the interpreter, whose frame
reverts, or back to the caller when there is no interpreter. -/
inductive EmitFailure where
  | revert (message : String)
  | reason (message : String)

def EmitFailure.new (interpreter : Bool) (message : String) : EmitFailure :=
  if interpreter then .revert message else .reason message

def forbids (expected : ExpectedEmit) (log : Log) : Bool :=
  expected.count == 0 && !expected.found &&
    expected.log.any (checksTopicsAndData expected.checks · log.data) &&
    (expected.address.isNone || expected.address == some log.address)

def recordLog (checks : Checks) (expected : RawLog) (countMap : CountMap) (log : Log) : CountMap :=
  match countMap.lookup log.address with
  | some logCountMap => countMap.insert log.address (logCountMap.insert log.data).1
  | none =>
    let logCountMap := LogCountMap.new checks expected
    if logCountMap.satisfiesChecks log.data then
      countMap.insert log.address (logCountMap.insert log.data).1
    else countMap

/-- The hash maps are visited in an order of their own; events are decoded
when there is an identifier of signatures. -/
structure EmitContext where
  iteration : IterationOrder
  signatures : Option (RawLog → Option DecodedCallLog)
  interpreter : Bool

section

variable (context : EmitContext)

def decodeEvent (anonymous : Bool) (log : RawLog) : Option DecodedCallLog :=
  if anonymous then none else context.signatures.bind (· log)

def countReached (event : ExpectedEmit) (countMap : CountMap) (log : Log) : Bool :=
  match event.address with
  | some emitter => (countMap.lookup emitter).any fun logMap => event.count ≤ logMap.count log.data
  | none =>
    -- The first map in the order of the hash map whose checks pass.
    (((context.iteration.order countMap).map Sigma.snd).find?
      (·.satisfiesChecks log.data)).any fun logMap => event.count ≤ logMap.count log.data

def checkEvent (event : ExpectedEmit)
    (expected : RawLog) (countMap : CountMap) (log : Log) : ExpectedEmit :=
  if !checksTopicsAndData event.checks expected log.data then
    { event with
      found := false
      mismatchError := some (getEmitMismatchMessage event.checks expected
        log.data event.anonymous
        (decodeEvent context event.anonymous expected)
        (decodeEvent context event.anonymous log.data)) }
  else
    match event.address.filter (· != log.address) with
    | some emitter =>
      { event with
        found := false
        mismatchError := some ("log emitter mismatch: expected=0x" ++
          hexDigits 40 emitter.toNat ++ ", got=0x" ++
          hexDigits 40 log.address.toNat) }
    | none => { event with found := countReached context event countMap log }

end

def shouldFillLogs (expectedEmits : ExpectedEmitTracker) : Bool :=
  expectedEmits.any (·.1.log.isNone)

def indexToFillOrCheck (expectedEmits : ExpectedEmitTracker) : ℕ :=
  if shouldFillLogs expectedEmits then
    (expectedEmits.findIdx? (·.1.found)).getD expectedEmits.length - 1
  else
    (expectedEmits.findIdx? fun entry => !entry.1.found && decide (0 < entry.1.count)).getD 0

def handleExpectEmit (context : EmitContext) (expectedEmits : ExpectedEmitTracker) (log : Log) :
    ExpectedEmitTracker × Option EmitFailure :=
  if expectedEmits.all (·.1.found) then (expectedEmits, none)
  else if expectedEmits.any fun entry => forbids entry.1 log then
    (expectedEmits, some (.new context.interpreter "log emitted but expected 0 times"))
  else if !shouldFillLogs expectedEmits &&
      expectedEmits.all fun entry => entry.1.found || entry.1.count == 0 then
    (expectedEmits, none)
  else
    let index := indexToFillOrCheck expectedEmits
    match expectedEmits[index]? with
    -- Not taken, by `indexToFillOrCheck_lt`.
    | none => (expectedEmits, none)
    | some (event, countMap) =>
      let others := expectedEmits.eraseIdx index
      match event.log with
      | none =>
        if event.anonymous || !log.data.topics.isEmpty then
          (others.insertIdx index ({ event with log := some log.data }, countMap), none)
        else
          -- The expectation has left the queue here.
          (others, some (.new context.interpreter
            "use vm.expectEmitAnonymous to match anonymous events"))
      | some expected =>
        let countMap := recordLog event.checks expected countMap log
        let event := checkEvent context event expected countMap log
        if event.found then (others ++ [(event, countMap)], none)
        else ((event, countMap) :: others, none)

/-- The two encodings of a message in the output of a reverted call. -/
inductive RevertOutput where
  | abiString (message : String)
  | error (message : String)

inductive EmitCheck where
  | unchecked
  | matched
  | failed (output : RevertOutput)

def EmitCheck.passes : EmitCheck → Bool
  | .unchecked => true
  | .matched => true
  | .failed _ => false

def emittedCount (iteration : IterationOrder) (expected : ExpectedEmit) (countMap : CountMap) : ℕ :=
  let countOf (logCount : LogCountMap) : ℕ :=
    match expected.log with
    | some log => logCount.count log
    | none => logCount.countUnchecked
  match expected.address with
  | some emitter => ((countMap.lookup emitter).map countOf).getD 0
  | none => ((iteration.order countMap).map fun entry => countOf entry.2).sum

/-- The part of `call_end` that checks the expected logs. -/
def callEndEmits (iteration : IterationOrder) (depth : ℕ) (isStatic : Bool)
    (result : InstructionResult) (expectedEmits : ExpectedEmitTracker) :
    EmitCheck × ExpectedEmitTracker :=
  if result.isRevert then (.unchecked, expectedEmits)
  else if expectedEmits.any (·.1.depth == depth) && !isStatic then
    match expectedEmits.find? fun entry => !entry.1.found && decide (0 < entry.1.count) with
    | some (expected, _) =>
      (.failed (.abiString (expected.mismatchError.getD "log != expected log")), expectedEmits)
    | none =>
      match expectedEmits.find? fun entry =>
          emittedCount iteration entry.1 entry.2 != entry.1.count with
      | some (expected, countMap) =>
        (.failed (.error
          (if result = .ok then
            "log emitted " ++ toString (emittedCount iteration expected countMap) ++
              " times, expected " ++ toString expected.count
          else
            "expected an emit, but the call reverted instead. " ++
              "ensure you're testing the happy path when using " ++
              "`expectEmit`")),
          expectedEmits)
      | none => (.matched, [])
  else (.unchecked, expectedEmits)

end SwissledgerFoundry.Cheatcodes
