import SwissledgerFoundry.Cheatcodes.EmitMessage
import SwissledgerFoundry.Cheatcodes.Frames
import SwissledgerFoundry.Collections.Iteration

/-!
# Expected calls

The hook of a call counts it for every expectation of the called code that it
matches, and the end of the root call compares the counts.
-/

namespace SwissledgerFoundry.Cheatcodes

inductive ExpectedCallType where
  | nonCount
  | count
deriving DecidableEq

structure ExpectedCallData where
  value : Option U256
  gas : Option UInt64
  minGas : Option UInt64
  count : ℕ
  callType : ExpectedCallType
deriving DecidableEq

/-- For each target and calldata the expectation and the number of calls that
have matched it. -/
abbrev ExpectedCallTracker := HashMap Address (HashMap Bytes (ExpectedCallData × ℕ))

/-- The arguments of the cheatcode, without the number of calls. -/
structure CallDeclaration where
  target : Address
  calldata : Bytes
  value : Option U256
  gas : Option UInt64
  minGas : Option UInt64
deriving DecidableEq

namespace CallDeclaration

variable (declaration : CallDeclaration)

/-- The gas that the EVM adds to a call that transfers value. -/
def positiveValueCostStipend : UInt64 :=
  if declaration.value.any (0 < ·) then 2300 else 0

/-- The addition wraps. -/
def data (count : ℕ)
    (callType : ExpectedCallType) : ExpectedCallData where
  value := declaration.value
  gas := declaration.gas.map (· + declaration.positiveValueCostStipend)
  minGas := declaration.minGas.map (· + declaration.positiveValueCostStipend)
  count := count
  callType := callType

end CallDeclaration

/-- The expectations after the cheatcode, and its error. -/
def expectCall (expectedCalls : ExpectedCallTracker) (declaration : CallDeclaration) (count : ℕ)
    (callType : ExpectedCallType) : ExpectedCallTracker × Option String :=
  let expecteds := (expectedCalls.lookup declaration.target).getD ∅
  let store (entry : ExpectedCallData × ℕ) : ExpectedCallTracker :=
    expectedCalls.insert declaration.target (expecteds.insert declaration.calldata entry)
  let refused := expectedCalls.insert declaration.target expecteds
  match callType, expecteds.lookup declaration.calldata with
  | .count, some _ => (refused, some "counted expected calls can only bet set once")
  | .count, none => (store (declaration.data count callType, 0), none)
  | .nonCount, some (expected, actualCount) =>
    if expected.callType = .nonCount then
      (store ({ expected with count := expected.count + 1 }, actualCount), none)
    else
      (refused, some ("cannot overwrite a counted expectCall with a " ++ "non-counted expectCall"))
  | .nonCount, none => (store (declaration.data count callType, 0), none)

/-- A call has the calldata, the value and the gas of an expectation. -/
def ExpectedCallData.matches (expected : ExpectedCallData)
    (calldata : Bytes) (call : CallInputs) : Bool :=
  decide (calldata.length ≤ call.input.length) && calldata == call.input.take calldata.length &&
    expected.value.all (fun value => some value == call.transferValue) &&
    expected.gas.all (· == call.gasLimit) &&
    expected.minGas.all (fun minGas => decide (minGas ≤ call.gasLimit))

/-- The part of the call hook that counts a call. -/
def trackCall (expectedCalls : ExpectedCallTracker) (call : CallInputs) : ExpectedCallTracker :=
  match expectedCalls.lookup call.bytecodeAddress with
  | none => expectedCalls
  | some expectedCallsForTarget =>
    expectedCalls.insert call.bytecodeAddress
      (expectedCallsForTarget.mapValues fun calldata entry =>
        if entry.1.matches calldata call then (entry.1, entry.2 + 1)
        else entry)

def ExpectedCallData.failed (expected : ExpectedCallData) (actualCount : ℕ) : Bool :=
  match expected.callType with
  | .count => expected.count != actualCount
  | .nonCount => decide (actualCount < expected.count)

/-- The order of hash maps and the text of an address. -/
structure CallCheckContext where
  iteration : IterationOrder
  display : Address → String

def plural (count : ℕ) : String := if count = 1 then "" else "s"

def ExpectedCallData.message (expected : ExpectedCallData)
    (address : String) (calldata : Bytes) (actualCount : ℕ)
    (result : InstructionResult) : String :=
  let expectedValues := ", ".intercalate
    ([some ("data " ++ hexEncodePrefixed calldata),
      expected.value.map fun value => "value " ++ toString value.toNat,
      expected.gas.map fun gas => "gas " ++ toString gas.toNat,
      expected.minGas.map fun gas => "minimum gas " ++ toString gas.toNat].filterMap id)
  let but :=
    if result = .ok then
      "was called " ++ toString actualCount ++ " time" ++ plural actualCount
    else
      "the call reverted instead; " ++
        "ensure you're testing the happy path when using `expectCall`"
  "expected call to " ++ address ++ " with " ++ expectedValues ++
    " to be called " ++ toString expected.count ++ " time" ++
    plural expected.count ++ ", but " ++ but

/-- The part of `call_end` that checks the expected calls, with the message
of the first one that fails. -/
def callEndCalls (context : CallCheckContext) (depth : ℕ)
    (result : InstructionResult) (expectedCalls : ExpectedCallTracker) :
    Option String :=
  if depth ≠ 0 || result.isRevert then none
  else
    (context.iteration.order expectedCalls).findSome? fun target =>
      (context.iteration.order target.2).findSome? fun entry =>
        if entry.2.1.failed entry.2.2 then
          some (entry.2.1.message (context.display target.1) entry.1 entry.2.2 result)
        else none

end SwissledgerFoundry.Cheatcodes
