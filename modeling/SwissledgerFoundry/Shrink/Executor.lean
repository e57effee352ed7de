import SwissledgerFoundry.Primitives

/-!
# Executors for call sequences

The EVM itself is a parameter: `Evm` collects the operations of the executor
that sequence replay calls.
-/

namespace SwissledgerFoundry.Shrink

/-- Call details of a transaction generated to fuzz. -/
structure CallDetails where
  target : Address
  calldata : Bytes
deriving DecidableEq, Repr

/-- A generated transaction with the time and block delay that precede it. -/
structure BasicTxDetails where
  warp : Option U256
  roll : Option U256
  sender : Address
  callDetails : CallDetails
deriving DecidableEq, Repr

/-- The block environment.  Replay moves the timestamp and the number; every
other field is carried along in `rest`. -/
structure BlockEnv (Rest : Type) where
  timestamp : U256
  number : U256
  rest : Rest

def BlockEnv.advance {Rest : Type} (block : BlockEnv Rest) (warp roll : U256) : BlockEnv Rest :=
  { block with timestamp := block.timestamp + warp, number := block.number + roll }

/-- The executor as replay sees it.  `cheatcodes` is `none` without a
cheatcodes inspector and `some none` while its block override is unset;
`world` stands for the backend and the rest of the inspector stack. -/
structure Executor (Rest World : Type) where
  blockEnv : BlockEnv Rest
  cheatcodes : Option (Option (BlockEnv Rest))
  world : World

/-- Result of a raw call.  `outcome` stands for the fields that only the EVM
operations read. -/
structure RawCallResult (Outcome : Type) where
  reverted : Bool
  result : Bytes
  outcome : Outcome

inductive EvmError where
  | execution (reason : String)
  | other
deriving DecidableEq, Repr

/-- Error reports: `rawEvmCall` carries the text "Could not make raw evm call"
that `execute_tx` puts before the error, `call` is the error itself. -/
inductive Report (Err : Type) where
  | rawEvmCall (error : Err)
  | call (error : Err)
deriving DecidableEq, Repr

/-- The deterministic EVM operations used by sequence replay.  A call does not
change the executor; its effects are kept by `commit`. -/
structure Evm (Rest World Outcome Decoder Err : Type) where
  callRaw : Executor Rest World → Address → Address → Bytes → U256 →
    Except Err (RawCallResult Outcome)
  commit : Executor Rest World → RawCallResult Outcome → Executor Rest World
  /-- Success of a test call, with the result whose changeset was taken. -/
  isRawCallMutSuccess : Executor Rest World → Address →
    RawCallResult Outcome → Bool → Bool × RawCallResult Outcome
  hasGlobalFailure : Executor Rest World → RawCallResult Outcome → Bool
  didFailOnAssert : RawCallResult Outcome → Bool
  intoEvmError : RawCallResult Outcome → Option Decoder → EvmError
  /-- Selector of `afterInvariant()`. -/
  afterInvariantSelector : Bytes

/-- `CALLER`, the sender of test calls. -/
def caller : Address := 0x1804c8AB1F12E6bbf3894d4083f33e07309d1f38

/-- `MAGIC_ASSUME`, the bytes of "FOUNDRY::ASSUME". -/
def magicAssume : Bytes := [70, 79, 85, 78, 68, 82, 89, 58, 58, 65, 83, 83, 85, 77, 69]

section

variable {Rest World Outcome Decoder Err : Type}

section

variable (executor : Executor Rest World) (warp roll : U256)

/-- Moves the block environment, and the block override of the cheatcodes
when there is one.  Without an override the moved environment becomes it. -/
def Executor.advance : Executor Rest World :=
  let blockEnv := executor.blockEnv.advance warp roll
  { executor with
    blockEnv := blockEnv
    cheatcodes := executor.cheatcodes.map fun block =>
      match block with
      | some block => some (block.advance warp roll)
      | none => some blockEnv }

def applyWarpRollToEnv : Executor Rest World :=
  if warp > 0 ∨ roll > 0 then executor.advance warp roll else executor

end

section

variable (evm : Evm Rest World Outcome Decoder Err) (executor : Executor Rest World)

/-- `execute_tx`: the executor keeps the moved environment whatever the call
does. -/
def executeTx (tx : BasicTxDetails) :
    Except (Report Err) (Executor Rest World × RawCallResult Outcome) :=
  let warp := tx.warp.getD 0
  let roll := tx.roll.getD 0
  let executor := if warp > 0 ∨ roll > 0 then executor.advance warp roll else executor
  match evm.callRaw executor tx.sender tx.callDetails.target tx.callDetails.calldata 0 with
  | .ok callResult => .ok (executor, callResult)
  | .error error => .error (.rawEvmCall error)

/-- A call from `CALLER` to the test contract, with its success. -/
def callTestFunction (address : Address) (calldata : Bytes) :
    Except (Report Err) (RawCallResult Outcome × Bool) :=
  match evm.callRaw executor caller address calldata 0 with
  | .ok callResult =>
    let (success, callResult) := evm.isRawCallMutSuccess executor address callResult false
    .ok (callResult, success)
  | .error error => .error (.call error)

def callInvariantFunction (address : Address) (calldata : Bytes) :
    Except (Report Err) (RawCallResult Outcome × Bool) :=
  callTestFunction evm executor address calldata

def callAfterInvariantFunction (toAddress : Address) :
    Except (Report Err) (RawCallResult Outcome × Bool) :=
  callTestFunction evm executor toAddress evm.afterInvariantSelector

end

theorem applyWarpRollToEnv_zero (executor : Executor Rest World) :
    applyWarpRollToEnv executor 0 0 = executor := by
  simp [applyWarpRollToEnv]

end

end SwissledgerFoundry.Shrink
