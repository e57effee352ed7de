import SwissledgerFoundry.Primitives

/-!
# Calls as the inspector sees them

The inspector is told of a call before its frame runs and after it has returned;
at both moments the depth of the journal is that of the caller.
-/

namespace SwissledgerFoundry.Cheatcodes

/-- How a frame ended.  A halt is an error that is not a revert, such as
running out of gas. -/
inductive InstructionResult where
  | ok
  | revert
  | halt
deriving DecidableEq

def InstructionResult.isRevert (result : InstructionResult) : Bool := result = .revert

inductive FrameKind where
  | call
  | create
deriving DecidableEq

inductive CallScheme where
  | call
  | callCode
  | delegateCall
  | staticCall
deriving DecidableEq

/-- The value of a call is transferred, or only visible to the callee. -/
inductive CallValue where
  | transfer (value : U256)
  | apparent (value : U256)
deriving DecidableEq

structure CallInputs where
  scheme : CallScheme
  caller : Address
  targetAddress : Address
  bytecodeAddress : Address
  value : CallValue
  gasLimit : UInt64
  input : Bytes
deriving DecidableEq

namespace CallInputs

def callValue (call : CallInputs) : U256 :=
  match call.value with
  | .transfer value => value
  | .apparent value => value

def transferValue (call : CallInputs) : Option U256 :=
  match call.value with
  | .transfer value => some value
  | .apparent _ => none

end CallInputs

structure CreateInputs where
  caller : Address
  value : U256
  initCode : Bytes
deriving DecidableEq

end SwissledgerFoundry.Cheatcodes
