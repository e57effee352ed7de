import SwissledgerFoundry.Cheatcodes.Frames
import SwissledgerFoundry.Collections.HashMap

/-!
# Safe memory

Before an instruction runs, its offset and size are read off the stack, cut down
to 64 bits and compared with the allowed ranges.  Additions wrap; whether one of
them has overflowed is kept beside the outcome.
-/

namespace SwissledgerFoundry.Cheatcodes

/-- `Range<u64>`. -/
structure MemRange where
  start : ℕ
  stop : ℕ
  fits : stop < 2 ^ 64

def MemRange.contains (range : MemRange) (offset : ℕ) : Bool :=
  decide (range.start ≤ offset ∧ offset < range.stop)

abbrev AllowedMemWrites := HashMap ℕ (List MemRange)

/-- The range that is allowed beside the declared ones. -/
def scratchSpace : MemRange where
  start := 0
  stop := 0x60
  fits := by decide

def expectSafeMemory (allowed : AllowedMemWrites) (range : MemRange)
    (depth : ℕ) : Except String AllowedMemWrites :=
  if range.start < range.stop then
    .ok (allowed.insert depth ((allowed.lookup depth).getD [scratchSpace] ++ [range]))
  else
    .error ("memory range start (" ++ toString range.start ++
      ") is greater than end (" ++ toString range.stop ++ ")")

def stopExpectSafeMemory (allowed : AllowedMemWrites) (depth : ℕ) : AllowedMemWrites :=
  allowed.erase depth

/-- The stack, from the top, and the memory of the current frame. -/
structure MemInterpreter where
  stack : List U256
  memory : Bytes
  fits : memory.length < 2 ^ 64

/-- The instructions that write or expand memory, and all others. -/
inductive MemOpcode where
  | mstore
  | mstore8
  | mload
  | mcopy
  | calldatacopy
  | codecopy
  | returndatacopy
  | extcodecopy
  | call
  | callcode
  | staticcall
  | delegatecall
  | keccak256
  | log (topics : Fin 5)
  | create
  | create2
  | ret
  | revert
  | other
deriving DecidableEq

/-- What the check makes of an instruction: it runs, it runs because it
belongs to `stopExpectSafeMemory`, it is replaced by a revert, or the check
panics. -/
inductive MemAction where
  | proceed
  | exempt
  | disallowed (message : String)
  | panic
deriving DecidableEq

structure MemOutcome where
  action : MemAction
  overflowed : Bool

def MemOutcome.proceed : MemOutcome where
  action := .proceed
  overflowed := false

def saturatingToU64 (value : U256) : ℕ := min value.toNat u64Max

/-- Some range contains the offset and the offset plus a length, and whether
the addition has overflowed.  The second end is only computed for ranges that
contain the first. -/
def containsBoth (offset length : ℕ) : List MemRange → Bool × Bool
  | [] => (false, false)
  | range :: ranges =>
    if range.contains offset then
      let overflowed := decide (2 ^ 64 ≤ offset + length)
      if range.contains ((offset + length) % 2 ^ 64) then
        (true, overflowed)
      else
        let rest := containsBoth offset length ranges
        (rest.1, overflowed || rest.2)
    else containsBoth offset length ranges

/-- Upper-case hexadecimal digits, at least two. -/
def upperHex (value : ℕ) : String :=
  String.ofList (((Nat.toDigits 16 value).map Char.toUpper).leftpad 2 '0')

def disallowedMemWrite (destOffset size : ℕ) (ranges : List MemRange)
    (overflowed : Bool) : MemOutcome where
  action := .disallowed ("memory write at offset 0x" ++
    upperHex destOffset ++ " of size 0x" ++ upperHex size ++
    " not allowed; safe range: " ++
    " U ".intercalate (ranges.map fun range =>
      "[0x" ++ upperHex range.start ++ ", 0x" ++ upperHex range.stop ++ ")"))
  overflowed := overflowed

/-- `CHEATCODE_ADDRESS`. -/
def vmAddress : Address := 0x7109709ECfa91a80626fF3989D68f67F5b1DD12D

/-- The selector of `stopExpectSafeMemory()`. -/
def stopSelector : Bytes := [0x09, 0x56, 0x44, 0x1b]

section

variable (ranges : List MemRange) (interpreter : MemInterpreter)

def checkMstore : MemOutcome :=
  match interpreter.stack[0]? with
  | none => .proceed
  | some top =>
    let offset := saturatingToU64 top
    let safe := containsBoth offset 31 ranges
    if safe.1 then { action := .proceed, overflowed := safe.2 }
    else
      match interpreter.stack[1]? with
      | none => { action := .proceed, overflowed := safe.2 }
      | some value =>
        if value.toNat / 2 ^ 224 = beValue stopSelector then
          { action := .exempt, overflowed := safe.2 }
        else disallowedMemWrite offset 32 ranges safe.2

def checkMstore8 : MemOutcome :=
  match interpreter.stack[0]? with
  | none => .proceed
  | some top =>
    let offset := saturatingToU64 top
    if ranges.any (·.contains offset) then .proceed
    else disallowedMemWrite offset 1 ranges false

def checkMload : MemOutcome :=
  match interpreter.stack[0]? with
  | none => .proceed
  | some top =>
    let offset := saturatingToU64 top
    if interpreter.memory.length ≤ offset then
      let safe := containsBoth offset 31 ranges
      if safe.1 then { action := .proceed, overflowed := safe.2 }
      else disallowedMemWrite offset 32 ranges safe.2
    else .proceed

end

/-- The call is one to `stopExpectSafeMemory`.  A slice outside of the memory
and one without a selector panic. -/
def exemptCall (interpreter : MemInterpreter) (destOffset size : ℕ)
    (ranges : List MemRange) (overflowed : Bool) : MemOutcome :=
  match interpreter.stack[1]? with
  | none => { action := .proceed, overflowed := overflowed }
  | some callee =>
    if callee.setWidth 160 = vmAddress then
      match interpreter.stack[3]?, interpreter.stack[4]? with
      | some argsOffset, some argsSize =>
        let start := saturatingToU64 argsOffset
        let length := saturatingToU64 argsSize
        let overflowed := overflowed || decide (2 ^ 64 ≤ start + length)
        if interpreter.memory.length < start + length ∨ length < 4 then
          { action := .panic, overflowed := overflowed }
        else if (interpreter.memory.drop start).take 4 = stopSelector then
          { action := .exempt, overflowed := overflowed }
        else disallowedMemWrite destOffset size ranges overflowed
      | _, _ => { action := .proceed, overflowed := overflowed }
    else disallowedMemWrite destOffset size ranges overflowed

def checkCall (ranges : List MemRange) (interpreter : MemInterpreter) : MemOutcome :=
  match interpreter.stack[5]?, interpreter.stack[6]? with
  | some offsetWord, some sizeWord =>
    let destOffset := saturatingToU64 offsetWord
    let size := saturatingToU64 sizeWord
    let safe := containsBoth destOffset (size - 1) ranges
    if safe.1 then { action := .proceed, overflowed := safe.2 }
    else exemptCall interpreter destOffset size ranges safe.2
  | _, _ => .proceed

/-- The instructions with offset and size on the stack: where these are, and
whether the instruction writes. -/
def memOpcodeMatch : MemOpcode → Option (ℕ × ℕ × Bool)
  | .calldatacopy => some (0, 2, true)
  | .codecopy => some (0, 2, true)
  | .returndatacopy => some (0, 2, true)
  | .extcodecopy => some (1, 3, true)
  | .callcode => some (5, 6, true)
  | .staticcall => some (4, 5, true)
  | .delegatecall => some (4, 5, true)
  | .keccak256 => some (0, 1, false)
  | .log _ => some (0, 1, false)
  | .create => some (1, 2, false)
  | .create2 => some (1, 2, false)
  | .ret => some (0, 1, false)
  | .revert => some (0, 1, false)
  | _ => none

section

variable (ranges : List MemRange) (interpreter : MemInterpreter)

def checkOffsetSize (offsetDepth sizeDepth : ℕ) (writes : Bool) : MemOutcome :=
  match interpreter.stack[offsetDepth]?, interpreter.stack[sizeDepth]? with
  | some offsetWord, some sizeWord =>
    let destOffset := saturatingToU64 offsetWord
    let size := saturatingToU64 sizeWord
    let safe := containsBoth destOffset (size - 1) ranges
    if safe.1 then { action := .proceed, overflowed := safe.2 }
    else if writes then disallowedMemWrite destOffset size ranges safe.2
    else
      let overflowed := safe.2 || decide (2 ^ 64 ≤ destOffset + size)
      if interpreter.memory.length ≤ destOffset ∨
          interpreter.memory.length ≤ (destOffset + size) % 2 ^ 64 - 1 then
        disallowedMemWrite destOffset size ranges overflowed
      else { action := .proceed, overflowed := overflowed }
  | _, _ => .proceed

def checkRanges : MemOpcode → MemOutcome
  | .mstore => checkMstore ranges interpreter
  | .mstore8 => checkMstore8 ranges interpreter
  | .mload => checkMload ranges interpreter
  | .call => checkCall ranges interpreter
  | opcode =>
    match memOpcodeMatch opcode with
    | some (offsetDepth, sizeDepth, writes) =>
      checkOffsetSize ranges interpreter offsetDepth sizeDepth writes
    | none => .proceed

end

def checkMemOpcodes (allowed : AllowedMemWrites) (depth : ℕ)
    (interpreter : MemInterpreter) (opcode : MemOpcode) : MemOutcome :=
  match allowed.lookup depth with
  | none => .proceed
  | some ranges => checkRanges ranges interpreter opcode

end SwissledgerFoundry.Cheatcodes
