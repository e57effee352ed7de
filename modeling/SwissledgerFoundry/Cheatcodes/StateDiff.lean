import SwissledgerFoundry.Cheatcodes.Frames

/-!
# Recording of state differences

The hook of a call or create pushes a list that starts with the access of that
frame; the hook at its end pops the list, marks it if the frame reverted and
appends it to the list below.  Both end hooks return early when an expected
revert takes the result, and the call hook when a mock answers the call.
-/

namespace SwissledgerFoundry.Cheatcodes

inductive AccountAccessKind where
  | call
  | delegateCall
  | callCode
  | staticCall
  | create
  | selfDestruct
  | resume
  | balance
  | extcodesize
  | extcodehash
  | extcodecopy
deriving DecidableEq

namespace AccountAccessKind

def ofScheme : CallScheme → AccountAccessKind
  | .call => .call
  | .callCode => .callCode
  | .delegateCall => .delegateCall
  | .staticCall => .staticCall

def isFrame : AccountAccessKind → Bool
  | .call => true
  | .delegateCall => true
  | .callCode => true
  | .staticCall => true
  | .create => true
  | _ => false

end AccountAccessKind

structure ChainInfo where
  forkId : U256
  chainId : U256

/-- A storage access.  The moment counts the hooks since the recording
started; the code does not have it. -/
structure StorageAccess where
  account : Address
  slot : B256
  isWrite : Bool
  previousValue : B256
  newValue : B256
  reverted : Bool
  moment : ℕ

structure AccountAccess where
  chainInfo : ChainInfo
  kind : AccountAccessKind
  account : Address
  accessor : Address
  initialized : Bool
  oldBalance : U256
  newBalance : U256
  deployedCode : Bytes
  value : U256
  data : Bytes
  reverted : Bool
  storageAccesses : List StorageAccess
  depth : ℕ
  oldNonce : UInt64
  newNonce : UInt64
  moment : ℕ

def accountExists (info : AccountInfo) : Bool :=
  !((info.codeHash == keccakEmpty || info.codeHash == 0) && info.balance == 0 && info.nonce == 0)

/-- What the context answers to a hook: the active chain and the account that
the hook loads. -/
structure World where
  chainInfo : ChainInfo
  loaded : Option AccountInfo

namespace World

variable (world : World)

def initialized : Bool := world.loaded.any accountExists

def balance : U256 := (world.loaded.map AccountInfo.balance).getD 0

def nonce : UInt64 := (world.loaded.map AccountInfo.nonce).getD 0

end World

def AccountAccess.ofCall (call : CallInputs) (world : World)
    (depth moment : ℕ) : AccountAccess where
  chainInfo := world.chainInfo
  kind := .ofScheme call.scheme
  account := call.bytecodeAddress
  accessor := call.caller
  initialized := world.initialized
  oldBalance := world.balance
  newBalance := 0
  deployedCode := []
  value := call.callValue
  data := call.input
  reverted := false
  storageAccesses := []
  depth := depth
  oldNonce := world.nonce
  newNonce := 0
  moment := moment

def AccountAccess.ofCreate (create : CreateInputs) (address : Address)
    (world : World) (depth moment : ℕ) : AccountAccess where
  chainInfo := world.chainInfo
  kind := .create
  account := address
  accessor := create.caller
  initialized := true
  oldBalance := 0
  newBalance := 0
  deployedCode := []
  value := create.value
  data := create.initCode
  reverted := false
  storageAccesses := []
  depth := depth
  oldNonce := 0
  newNonce := 1
  moment := moment

/-- The instructions that read another account. -/
inductive ExtOpcode where
  | extcodecopy
  | extcodesize
  | extcodehash
  | balance

def ExtOpcode.kind : ExtOpcode → AccountAccessKind
  | .extcodecopy => .extcodecopy
  | .extcodesize => .extcodesize
  | .extcodehash => .extcodehash
  | .balance => .balance

def AccountAccess.ofExt (opcode : ExtOpcode) (accessor address : Address)
    (world : World) (depth moment : ℕ) : AccountAccess where
  chainInfo := world.chainInfo
  kind := opcode.kind
  account := address
  accessor := accessor
  initialized := world.initialized
  oldBalance := world.balance
  newBalance := world.balance
  deployedCode := []
  value := 0
  data := []
  reverted := false
  storageAccesses := []
  depth := depth
  oldNonce := world.nonce
  newNonce := world.nonce
  moment := moment

def AccountAccess.ofSelfDestruct (accessor target : Address)
    (value : U256) (world : World) (depth moment : ℕ) : AccountAccess where
  chainInfo := world.chainInfo
  kind := .selfDestruct
  account := target
  accessor := accessor
  initialized := world.initialized
  oldBalance := world.balance
  newBalance := world.balance + value
  deployedCode := []
  value := value
  data := []
  reverted := false
  storageAccesses := []
  depth := depth
  oldNonce := world.nonce
  newNonce := world.nonce
  moment := moment

/-- The access that continues the frame of an entry. -/
def AccountAccess.resume (entry : AccountAccess) (access : StorageAccess) : AccountAccess where
  chainInfo := entry.chainInfo
  kind := .resume
  account := entry.account
  accessor := entry.accessor
  initialized := entry.initialized
  oldBalance := 0
  newBalance := 0
  deployedCode := []
  value := 0
  data := []
  reverted := entry.reverted
  storageAccesses := [access]
  depth := entry.depth
  oldNonce := 0
  newNonce := 0
  moment := access.moment

def AccountAccess.pushStorage (record : AccountAccess) (access : StorageAccess) : AccountAccess :=
  { record with storageAccesses := record.storageAccesses ++ [access] }

def appendStorageAccess (last : List AccountAccess)
    (access : StorageAccess) (storageDepth : ℕ) : List AccountAccess :=
  match last with
  | [] => []
  | first :: others =>
    if first.depth < storageDepth then
      match others.getLast? with
      | none => [first.pushStorage access]
      | some record =>
        if record.kind = .resume then
          first :: (others.dropLast ++ [record.pushStorage access])
        else first :: (others ++ [first.resume access])
    else first :: others

/-- `SLOAD` has no new value. -/
def StorageAccess.ofOpcode (address : Address) (key : B256)
    (stored : Option U256) (present : Option U256) (moment : ℕ) :
    StorageAccess where
  account := address
  slot := key
  isWrite := stored.isSome
  previousValue := present.getD 0
  newValue := stored.getD (present.getD 0)
  reverted := false
  moment := moment

inductive ExpectedRevertKind where
  | default
  | cheatcode (pendingProcessing : Bool)

/-- An expected revert, without the data that only decides whether a result
is the expected one. -/
structure ExpectedRevert where
  depth : ℕ
  kind : ExpectedRevertKind
  count : ℕ
  actualCount : ℕ

namespace ExpectedRevert

variable (expected : ExpectedRevert)

def isDefault : Bool :=
  match expected.kind with
  | .default => true
  | .cheatcode _ => false

def needsProcessing (cheatcodeCall : Bool) : Bool :=
  match expected.kind with
  | .default => !cheatcodeCall
  | .cheatcode pendingProcessing => cheatcodeCall && !pendingProcessing

/-- What is left of the expectation after a result. -/
def processed (accepted : Bool) : Option ExpectedRevert :=
  if accepted && decide (expected.actualCount + 1 < expected.count) then
    some { expected with actualCount := expected.actualCount + 1 }
  else none

def processing : ExpectedRevert :=
  match expected.kind with
  | .default => expected
  | .cheatcode _ => { expected with kind := .cheatcode false }

end ExpectedRevert

/-- The recorder and what the hooks read beside it.  The frames are those of
the EVM, whose number is the depth of the journal. -/
structure Recorder where
  frames : List FrameKind
  recordedAccountDiffsStack : List (List AccountAccess)
  expectedRevert : Option ExpectedRevert
  assumeNoRevert : Option ℕ

/-- How a frame ends: its result, whether a matching expected revert accepts
the result, the account that the hook loads, and for a create the address. -/
structure Ending where
  result : InstructionResult
  accepted : Bool
  loaded : Option AccountInfo
  address : Option Address

def AccountAccess.markReverted (record : AccountAccess) : AccountAccess :=
  { record with
    reverted := true
    storageAccesses := record.storageAccesses.map fun access => { access with reverted := true } }

section

variable (ending : Ending) (record : AccountAccess)

/-- The state of the callee after the call. -/
def AccountAccess.updateCall : AccountAccess :=
  match ending.loaded with
  | some info => { record with newBalance := info.balance, newNonce := info.nonce }
  | none => record

/-- The state of the new contract after the create. -/
def AccountAccess.updateCreate : AccountAccess :=
  match ending.address, ending.loaded with
  | some _, some info =>
    { record with
      newBalance := info.balance
      newNonce := info.nonce
      deployedCode := info.code.getD [] }
  | _, _ => record

end

namespace Recorder

def depth (recorder : Recorder) : ℕ := recorder.frames.length

/-- Appends a list to the one below, or leaves it as the only one. -/
def merge (records : List AccountAccess) : List (List AccountAccess) → List (List AccountAccess)
  | [] => [records]
  | parent :: rest => (parent ++ records) :: rest

/-- Pops the list of a frame that returns to a depth. -/
def popFrame (depth : ℕ) (update : AccountAccess → AccountAccess) (result : InstructionResult) :
    List (List AccountAccess) → List (List AccountAccess)
  | [] => []
  | last :: rest =>
    match if result.isRevert then last.map AccountAccess.markReverted
      else last with
    | [] => rest
    | first :: others =>
      merge ((if first.depth = depth then update first else first) :: others) rest

variable (recorder : Recorder)

/-- The part of both end hooks that records. -/
def closeFrame (update : AccountAccess → AccountAccess) (result : InstructionResult) : Recorder :=
  -- The root call cannot be recorded.
  if recorder.depth = 0 then recorder
  else
    { recorder with
      recordedAccountDiffsStack := popFrame recorder.depth update result
        recorder.recordedAccountDiffsStack }

section

variable (cheatcodeCall : Bool) (ending : Ending)

/-- `assumeNoRevert` at the end of a call, and whether the hook returns. -/
def handleAssumeNoRevert : Recorder × Bool :=
  match recorder.assumeNoRevert with
  | none => (recorder, false)
  | some depth =>
    if recorder.depth ≤ depth && !cheatcodeCall then
      ({ recorder with assumeNoRevert := none }, ending.result.isRevert)
    else (recorder, false)

/-- `expectRevert` at the end of a call, and whether the hook returns. -/
def handleExpectRevert : Recorder × Bool :=
  match recorder.expectedRevert with
  | none => (recorder, false)
  | some expected =>
    if recorder.depth ≤ expected.depth then
      if expected.needsProcessing cheatcodeCall then
        ({ recorder with expectedRevert := expected.processed ending.accepted }, true)
      else
        ({ recorder with expectedRevert := some expected.processing }, false)
    else (recorder, false)

end

/-- `expectRevert` at the end of a create, and whether the hook returns. -/
def handleExpectRevertCreate (ending : Ending) : Recorder × Bool :=
  match recorder.expectedRevert with
  | none => (recorder, false)
  | some expected =>
    if decide (recorder.depth ≤ expected.depth) && expected.isDefault then
      ({ recorder with expectedRevert := expected.processed ending.accepted }, true)
    else (recorder, false)

section

variable (cheatcodeCall : Bool) (ending : Ending)

/-- What comes before the recording in `call_end`. -/
def callEndEarly : Recorder × Bool :=
  let assumed := recorder.handleAssumeNoRevert cheatcodeCall ending
  if assumed.2 then assumed
  else
    let expected := assumed.1.handleExpectRevert cheatcodeCall ending
    (expected.1, expected.2 || cheatcodeCall)

def callEnd : Recorder :=
  let early := recorder.callEndEarly cheatcodeCall ending
  if early.2 then early.1
  else early.1.closeFrame (.updateCall ending) ending.result

end

def createEnd (ending : Ending) : Recorder :=
  let early := recorder.handleExpectRevertCreate ending
  if early.2 then early.1
  else early.1.closeFrame (.updateCreate ending) ending.result

variable (kind : FrameKind)

/-- What comes before the recording in the end hook of a frame. -/
def frameEndEarly (ending : Ending) : Recorder × Bool :=
  match kind with
  | .call => recorder.callEndEarly false ending
  | .create => recorder.handleExpectRevertCreate ending

def frameEnd (ending : Ending) : Recorder :=
  match kind with
  | .call => recorder.callEnd false ending
  | .create => recorder.createEnd ending

def pushFrame (access : AccountAccess) : Recorder :=
  { recorder with
    frames := kind :: recorder.frames
    recordedAccountDiffsStack := [access] :: recorder.recordedAccountDiffsStack }

end Recorder

/-- The cheatcodes that change what the end hooks do. -/
inductive RevertCheatcode where
  | expectRevert (cheatcode : Bool) (count : ℕ)
  | assumeNoRevert
  | other

/-- What happens while recording is on.  A call that a mock answers and a
create that is intercepted run no frame, but their end hook runs. -/
inductive RecordingEvent where
  | call (call : CallInputs) (world : World)
  | mockedCall (ending : Ending)
  | create (create : CreateInputs) (address : Address) (world : World)
  | interceptedCreate (ending : Ending)
  | storage (address : Address) (key : B256) (stored present : Option U256)
  | ext (opcode : ExtOpcode) (accessor address : Address) (world : World)
  | selfDestruct (accessor target : Address) (value : U256) (world : World)
  | cheatcode (cheatcode : RevertCheatcode) (ending : Ending)
  | leave (ending : Ending)

namespace Recorder

variable (recorder : Recorder)

def applyCheatcode : RevertCheatcode → Recorder
  | .expectRevert cheatcode count =>
    -- A second expectation is refused.
    if recorder.expectedRevert.isSome then recorder
    else
      { recorder with
        expectedRevert := some
          { depth := recorder.depth
            kind := if cheatcode then .cheatcode true else .default
            count := count
            actualCount := 0 } }
  | .assumeNoRevert =>
    if recorder.assumeNoRevert.isSome then recorder
    else { recorder with assumeNoRevert := some recorder.depth }
  | .other => recorder

/-- `record_state_diffs` for `SLOAD` and `SSTORE`. -/
def recordStorage (access : StorageAccess) : Recorder :=
  match recorder.recordedAccountDiffsStack with
  | [] => recorder
  | last :: rest =>
    { recorder with
      recordedAccountDiffsStack := appendStorageAccess last access recorder.depth :: rest }

/-- `record_state_diffs` for the instructions that read an account. -/
def recordExt (access : AccountAccess) : Recorder :=
  { recorder with recordedAccountDiffsStack := merge [access] recorder.recordedAccountDiffsStack }

/-- `record_state_diffs` for `SELFDESTRUCT`. -/
def recordSelfDestruct (access : AccountAccess) : Recorder :=
  -- The frame that started the recording is not in the stack.
  if recorder.recordedAccountDiffsStack.isEmpty then recorder
  else recorder.recordExt access

def step (moment : ℕ) : RecordingEvent → Recorder
  | .call call world => recorder.pushFrame .call (.ofCall call world recorder.depth moment)
  | .mockedCall ending => recorder.frameEnd .call ending
  | .create create address world =>
    recorder.pushFrame .create (.ofCreate create address world recorder.depth moment)
  | .interceptedCreate ending => recorder.frameEnd .create ending
  | .storage address key stored present =>
    recorder.recordStorage (.ofOpcode address key stored present moment)
  | .ext opcode accessor address world =>
    recorder.recordExt (.ofExt opcode accessor address world recorder.depth moment)
  | .selfDestruct accessor target value world =>
    recorder.recordSelfDestruct (.ofSelfDestruct accessor target value world recorder.depth moment)
  | .cheatcode cheatcode ending => (recorder.applyCheatcode cheatcode).callEnd true ending
  | .leave ending =>
    match recorder.frames with
    | [] => recorder
    | kind :: frames => { recorder with frames := frames }.frameEnd kind ending

/-- `get_state_diff`: the accesses of all lists, from the bottom up. -/
def getStateDiff : List AccountAccess :=
  recorder.recordedAccountDiffsStack.reverse.flatten

end Recorder

end SwissledgerFoundry.Cheatcodes
