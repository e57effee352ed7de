import SwissledgerFoundry.Cheatcodes.Frames
import SwissledgerFoundry.Collections.HashMap

/-!
# Pranks

A prank replaces the sender, and optionally the origin, of the calls that a
contract makes.  Pranks are stored by depth; a call takes the one at its depth
or the nearest below.
-/

namespace SwissledgerFoundry.Cheatcodes

structure Prank where
  prankCaller : Address
  prankOrigin : Address
  newCaller : Address
  newOrigin : Option Address
  depth : ℕ
  singleCall : Bool
  delegateCall : Bool
  used : Bool
deriving DecidableEq

/-- The prank with `used` set, the first time it is applied. -/
def Prank.firstTimeApplied (prank : Prank) : Option Prank :=
  if prank.used then none else some { prank with used := true }

abbrev Pranks := HashMap ℕ Prank

/-- The prank at a depth or the first one at a lower depth. -/
def getPrank (pranks : Pranks) : ℕ → Option Prank
  | 0 => pranks.lookup 0
  | depth + 1 => (pranks.lookup (depth + 1)).or (getPrank pranks depth)

theorem getPrank_of_lookup {depth : ℕ} {prank : Prank} {pranks : Pranks}
    (found : pranks.lookup depth = some prank) :
    getPrank pranks depth = some prank := by
  cases depth with
  | zero => exact found
  | succ depth => rw [getPrank, found, Option.some_or]

/-- A frame of the EVM: the address it runs at and its sender. -/
structure Frame where
  kind : FrameKind
  address : Address
  caller : Address

/-- The frames, whose number is the depth of the journal, the pranks and the
origin of the transaction. -/
structure PrankState where
  frames : List Frame
  pranks : Pranks
  txCaller : Address

namespace PrankState

variable (state : PrankState)

def depth : ℕ := state.frames.length

/-- The address that the current instruction runs at. -/
def address : Address :=
  (state.frames.head?.map Frame.address).getD state.txCaller

def sender : Address :=
  (state.frames.head?.map Frame.caller).getD state.txCaller

/-- The sender of a call and the address that it runs at. -/
structure Parties where
  caller : Address
  target : Address

/-- A call as the EVM makes it. -/
def parties (scheme : CallScheme) (callee : Address) : Parties :=
  match scheme with
  | .call => { caller := state.address, target := callee }
  | .staticCall => { caller := state.address, target := callee }
  | .callCode => { caller := state.address, target := state.address }
  | .delegateCall => { caller := state.sender, target := state.address }

/-- The part of both hooks that applies a prank, with the new sender. -/
def applyPrank (prank : Prank) (caller : Address) : PrankState × Address :=
  if prank.depth ≤ state.depth ∧ caller = prank.prankCaller then
    ({ state with
        txCaller := prank.newOrigin.getD state.txCaller
        pranks :=
          if state.depth = prank.depth ∨ prank.newOrigin.isSome then
            match prank.firstTimeApplied with
            | some applied => state.pranks.insert state.depth applied
            | none => state.pranks
          else state.pranks },
      if state.depth = prank.depth then prank.newCaller else caller)
  else (state, caller)

/-- A prank for delegate calls, which makes them run at the new sender. -/
def applyDelegatePrank (prank : Prank)
    (scheme : CallScheme) (parties : Parties) : PrankState × Parties :=
  if prank.delegateCall = true ∧ state.depth = prank.depth ∧ scheme = .delegateCall then
    ({ state with txCaller := prank.newOrigin.getD state.txCaller },
      { caller := prank.newCaller, target := prank.newCaller })
  else (state, parties)

def call (scheme : CallScheme) (callee : Address) : PrankState :=
  let parties := state.parties scheme callee
  match getPrank state.pranks state.depth with
  | none => { state with frames := ⟨.call, parties.target, parties.caller⟩ :: state.frames }
  | some prank =>
    let delegated := state.applyDelegatePrank prank scheme parties
    let applied := delegated.1.applyPrank prank delegated.2.caller
    { applied.1 with frames := ⟨.call, delegated.2.target, applied.2⟩ :: state.frames }

def create (address : Address) : PrankState :=
  match getPrank state.pranks state.depth with
  | none => { state with frames := ⟨.create, address, state.address⟩ :: state.frames }
  | some prank =>
    let applied := state.applyPrank prank state.address
    { applied.1 with frames := ⟨.create, address, applied.2⟩ :: state.frames }

variable (state : PrankState)

/-- The part of both end hooks that cleans up pranks.  `remove` is what the
end of a single-call prank leaves. -/
def cleanUp (remove : ℕ → Pranks → Pranks) : PrankState :=
  match getPrank state.pranks state.depth with
  | none => state
  | some prank =>
    if state.depth = prank.depth then
      { state with
        txCaller := prank.prankOrigin
        pranks := if prank.singleCall then remove state.depth state.pranks
          else state.pranks }
    else state

def callEnd : PrankState :=
  state.cleanUp fun depth pranks => pranks.erase depth

/-- Unlike `call_end`, the hook takes all pranks out of the state. -/
def createEnd : PrankState := state.cleanUp fun _ _ => ∅

def leave : PrankState :=
  match state.frames with
  | [] => state
  | frame :: frames =>
    match frame.kind with
    | .call => { state with frames := frames }.callEnd
    | .create => { state with frames := frames }.createEnd

/-- The cheatcodes `prank` and `startPrank`. -/
def prank (newCaller : Address)
    (newOrigin : Option Address) (singleCall delegateCall hasCode : Bool) :
    Except String PrankState := do
  if delegateCall && !hasCode then
    throw "cannot `prank` delegate call from an EOA"
  if let some current := getPrank state.pranks state.depth then
    if !current.used then
      throw "cannot overwrite a prank until it is applied at least once"
    if singleCall != current.singleCall then
      throw ("cannot override an ongoing prank with a single vm.prank; " ++
        "use vm.startPrank to override the current prank")
  return { state with
    pranks := state.pranks.insert state.depth
      { prankCaller := state.address
        prankOrigin := state.txCaller
        newCaller, newOrigin
        depth := state.depth
        singleCall, delegateCall
        used := false } }

def stopPrank : PrankState :=
  { state with pranks := state.pranks.erase state.depth }

end PrankState

/-- A frame is entered or left, or a cheatcode is called. -/
inductive PrankEvent where
  | call (scheme : CallScheme) (callee : Address)
  | create (address : Address)
  | leave
  | prank (newCaller : Address) (newOrigin : Option Address)
      (singleCall delegateCall hasCode : Bool)
  | stopPrank

namespace PrankState

/-- One event.  A cheatcode that is refused changes nothing. -/
def step (state : PrankState) : PrankEvent → PrankState
  | .call scheme callee => state.call scheme callee
  | .create address => state.create address
  | .leave => state.leave
  | .prank newCaller newOrigin singleCall delegateCall hasCode =>
    match state.prank newCaller newOrigin singleCall delegateCall hasCode with
    | .ok after => after
    | .error _ => state
  | .stopPrank => state.stopPrank

end PrankState

end SwissledgerFoundry.Cheatcodes
