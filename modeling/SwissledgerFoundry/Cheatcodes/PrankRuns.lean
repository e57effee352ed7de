import SwissledgerFoundry.Cheatcodes.Prank
import SwissledgerFoundry.Collections.Transition

/-!
# Runs with pranks

A single-call prank takes only itself away when it ends, and the origin is
restored.  Two steps break this: a prank that is first applied inside of a
delegate call is stored a second time, and the end of a create that ends a
single-call prank forgets all pranks.
-/

namespace SwissledgerFoundry.Cheatcodes

open Nat Transition List AList

/-- A prank is used for the first time by a call below its depth. -/
def Prank.FirstBelow (prank : Prank) (depth : ℕ) (caller : Address) : Prop :=
  prank.depth < depth ∧ caller = prank.prankCaller ∧
    prank.newOrigin.isSome = true ∧ prank.used = false

instance (prank : Prank) (depth : ℕ) (caller : Address) :
    Decidable (prank.FirstBelow depth caller) :=
  inferInstanceAs (Decidable (_ ∧ _))

/-- What the end of a single-call prank leaves of the pranks. -/
def FrameKind.remove : FrameKind → ℕ → Pranks → Pranks
  | .call => fun depth pranks => pranks.erase depth
  | .create => fun _ _ => ∅

namespace PrankState

def start (frames : List Frame) (txCaller : Address) : PrankState where
  frames := frames
  pranks := ∅
  txCaller := txCaller

section

variable (state : PrankState)

/-- No prank is used for the first time below its depth. -/
def AppliesHere (caller : Address) : Prop :=
  ∀ prank ∈ getPrank state.pranks state.depth, ¬ prank.FirstBelow state.depth caller

/-- A create that ends a single-call prank ends the only prank there is. -/
def EndsAlone : Prop :=
  ∀ prank ∈ getPrank state.pranks state.depth, prank.depth = state.depth → prank.singleCall = true →
      ∀ key ∈ state.pranks.keys, key = state.depth

instance (state : PrankState) (caller : Address) : Decidable (state.AppliesHere caller) :=
  inferInstanceAs (Decidable (∀ _ ∈ getPrank _ _, _))

instance (state : PrankState) : Decidable state.EndsAlone :=
  inferInstanceAs (Decidable (∀ _ ∈ getPrank _ _, _))

def Allowed : PrankEvent → Prop
  | .call scheme callee => state.AppliesHere (state.parties scheme callee).caller
  | .create _ => state.AppliesHere state.address
  | .leave =>
    ∀ frame ∈ state.frames.head?, frame.kind = .create →
      { state with frames := state.frames.tail }.EndsAlone
  | _ => True

end

instance decidableAllowed (state : PrankState) (event : PrankEvent) :
    Decidable (state.Allowed event) := by
  unfold Allowed
  split <;> infer_instance

/-- What entering a frame does to the pranks. -/
structure Entered (state : PrankState) (caller : Address) (after : PrankState) : Prop where
  depth : after.depth = state.depth + 1
  pranks : after.pranks = state.pranks ∨ ∃ prank, getPrank state.pranks state.depth = some prank ∧
      after.pranks = state.pranks.insert state.depth { prank with used := true } ∧
      (prank.depth = state.depth ∨ prank.FirstBelow state.depth caller)

section

variable (state : PrankState)

theorem applyPrank_pranks (prank : Prank) (caller : Address) :
    (state.applyPrank prank caller).1.pranks = state.pranks ∨
      (state.applyPrank prank caller).1.pranks =
          state.pranks.insert state.depth { prank with used := true } ∧
        (prank.depth = state.depth ∨ prank.FirstBelow state.depth caller) := by
  unfold applyPrank
  split
  · rename_i applies
    by_cases here : state.depth = prank.depth ∨ prank.newOrigin.isSome = true
    · rw [if_pos here]
      cases used : prank.used with
      | true =>
        left
        simp [Prank.firstTimeApplied, used]
      | false =>
        right
        refine ⟨by simp [Prank.firstTimeApplied, used], ?_⟩
        rcases lt_or_eq_of_le applies.1 with below | same
        · have origin := here.resolve_left (ne_of_gt below)
          exact .inr ⟨below, applies.2, origin, used⟩
        · exact .inl same
    · left
      simp only [if_neg here]
  · exact .inl rfl

theorem call_entered (scheme : CallScheme) (callee : Address) :
    Entered state (state.parties scheme callee).caller (state.call scheme callee) := by
  cases found : getPrank state.pranks state.depth with
  | none =>
    simp only [call, found]
    exact ⟨rfl, .inl rfl⟩
  | some prank =>
    by_cases delegate : prank.delegateCall = true ∧
        state.depth = prank.depth ∧ scheme = .delegateCall
    · -- A delegate call at the depth of its prank.
      have applied := applyPrank_pranks
        { state with txCaller := prank.newOrigin.getD state.txCaller }
        prank prank.newCaller
      simp only [call, found, applyDelegatePrank, if_pos delegate]
      exact ⟨rfl, applied.imp_right fun inserted =>
        ⟨prank, found, inserted.1, .inl delegate.2.1.symm⟩⟩
    have applied := state.applyPrank_pranks prank (state.parties scheme callee).caller
    simp only [call, found, applyDelegatePrank, if_neg delegate]
    exact ⟨rfl, applied.imp_right fun inserted => ⟨prank, found, inserted⟩⟩

theorem create_entered (address : Address) :
    Entered state state.address (state.create address) := by
  cases found : getPrank state.pranks state.depth with
  | none =>
    simp only [create, found]
    exact ⟨rfl, .inl rfl⟩
  | some prank =>
    have applied := state.applyPrank_pranks prank state.address
    simp only [create, found]
    exact ⟨rfl, applied.imp_right fun inserted => ⟨prank, found, inserted⟩⟩

theorem cleanUp_frames (remove : ℕ → Pranks → Pranks) :
    (state.cleanUp remove).frames = state.frames := by
  unfold cleanUp
  split
  · rfl
  split
  · rfl
  · rfl

/-- The end of a single-call prank is the only change to the pranks. -/
theorem cleanUp_pranks (remove : ℕ → Pranks → Pranks) :
    (state.cleanUp remove).pranks = state.pranks ∨
      ∃ prank, getPrank state.pranks state.depth = some prank ∧
        prank.depth = state.depth ∧ prank.singleCall = true ∧
        (state.cleanUp remove).pranks = remove state.depth state.pranks := by
  unfold cleanUp
  cases found : getPrank state.pranks state.depth with
  | none => exact .inl rfl
  | some prank =>
    by_cases here : state.depth = prank.depth
    · cases single : prank.singleCall with
      | false =>
        left
        simp [here, single]
      | true =>
        refine .inr ⟨prank, rfl, here.symm, single, ?_⟩
        simp only [if_pos here, single, if_true]
    · left
      simp only [if_neg here]

end

variable {state : PrankState} {prank : Prank}

theorem cleanUp_of_lookup (found : state.pranks.lookup state.depth = some prank)
    (depth : prank.depth = state.depth) (remove : ℕ → Pranks → Pranks) :
    (state.cleanUp remove).txCaller = prank.prankOrigin ∧ (state.cleanUp remove).pranks =
        if prank.singleCall then remove state.depth state.pranks
        else state.pranks := by
  rw [cleanUp, getPrank_of_lookup found]
  simp [depth]

variable {frames : List Frame}

theorem leave_eq {frame : Frame} (opened : state.frames = frame :: frames) :
    state.leave = { state with frames := frames }.cleanUp frame.kind.remove := by
  rw [leave, opened]
  cases kind : frame.kind with
  | call => simp only [kind]; rfl
  | create => simp only [kind]; rfl

theorem lookup_remove {frame : Frame}
    (opened : state.frames = frame :: frames) (allowed : state.Allowed .leave)
    (found : getPrank state.pranks frames.length = some prank)
    (depth : prank.depth = frames.length) (single : prank.singleCall = true)
    (key : ℕ) :
    (frame.kind.remove frames.length state.pranks).lookup key =
      if key = frames.length then none else state.pranks.lookup key := by
  cases kind : frame.kind with
  | call => exact lookup_erase_eq state.pranks frames.length key
  | create =>
    have alone : ∀ other ∈ state.pranks.keys, other = frames.length := by
      have head : frame ∈ state.frames.head? := by simp [opened]
      have ends := allowed frame head kind
      simp only [opened, tail_cons] at ends
      exact ends prank found depth single
    show lookup key (∅ : Pranks) = _
    rw [lookup_empty]
    split
    · rfl
    rename_i different
    symm
    rw [lookup_eq_none]
    intro member
    exact different (alone key (mem_keys.mp member))

variable {after : PrankState}

theorem prank_ok {newCaller : Address} {newOrigin : Option Address}
    {singleCall delegateCall hasCode : Bool}
    (accepted : state.prank newCaller newOrigin singleCall delegateCall hasCode = .ok after) :
    after.frames = state.frames ∧ ∃ prank : Prank,
      prank.depth = state.depth ∧ after.pranks = state.pranks.insert state.depth prank := by
  unfold prank at accepted
  repeat' split at accepted
  all_goals first
    | cases accepted
      exact ⟨rfl, _, rfl, rfl⟩
    | cases accepted

/-- Every prank is stored under its depth. -/
def Keyed (state : PrankState) : Prop :=
  ∀ depth prank, state.pranks.lookup depth = some prank → prank.depth = depth

/-- The pranks changed at one depth at most, which is that of one of the two
states, and what is new there has that depth. -/
def Touches (state after : PrankState) : Prop :=
  ∃ touched, (touched = state.depth ∨ touched = after.depth) ∧
    ∀ key, after.pranks.lookup key = state.pranks.lookup key ∨
      key = touched ∧ ∀ prank, after.pranks.lookup key = some prank → prank.depth = key

theorem touches_of_eq (same : after.pranks = state.pranks) : Touches state after :=
  ⟨_, .inl rfl, fun _ => .inl (by rw [same])⟩

theorem touches_insert (inserted : after.pranks = state.pranks.insert state.depth prank)
    (same : prank.depth = state.depth) : Touches state after := by
  refine ⟨_, .inl rfl, fun key => ?_⟩
  rw [inserted, lookup_insert_eq]
  split
  · rename_i here
    refine .inr ⟨here, ?_⟩
    rintro _ ⟨⟩
    rw [here, same]
  · exact .inl rfl

theorem touches_remove {touched : ℕ} (here : touched = state.depth ∨ touched = after.depth)
    (removed : ∀ key, after.pranks.lookup key =
      if key = touched then none else state.pranks.lookup key) : Touches state after := by
  refine ⟨touched, here, fun key => ?_⟩
  rw [removed]
  split
  · rename_i same
    exact .inr ⟨same, nofun⟩
  · exact .inl rfl

variable {caller : Address}

theorem Entered.touches (entered : Entered state caller after)
    (allowed : state.AppliesHere caller) : Touches state after := by
  rcases entered.pranks with same | ⟨prank, found, inserted, applied⟩
  · exact touches_of_eq same
  · exact touches_insert inserted (applied.resolve_right (allowed prank found))

theorem step_touches (event : PrankEvent) (allowed : state.Allowed event) :
    Touches state (state.step event) := by
  cases event with
  | call scheme callee => exact (state.call_entered scheme callee).touches allowed
  | create address => exact (state.create_entered address).touches allowed
  | leave =>
    show Touches state state.leave
    cases opened : state.frames with
    | nil =>
      rw [leave, opened]
      exact touches_of_eq rfl
    | cons frame frames =>
      rw [leave_eq opened]
      rcases cleanUp_pranks { state with frames := frames }
        frame.kind.remove with same | ⟨prank, found, depth, single, rest⟩
      · exact touches_of_eq same
      refine touches_remove (.inr ?_) fun key =>
        (congrArg _ rest).trans (lookup_remove opened allowed found depth single key)
      rw [PrankState.depth, cleanUp_frames]
  | prank newCaller newOrigin singleCall delegateCall hasCode =>
    simp only [step]
    split
    · rename_i after accepted
      obtain ⟨-, prank, depth, inserted⟩ := prank_ok accepted
      exact touches_insert inserted depth
    · exact touches_of_eq rfl
  | stopPrank => exact touches_remove (.inl rfl) (lookup_erase_eq state.pranks state.depth)

theorem Keyed.step (keyed : state.Keyed) (event : PrankEvent) (allowed : state.Allowed event) :
    (state.step event).Keyed := by
  intro key prank found
  obtain ⟨_, -, changed⟩ := step_touches event allowed
  rcases changed key with same | ⟨-, fresh⟩
  · exact keyed key prank (same.symm.trans found)
  · exact fresh prank found

variable {depth : ℕ}

/-- An allowed event between two states deeper than a depth does not touch the
prank at that depth. -/
theorem step_lookup_of_deeper {event : PrankEvent}
    (allowed : state.Allowed event) (deep : depth < state.depth)
    (stays : depth < (state.step event).depth) :
    (state.step event).pranks.lookup depth = state.pranks.lookup depth := by
  obtain ⟨touched, here, changed⟩ := step_touches event allowed
  rcases changed depth with same | ⟨rfl, -⟩
  · exact same
  rcases here with rfl | here
  · exact absurd deep (lt_irrefl _)
  · exact absurd here (Nat.ne_of_lt stays)

/-- The events stay inside of a frame that was entered at a depth. -/
def Within (depth : ℕ) (state : PrankState) (events : List PrankEvent) : Prop :=
  Transition.Along step (fun state event => depth < (state.step event).depth) state events

instance (depth : ℕ) (state : PrankState) (events : List PrankEvent) :
    Decidable (Within depth state events) :=
  inferInstanceAs (Decidable (Transition.Along _ _ _ _))

theorem run_lookup_of_within {events : List PrankEvent} (meets : Along step Allowed state events)
    (deep : depth < state.depth) (within : Within depth state events) :
    depth < (run step state events).depth ∧
      (run step state events).pranks.lookup depth = state.pranks.lookup depth := by
  induction events generalizing state with
  | nil => exact ⟨deep, rfl⟩
  | cons event events ih =>
    have kept := step_lookup_of_deeper meets.1 deep within.1
    obtain ⟨stays, later⟩ := ih meets.2 within.1 within.2
    exact ⟨stays, later.trans kept⟩

def enters : PrankEvent → Bool
  | .call _ _ => true
  | .create _ => true
  | _ => false

theorem step_entered {event : PrankEvent} (isFrame : enters event = true) :
    ∃ caller, Entered state caller (state.step event) := by
  cases event with
  | call scheme callee => exact ⟨_, state.call_entered scheme callee⟩
  | create address => exact ⟨_, state.create_entered address⟩
  | _ => cases isFrame

theorem Entered.lookup (entered : Entered state caller after)
    (found : state.pranks.lookup state.depth = some prank) :
    ∃ used, after.pranks.lookup state.depth = some { prank with used := used } := by
  rcases entered.pranks with same | ⟨other, looked, inserted, -⟩
  · exact ⟨prank.used, by rw [same, found]⟩
  rw [getPrank_of_lookup found] at looked
  cases looked
  refine ⟨true, ?_⟩
  rw [inserted, lookup_insert_eq, if_pos rfl]

theorem leave_txCaller (deep : depth < state.depth) (returns : state.leave.depth = depth)
    (found : state.pranks.lookup depth = some prank)
    (same : prank.depth = depth) :
    state.leave.txCaller = prank.prankOrigin := by
  cases opened : state.frames with
  | nil => simp [PrankState.depth, opened] at deep
  | cons frame frames =>
    rw [leave_eq opened] at returns ⊢
    rw [PrankState.depth, cleanUp_frames] at returns
    have here : ({ state with frames := frames } : PrankState).depth =
        depth := returns
    rw [← here] at found same
    exact (cleanUp_of_lookup found same _).1

theorem keyed_start (frames : List Frame) (txCaller : Address) : (start frames txCaller).Keyed := by
  nofun

theorem leave_pranks (keyed : state.Keyed) (allowed : state.Allowed .leave)
    (returns : state.leave.depth < state.depth)
    (found : state.pranks.lookup state.leave.depth = some prank)
    (single : prank.singleCall = true) (key : ℕ) :
    state.leave.pranks.lookup key = if key = state.leave.depth then none
      else state.pranks.lookup key := by
  cases opened : state.frames with
  | nil =>
    rw [leave, opened] at returns
    exact absurd returns (lt_irrefl _)
  | cons frame frames =>
    rw [leave_eq opened] at found ⊢
    rw [depth, cleanUp_frames] at found ⊢
    have depth : prank.depth = frames.length := keyed _ prank found
    have looked := getPrank_of_lookup found
    have cleaned : (cleanUp { state with frames := frames } frame.kind.remove).pranks = _ :=
      (cleanUp_of_lookup found depth frame.kind.remove).2
    rw [cleaned, if_pos single]
    exact lookup_remove opened allowed looked depth single key

/-- In a run in which every prank is first applied at its depth, and no create
ends a single-call prank beside another prank: each prank is under its depth;
a single-call prank takes exactly itself away when a frame returns to its
depth; and when a call or create made at the depth of a prank returns, the
origin is the one that the prank has saved. -/
theorem run_pranks {frames : List Frame} {txCaller : Address} {events : List PrankEvent}
    (meets : Transition.Along step Allowed (start frames txCaller) events) :
    (∀ reached, reached <+: events → (run step (start frames txCaller) reached).Keyed) ∧
    (∀ reached, reached ++ [.leave] <+: events →
      let before := run step (start frames txCaller) reached
      let after := before.step .leave
      ∀ prank, before.pranks.lookup after.depth = some prank →
        prank.singleCall = true → after.depth < before.depth → ∀ key, after.pranks.lookup key =
            if key = after.depth then none
            else before.pranks.lookup key) ∧
    ∀ reached event inner, reached ++ event :: (inner ++ [.leave]) <+: events →
      enters event = true →
      let before := run step (start frames txCaller) reached
      let after := run step before (event :: (inner ++ [.leave]))
      Within before.depth (before.step event) inner →
      after.depth = before.depth →
      ∀ prank, before.pranks.lookup before.depth = some prank →
        after.txCaller = prank.prankOrigin := by
  have keyed : ∀ reached, reached <+: events → (run step (start frames txCaller) reached).Keyed :=
    invariant_along Keyed (fun _ event keyed allowed => keyed.step event allowed)
      (keyed_start frames txCaller) meets
  have onwards : ∀ reached later, reached ++ later <+: events → Along step Allowed
        (run step (start frames txCaller) reached) later := by
    rintro reached later ⟨rest, rfl⟩
    exact (along_append.mp (along_append.mp meets).1).2
  refine ⟨keyed, ?_, ?_⟩
  · intro reached isPrefix before after prank found single returns
    have allowed := (onwards reached [.leave] isPrefix).1
    have stored := keyed reached ((prefix_append reached [.leave]).trans isPrefix)
    exact leave_pranks stored allowed returns found single
  intro reached event inner isPrefix isFrame before after within returns prank found
  have stored := keyed reached ((prefix_append reached _).trans isPrefix)
  have along := onwards reached _ isPrefix
  obtain ⟨caller, entered⟩ : ∃ caller, Entered before caller
      (before.step event) := step_entered isFrame
  obtain ⟨used, inside⟩ := entered.lookup found
  have deep : before.depth < (before.step event).depth := by
    rw [entered.depth]
    exact lt_succ_self _
  have meetsInner := (along_append.mp along.2).1
  obtain ⟨stays, kept⟩ := run_lookup_of_within meetsInner deep within
  have ended : after = (run step (before.step event) inner).leave := by
    show run step (before.step event) (inner ++ [.leave]) = _
    rw [run_append]
    rfl
  rw [ended] at returns ⊢
  have restored := leave_txCaller stays returns (kept.trans inside)
    (stored before.depth prank found)
  exact restored

/-- A contract of the test, called by the sender nine. -/
def testFrame : Frame where
  kind := .call
  address := 1
  caller := 9

/-- A pranked call whose callee pranks a call of its own. -/
theorem run_pranks_nested :
    let events : List PrankEvent :=
      [.prank 5 (some 6) true false false, .call .call 2,
        .prank 7 (some 8) true false false, .call .staticCall 3, .leave,
        .leave]
    let state := run step (start [testFrame] 9) events
    Along step Allowed (start [testFrame] 9) events ∧ state.Keyed ∧ state.txCaller = 9 := by
  have meets : Along step Allowed (start [testFrame] 9)
      [.prank 5 (some 6) true false false, .call .call 2,
        .prank 7 (some 8) true false false, .call .staticCall 3, .leave,
        .leave] := by decide +kernel
  refine ⟨meets, (run_pranks meets).1 _ (prefix_refl _), ?_⟩
  exact (run_pranks meets).2.2 [.prank 5 (some 6) true false false] (.call .call 2)
    [.prank 7 (some 8) true false false, .call .staticCall 3, .leave]
    (prefix_refl _) rfl (by decide +kernel) (by decide +kernel)
    ⟨1, 9, 5, some 6, 1, true, false, false⟩ (by decide +kernel)

/-- A prank that is first applied inside of a delegate call is also stored
under the depth of that call.  A create that ends a prank of the callee
forgets the prank of the caller, and the origin stays pranked. -/
theorem run_pranks_delegate_create :
    let delegate := run step (start [testFrame] 9)
      [.prank 5 (some 6) true false false, .call .delegateCall 2, .call .call 3]
    let create := run step (start [testFrame] 9)
      [.prank 5 (some 6) true false false, .call .call 2, .prank 7 none true false false, .create 3]
    let after := run step create [.leave, .leave]
    (delegate.pranks.lookup 2).map Prank.depth = some 1 ∧ (create.pranks.lookup 1).isSome = true ∧
      (create.step .leave).depth = 2 ∧
      (create.step .leave).pranks.lookup 1 = none ∧
      after.depth = 1 ∧ after.txCaller = 6 := by
  decide +kernel

end PrankState

end SwissledgerFoundry.Cheatcodes
