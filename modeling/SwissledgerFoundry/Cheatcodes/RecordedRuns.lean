import SwissledgerFoundry.Cheatcodes.RecordedTrace

/-!
# Runs of the recorder

The flattened record is the log of the execution, with exactly the accesses
marked whose frames have been undone, if the end hook of every recorded frame
reaches the recorder.
-/

namespace SwissledgerFoundry.Cheatcodes

open Nat Transition List Recorder AccountAccess

variable (recorder : Recorder)

namespace Recorder

/-- Two recorders with the same lists and frames. -/
def SameRecord (before after : Recorder) : Prop :=
  after.recordedAccountDiffsStack = before.recordedAccountDiffsStack ∧ after.frames = before.frames

section

variable (recorder : Recorder) (cheatcodeCall : Bool) (ending : Ending)

theorem handleAssumeNoRevert_frame :
    recorder.SameRecord (recorder.handleAssumeNoRevert cheatcodeCall ending).1 := by
  unfold handleAssumeNoRevert
  split
  · exact ⟨rfl, rfl⟩
  split
  · exact ⟨rfl, rfl⟩
  · exact ⟨rfl, rfl⟩

theorem handleExpectRevert_frame :
    recorder.SameRecord (recorder.handleExpectRevert cheatcodeCall ending).1 := by
  unfold handleExpectRevert
  split
  · exact ⟨rfl, rfl⟩
  split
  · split
    · exact ⟨rfl, rfl⟩
    · exact ⟨rfl, rfl⟩
  · exact ⟨rfl, rfl⟩

theorem callEndEarly_frame :
    recorder.SameRecord (recorder.callEndEarly cheatcodeCall ending).1 := by
  obtain ⟨assumedStack, assumedFrames⟩ := recorder.handleAssumeNoRevert_frame cheatcodeCall ending
  obtain ⟨stack, frames⟩ :=
    (recorder.handleAssumeNoRevert cheatcodeCall
      ending).1.handleExpectRevert_frame cheatcodeCall ending
  simp only [callEndEarly]
  split
  · exact ⟨assumedStack, assumedFrames⟩
  · exact ⟨stack.trans assumedStack, frames.trans assumedFrames⟩

end

theorem frameEndEarly_frame (recorder : Recorder) (kind : FrameKind) (ending : Ending) :
    recorder.SameRecord (recorder.frameEndEarly kind ending).1 := by
  cases kind with
  | call => exact recorder.callEndEarly_frame false ending
  | create =>
    simp only [frameEndEarly, handleExpectRevertCreate]
    split
    · exact ⟨rfl, rfl⟩
    split
    · exact ⟨rfl, rfl⟩
    · exact ⟨rfl, rfl⟩

theorem callEnd_cheatcode (ending : Ending) :
    recorder.callEnd true ending = (recorder.callEndEarly true ending).1 := by
  have early : (recorder.callEndEarly true ending).2 = true := by
    simp only [callEndEarly]
    split
    · assumption
    · exact Bool.or_true _
  simp only [callEnd, early, if_true]

theorem closeFrame_frames (update : AccountAccess → AccountAccess) (result : InstructionResult) :
    (recorder.closeFrame update result).frames = recorder.frames := by
  unfold closeFrame
  split <;> rfl

end Recorder

/-- What the end hook writes into the access of its frame. -/
def FrameKind.update : FrameKind → Ending → AccountAccess → AccountAccess
  | .call => updateCall
  | .create => updateCreate

theorem FrameKind.unseen_update (kind : FrameKind) (ending : Ending) :
    Unseen (kind.update ending) := by
  cases kind with
  | call => exact unseen_updateCall ending
  | create => exact unseen_updateCreate ending

variable {ending : Ending} {kind : FrameKind}

namespace Recorder

theorem frameEnd_eq (kind : FrameKind) (ending : Ending) : recorder.frameEnd kind ending =
      if (recorder.frameEndEarly kind ending).2 then
        (recorder.frameEndEarly kind ending).1
      else (recorder.frameEndEarly kind ending).1.closeFrame
        (kind.update ending) ending.result := by
  cases kind <;> rfl

theorem frameEnd_frames (kind : FrameKind) (ending : Ending) :
    (recorder.frameEnd kind ending).frames = recorder.frames := by
  obtain ⟨-, frames⟩ := recorder.frameEndEarly_frame kind ending
  rw [frameEnd_eq]
  split
  · exact frames
  · rw [closeFrame_frames]
    exact frames

theorem frameEnd_stack {recorder : Recorder}
    (late : (recorder.frameEndEarly kind ending).2 = false) :
    (recorder.frameEnd kind ending).recordedAccountDiffsStack =
      if recorder.depth = 0 then recorder.recordedAccountDiffsStack
      else popFrame recorder.depth (kind.update ending) ending.result
        recorder.recordedAccountDiffsStack := by
  obtain ⟨stack, frames⟩ := recorder.frameEndEarly_frame kind ending
  have depth : (recorder.frameEndEarly kind ending).1.depth =
      recorder.depth := congrArg length frames
  rw [frameEnd_eq, late, if_neg Bool.false_ne_true, closeFrame, depth]
  split
  · exact stack
  · simp only [stack]

end Recorder

/-- What holds between the recorder and the execution. -/
structure Sound (outer : ℕ) (recording : Recording) : Prop where
  stacked : Stacked recording.trace.undone outer recording.trace.running
    recording.recorder.recordedAccountDiffsStack recording.trace.log
  depth : recording.recorder.frames.length = outer + recording.trace.running.length
  rooted : recording.trace.running ≠ [] → 0 < outer
  newest : recording.trace.running.Pairwise (· > ·)
  intact : Intact recording.trace.undone recording.trace.running
  running : ∀ frame ∈ recording.trace.running, frame < recording.trace.moment
  paths : ∀ entry ∈ recording.trace.log, ∀ frame ∈ entry.path, frame < recording.trace.moment
  undone : ∀ frame ∈ recording.trace.undone, frame < recording.trace.moment

variable {undone : List ℕ}

theorem Segment.nonempty {first : AccountAccess} {others : List AccountAccess}
    {entries : List Entry} {frames : List ℕ}
    (segment : Segment undone frames (first :: others) entries) :
    entries ≠ [] := by
  rintro rfl
  have accesses := segment.accesses
  rw [map_nil, flatMap_cons, append_eq_nil_iff] at accesses
  have none := accesses.1
  rw [AccountAccess.accesses, append_eq_nil_iff, map_eq_nil_iff] at none
  by_cases resume : first.kind = .resume
  · have started := segment.resumed first mem_cons_self resume
    simp [none.2] at started
  · rw [if_neg resume] at none
    cases none.1

variable {stack : List (List AccountAccess)} {running : List ℕ} {outer : ℕ}

theorem Stacked.isEmpty_iff {log : List Entry} (stacked : Stacked undone outer running stack log) :
    stack.isEmpty = log.isEmpty := by
  cases stacked with
  | empty => rfl
  | finished bottom segment => rw [isEmpty_cons, isEmpty_eq_false_iff.mpr segment.nonempty]
  | frame below depth unmarked outside segment =>
    have nonempty := segment.nonempty
    rw [isEmpty_cons, eq_comm, isEmpty_eq_false_iff]
    intro empty
    exact nonempty (append_eq_nil_iff.mp empty).2

namespace Sound

variable {outer : ℕ} {recorder : Recorder} {trace : Trace}

section

variable (sound : Sound outer ⟨recorder, trace⟩)

include sound

theorem enter_intact : Intact trace.undone (trace.moment :: trace.running) :=
  forall_mem_cons.mpr ⟨fun member => lt_irrefl _ (sound.undone _ member), sound.intact⟩

theorem tick {after : Recorder} (frames : after.frames = recorder.frames)
    (stack : after.recordedAccountDiffsStack = recorder.recordedAccountDiffsStack) :
    Sound outer ⟨after, { trace with moment := trace.moment + 1 }⟩ where
  stacked := by
    rw [stack]
    exact sound.stacked
  depth := by
    rw [frames]
    exact sound.depth
  rooted := sound.rooted
  newest := sound.newest
  intact := sound.intact
  running := fun frame member => lt_succ_of_lt (sound.running frame member)
  paths := fun entry member frame inPath => lt_succ_of_lt (sound.paths entry member frame inPath)
  undone := fun frame member => lt_succ_of_lt (sound.undone frame member)

theorem access (stacked : Stacked trace.undone outer trace.running stack
      (trace.log ++ [⟨trace.moment, false, trace.running⟩])) :
    Sound outer ⟨{ recorder with recordedAccountDiffsStack := stack },
        { trace.access with moment := trace.moment + 1 }⟩ := by
  have later := sound.tick rfl rfl
  exact
    { later with
      stacked := stacked
      paths := forall_mem_append.mpr ⟨later.paths, forall_mem_singleton.mpr later.running⟩ }

end

section

variable (sound : Sound outer ⟨recorder, trace⟩)

include sound

theorem pushFrame {record : AccountAccess} (live : recorder.frames ≠ []) (kind : FrameKind)
    (isFrame : record.kind.isFrame = true) (unmarked : record.reverted = false)
    (empty : record.storageAccesses = [])
    (depth : record.depth = recorder.depth)
    (moment : record.moment = trace.moment) :
    Sound outer ⟨recorder.pushFrame kind record,
      { trace.enter with moment := trace.moment + 1 }⟩ where
  stacked := by
    have notResume : record.kind ≠ .resume := by
      intro resume
      rw [resume] at isFrame
      cases isFrame
    have outside : ∀ entry ∈ trace.log, trace.moment ∉ entry.path := by
      intro entry member inPath
      exact lt_irrefl _ (sound.paths entry member _ inPath)
    have segment := Segment.singleton notResume unmarked empty sound.enter_intact
    rw [isFrame, moment] at segment
    exact .frame sound.stacked (depth.trans sound.depth) unmarked outside segment
  depth := by
    show (kind :: recorder.frames).length = _
    rw [length_cons, sound.depth]
    rfl
  rooted := by
    intro _
    have positive := length_pos_iff.mpr live
    rw [sound.depth] at positive
    by_cases idle : trace.running = []
    · rw [idle] at positive
      exact positive
    · exact sound.rooted idle
  newest := pairwise_cons.mpr ⟨sound.running, sound.newest⟩
  intact := sound.enter_intact
  running := forall_mem_cons.mpr ⟨lt_succ_self _, (sound.tick rfl rfl).running⟩
  paths := by
    have later := sound.tick rfl rfl
    refine forall_mem_append.mpr ⟨later.paths, forall_mem_singleton.mpr ?_⟩
    exact forall_mem_cons.mpr ⟨lt_succ_self _, later.running⟩
  undone := (sound.tick rfl rfl).undone

theorem recordStorage {access : StorageAccess} (fresh : access.reverted = false)
    (moment : access.moment = trace.moment) :
    Sound outer ⟨recorder.recordStorage access,
      { (if trace.running = [] then trace else trace.access) with
        moment := trace.moment + 1 }⟩ := by
  by_cases idle : trace.running = []
  · rw [if_pos idle]
    apply sound.tick
    · unfold Recorder.recordStorage
      split
      · rfl
      · rfl
    unfold Recorder.recordStorage
    cases stack : recorder.recordedAccountDiffsStack with
    | nil => exact stack
    | cons last rest =>
      have stacked := sound.stacked
      have depth := sound.depth
      simp only [idle, stack] at stacked depth
      rw [length_nil, add_zero] at depth
      simp only [Recorder.depth, depth, stacked.recordStorage_outer]
  rw [if_neg idle]
  cases running : trace.running with
  | nil => exact absurd running idle
  | cons frame rest =>
    have stacked := sound.stacked
    have intact := sound.intact
    simp only [running] at stacked intact
    obtain ⟨last, below, stack, after⟩ := stacked.recordStorage fresh intact
    have depth : recorder.depth = outer + (frame :: rest).length := by
      rw [← running]
      exact sound.depth
    rw [moment, ← running] at after
    simp only [Recorder.recordStorage, stack]
    rw [depth, ← running]
    exact sound.access after

theorem recordExt {record : AccountAccess} (notResume : record.kind ≠ .resume)
    (notFrame : record.kind.isFrame = false)
    (unmarked : record.reverted = false) (empty : record.storageAccesses = [])
    (depth : record.depth = recorder.depth)
    (moment : record.moment = trace.moment) :
    Sound outer ⟨recorder.recordExt record,
      { trace.access with moment := trace.moment + 1 }⟩ := by
  have deep : outer ≤ record.depth := by
    rw [depth, Recorder.depth, sound.depth]
    exact le_add_right _ _
  have stacked := sound.stacked.record notResume notFrame unmarked empty deep sound.intact
  rw [moment] at stacked
  exact sound.access stacked

theorem answered (kind : FrameKind) (harmless : (recorder.frameEndEarly kind ending).2 = true ∨
      trace.running = [] ∧ ending.result ≠ .revert) :
    Sound outer ⟨recorder.frameEnd kind ending,
      { trace with moment := trace.moment + 1 }⟩ := by
  cases early : (recorder.frameEndEarly kind ending).2 with
  | true =>
    apply sound.tick (recorder.frameEnd_frames kind ending)
    rw [frameEnd_eq, if_pos early]
    exact (recorder.frameEndEarly_frame kind ending).1
  | false =>
    rw [early] at harmless
    obtain ⟨idle, kept⟩ := harmless.resolve_left Bool.false_ne_true
    have stacked := sound.stacked
    simp only [idle] at stacked
    have after := stacked.close_outer (kind.unseen_update ending) kept recorder.depth
    refine { sound.tick rfl rfl with stacked := ?_, depth := ?_ }
    · rw [frameEnd_stack early, idle]
      split
      · exact stacked
      · exact after
    · rw [frameEnd_frames]
      exact sound.depth

end

variable {frames : List FrameKind}
  (sound : Sound outer ⟨recorder, trace⟩) (opened : recorder.frames = kind :: frames)

include sound opened

theorem leave_outer (idle : trace.running = []) (normal : ending.result = .ok) :
    Sound (outer - 1) ⟨{ recorder with frames := frames }.frameEnd kind ending,
        { trace.leave ending.result with moment := trace.moment + 1 }⟩ := by
  have stacked := sound.stacked
  have depth := sound.depth
  simp only [idle] at stacked
  simp only [idle, opened, length_cons, length_nil] at depth
  have returned : Sound (outer - 1) ⟨{ recorder with frames := frames }, trace⟩ :=
    { sound with
      stacked := by
        simp only [idle]
        exact stacked.lower (sub_le outer 1)
      depth := by
        simp only [idle, length_nil]
        omega
      rooted := fun busy => absurd idle busy }
  have kept : ending.result ≠ .revert := by
    rw [normal]
    exact fun same => by cases same
  have same : trace.leave ending.result = trace := by rw [Trace.leave, idle]
  rw [same]
  exact returned.answered kind (.inr ⟨idle, kept⟩)

theorem leave_inner {frame : ℕ} (busy : trace.running = frame :: running)
    (noHalt : ending.result ≠ .halt)
    (late : ({ recorder with frames := frames }.frameEndEarly kind ending).2 = false) :
    Sound outer ⟨{ recorder with frames := frames }.frameEnd kind ending,
        { trace.leave ending.result with moment := trace.moment + 1 }⟩ := by
  have stacked := sound.stacked
  have depth := sound.depth
  have newest := sound.newest
  have intact := sound.intact
  have later := sound.tick rfl rfl
  have bounded := later.running
  simp only [busy] at stacked newest intact bounded
  simp only [busy, opened, length_cons] at depth
  obtain ⟨older, newest⟩ := pairwise_cons.mp newest
  have rooted : 0 < outer := sound.rooted (by
    rw [busy]
    exact cons_ne_nil frame running)
  have deep : ¬ ({ recorder with frames := frames } : Recorder).depth = 0 :=
    by
      show ¬ frames.length = 0
      omega
  have left : trace.leave ending.result =
      { trace with
        running := running
        undone := if ending.result = .ok then trace.undone
          else frame :: trace.undone } := by
    rw [Trace.leave, busy]
  have returned : (if ending.result = .ok then trace.undone
      else frame :: trace.undone) ⊆ frame :: trace.undone := by
    split
    · exact subset_cons_self frame trace.undone
    · exact Subset.refl _
  rw [left]
  constructor
  · rw [frameEnd_stack late, if_neg deep]
    cases result : ending.result with
    | ok => exact stacked.close (kind.unseen_update ending) (fun same => by cases same) _
    | revert => exact stacked.close_revert (kind.unseen_update ending) _
    | halt => exact absurd result noHalt
  · show ({ recorder with frames := frames }.frameEnd kind
      ending).frames.length = outer + running.length
    rw [frameEnd_frames]
    show frames.length = _
    omega
  · exact fun _ => rooted
  · exact newest
  · intro other member undone
    rcases mem_cons.mp (returned undone) with rfl | earlier
    · exact lt_irrefl _ (older other member)
    · exact intact other (mem_cons_of_mem frame member) earlier
  · exact (forall_mem_cons.mp bounded).2
  · exact later.paths
  intro other member
  rcases mem_cons.mp (returned member) with rfl | earlier
  · exact bounded other mem_cons_self
  · exact later.undone other earlier

end Sound

theorem Recorder.applyCheatcode_frame (cheatcode : RevertCheatcode) :
    recorder.SameRecord (recorder.applyCheatcode cheatcode) := by
  cases cheatcode with
  | other => exact ⟨rfl, rfl⟩
  | _ =>
    simp only [applyCheatcode]
    split <;> exact ⟨rfl, rfl⟩

variable {recording : Recording}

theorem Sound.step (sound : Sound outer recording) (event : RecordingEvent)
    (allowed : recording.Allowed event) :
    ∃ outer', Sound outer' (recording.step event) := by
  obtain ⟨recorder, trace⟩ := recording
  by_cases finished : recorder.frames.isEmpty = true
  · rw [Recording.step, if_pos finished]
    exact ⟨outer, sound⟩
  have live : recorder.frames ≠ [] := by simpa using finished
  rw [Recording.step, if_neg finished]
  cases event with
  | call call world =>
    have isFrame : (AccountAccessKind.ofScheme call.scheme).isFrame =
        true := by
      cases call.scheme <;> rfl
    exact ⟨outer, sound.pushFrame live .call isFrame rfl rfl rfl rfl⟩
  | create create address world => exact ⟨outer, sound.pushFrame live .create rfl rfl rfl rfl rfl⟩
  | mockedCall ending => exact ⟨outer, sound.answered .call allowed⟩
  | interceptedCreate ending => exact ⟨outer, sound.answered .create allowed⟩
  | storage address key stored present => exact ⟨outer, sound.recordStorage rfl rfl⟩
  | ext opcode accessor address world =>
    have kind : opcode.kind ≠ .resume ∧ opcode.kind.isFrame = false := by cases opcode <;> decide
    exact ⟨outer, sound.recordExt kind.1 kind.2 rfl rfl rfl rfl⟩
  | selfDestruct accessor target value world =>
    refine ⟨outer, ?_⟩
    have same := sound.stacked.isEmpty_iff
    simp only [step, recordSelfDestruct, Trace.step, Trace.apply]
    rw [same]
    split
    · exact sound.tick rfl rfl
    · exact sound.recordExt (fun same => by cases same) rfl rfl rfl rfl rfl
  | cheatcode cheatcode ending =>
    refine ⟨outer, ?_⟩
    obtain ⟨stack, frames⟩ := recorder.applyCheatcode_frame cheatcode
    obtain ⟨endStack, endFrames⟩ :=
      (recorder.applyCheatcode cheatcode).callEndEarly_frame true ending
    simp only [step, callEnd_cheatcode]
    exact sound.tick (endFrames.trans frames) (endStack.trans stack)
  | leave ending =>
    cases frames : recorder.frames with
    | nil => exact absurd frames live
    | cons kind rest =>
      simp only [Recording.Allowed, frames] at allowed
      simp only [step, frames]
      cases running : trace.running with
      | nil =>
        rw [if_pos running] at allowed
        exact ⟨outer - 1, sound.leave_outer frames running allowed⟩
      | cons frame enclosing =>
        have busy : ¬ trace.running = [] := by
          rw [running]
          exact cons_ne_nil frame enclosing
        rw [if_neg busy] at allowed
        exact ⟨outer, sound.leave_inner frames running allowed.1 allowed.2⟩

/-- The log is in the order of time and has one entry for each frame. -/
structure Trace.Ordered (trace : Trace) : Prop where
  past : ∀ entry ∈ trace.log, entry.moment < trace.moment
  order : trace.log.Pairwise fun left right => left.moment < right.moment
  entered : (trace.log.filter Entry.frame).map Entry.moment = trace.entered

namespace Trace.Ordered

variable {trace : Trace} (ordered : trace.Ordered)

include ordered

theorem append (frame : Bool) (path : List ℕ) {entered : List ℕ}
    (counted : entered = trace.entered ++ if frame then [trace.moment] else [])
    (running undone : List ℕ) :
    Trace.Ordered
      { moment := trace.moment + 1
        running := running
        log := trace.log ++ [⟨trace.moment, frame, path⟩]
        entered := entered
        undone := undone } where
  past := forall_mem_append.mpr
    ⟨fun entry member => lt_succ_of_lt (ordered.past entry member),
      forall_mem_singleton.mpr (lt_succ_self _)⟩
  order := by
    rw [pairwise_append]
    refine ⟨ordered.order, pairwise_singleton _ _, ?_⟩
    intro entry member
    exact forall_mem_singleton.mpr (ordered.past entry member)
  entered := by
    rw [counted, ← ordered.entered, filter_append, map_append]
    cases frame <;> rfl

theorem tick (running undone : List ℕ) : Trace.Ordered
      { trace with moment := trace.moment + 1, running := running, undone := undone } where
  past := fun entry member => lt_succ_of_lt (ordered.past entry member)
  order := ordered.order
  entered := ordered.entered

theorem step (event : RecordingEvent) : (trace.step event).Ordered := by
  have access : Trace.Ordered { trace.access with moment := trace.moment + 1 } :=
    ordered.append false _ (append_nil _).symm _ _
  have same : Trace.Ordered { trace with moment := trace.moment + 1 } :=
    ordered.tick trace.running trace.undone
  have enter : Trace.Ordered { trace.enter with moment := trace.moment + 1 } :=
    ordered.append true _ rfl _ _
  cases event with
  | call call world => exact enter
  | create create address world => exact enter
  | mockedCall ending => exact same
  | interceptedCreate ending => exact same
  | ext opcode accessor address world => exact access
  | cheatcode cheatcode ending => exact same
  | leave ending =>
    simp only [Trace.step, Trace.apply, Trace.leave]
    split
    · exact same
    · exact ordered.tick _ _
  | _ =>
    simp only [Trace.step, Trace.apply]
    split
    · exact same
    · exact access

end Trace.Ordered

theorem sound_start (frames : List FrameKind)
    (expectedRevert : Option ExpectedRevert) (assumeNoRevert : Option ℕ) :
    Sound frames.length (.start frames expectedRevert assumeNoRevert) where
  stacked := .empty
  depth := rfl
  rooted := fun busy => absurd rfl busy
  newest := Pairwise.nil
  intact := fun _ member => absurd member not_mem_nil
  running := fun _ member => absurd member not_mem_nil
  paths := fun _ member => absurd member not_mem_nil
  undone := fun _ member => absurd member not_mem_nil

/-- The recorder follows the execution, and the log is in order. -/
def Faithful (recording : Recording) : Prop :=
  (∃ outer, Sound outer recording) ∧ recording.trace.Ordered

theorem faithful_start (frames : List FrameKind)
    (expectedRevert : Option ExpectedRevert) (assumeNoRevert : Option ℕ) :
    Faithful (.start frames expectedRevert assumeNoRevert) := by
  refine ⟨⟨_, sound_start frames expectedRevert assumeNoRevert⟩, ?_⟩
  exact
    { past := fun _ member => absurd member not_mem_nil
      order := Pairwise.nil
      entered := rfl }

theorem Faithful.step (faithful : Faithful recording) (event : RecordingEvent)
    (allowed : recording.Allowed event) :
    Faithful (recording.step event) := by
  obtain ⟨⟨outer, sound⟩, ordered⟩ := faithful
  refine ⟨sound.step event allowed, ?_⟩
  unfold Recording.step
  split
  · exact ordered
  · exact ordered.step event

/-- The flattened record of a run is the log of the execution: in order, with
one access for each recorded frame, and marked where the frame of the access
or one of its recorded callers has been undone. -/
theorem Recording.run_getStateDiff {frames : List FrameKind}
    {expectedRevert : Option ExpectedRevert} {assumeNoRevert : Option ℕ}
    {events : List RecordingEvent}
    (meets : Transition.Along Recording.step Recording.Allowed
      (.start frames expectedRevert assumeNoRevert) events) :
    ∀ reached, reached <+: events →
      let recording := run Recording.step
        (.start frames expectedRevert assumeNoRevert) reached
      let accesses := recording.recorder.getStateDiff.flatMap accesses
      accesses = recording.trace.log.map (judge recording.trace.undone) ∧
        (accesses.Pairwise fun left right => left.moment < right.moment) ∧
        (accesses.filter Access.frame).map Access.moment = recording.trace.entered ∧
        ∀ record ∈ recording.recorder.getStateDiff, record.kind = .resume →
          record.storageAccesses.head?.map StorageAccess.reverted = some record.reverted := by
  intro reached isPrefix
  have faithful := invariant_along Faithful
    (fun _ event faithful allowed => faithful.step event allowed)
    (faithful_start frames expectedRevert assumeNoRevert) meets reached
    isPrefix
  generalize run Recording.step (.start frames expectedRevert assumeNoRevert) reached = recording
    at faithful ⊢
  obtain ⟨⟨outer, sound⟩, ordered⟩ := faithful
  have flattened : recording.recorder.getStateDiff.flatMap accesses =
      recording.trace.log.map (judge recording.trace.undone) :=
    sound.stacked.accesses
  refine ⟨flattened, ?_, ?_, sound.stacked.resumed⟩
  · rw [flattened, pairwise_map]
    exact ordered.order
  · rw [flattened, ← ordered.entered, filter_map, map_map]
    rfl

namespace RecordingEvent

/-- A call from one address to another, in an empty world. -/
def calls (caller target : Address) : RecordingEvent :=
  .call
    { scheme := .call, caller := caller, targetAddress := target,
      bytecodeAddress := target, value := .transfer 0, gasLimit := 100000,
      input := [] }
    { chainInfo := { forkId := 0, chainId := 1 }, loaded := none }

/-- `SSTORE` of one into the first slot. -/
def stores (address : Address) : RecordingEvent := .storage address 0 (some 1) none

end RecordingEvent

/-- The end of a frame that an expected revert would accept. -/
def Ending.plain (result : InstructionResult) : Ending where
  result := result
  accepted := true
  loaded := none
  address := none

/-- The second frame reverts and the first one does not. -/
theorem Recording.run_getStateDiff_inner_revert :
    let events : List RecordingEvent :=
      [.calls 1 2, .stores 2, .calls 2 3, .stores 3, .leave (.plain .revert),
        .stores 2, .leave (.plain .ok)]
    let recording := run Recording.step (.start [.call] none none) events
    Along Recording.step Recording.Allowed (.start [.call] none none) events ∧
      recording.recorder.getStateDiff.flatMap accesses =
        recording.trace.log.map (judge recording.trace.undone) ∧
      recording.trace.log.map (judge recording.trace.undone) =
        [⟨0, true, false⟩, ⟨1, false, false⟩, ⟨2, true, true⟩,
          ⟨3, false, true⟩, ⟨5, false, false⟩] :=
  ⟨by decide +kernel, (Recording.run_getStateDiff (by decide +kernel) _ (prefix_refl _)).1,
    by decide +kernel⟩

/-- A mocked revert marks the accesses of its caller, which goes on; an
expected revert leaves the accesses of its frame unmarked. -/
theorem Recording.run_getStateDiff_unbalanced :
    let mocked := run Recording.step (.start [.call] none none)
      [.calls 1 2, .stores 2, .mockedCall (.plain .revert), .leave (.plain .ok)]
    let expected := run Recording.step (.start [.call] none none)
      [.cheatcode (.expectRevert false 1) (.plain .ok), .calls 1 2,
        .stores 2, .leave (.plain .revert)]
    mocked.recorder.getStateDiff.flatMap accesses = [⟨0, true, true⟩, ⟨1, false, true⟩] ∧
      mocked.trace.log.map (judge mocked.trace.undone) = [⟨0, true, false⟩, ⟨1, false, false⟩] ∧
      expected.recorder.getStateDiff.flatMap accesses = [⟨1, true, false⟩, ⟨2, false, false⟩] ∧
      expected.trace.log.map (judge expected.trace.undone) =
        [⟨1, true, true⟩, ⟨2, false, true⟩] := by
  decide +kernel

end SwissledgerFoundry.Cheatcodes
