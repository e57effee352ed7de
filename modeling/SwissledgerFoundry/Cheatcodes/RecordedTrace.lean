import SwissledgerFoundry.Cheatcodes.StateDiff
import SwissledgerFoundry.Collections.Transition

/-!
# Recorded accesses against the execution

The execution is followed by a log of its own.  The lists of the recorder are
segments of this log, one for each running frame, as long as every push is met
by a pop.
-/

namespace SwissledgerFoundry.Cheatcodes

open List AccountAccess Recorder

/-- An access in the flattened record: when it was made, whether it is the
access of a frame, and whether it is marked as reverted. -/
structure Access where
  moment : ℕ
  frame : Bool
  reverted : Bool
deriving DecidableEq

/-- The accesses of a record.  A record that resumes a frame is no access of
its own. -/
def AccountAccess.accesses (record : AccountAccess) : List Access :=
  (if record.kind = .resume then []
    else [⟨record.moment, record.kind.isFrame, record.reverted⟩]) ++
    record.storageAccesses.map fun access => ⟨access.moment, false, access.reverted⟩

/-- An access as the execution makes it, with the recorded frames that were
running, innermost first. -/
structure Entry where
  moment : ℕ
  frame : Bool
  path : List ℕ

/-- The access marked as reverted if one of its frames has been undone. -/
def judge (undone : List ℕ) (entry : Entry) : Access where
  moment := entry.moment
  frame := entry.frame
  reverted := entry.path.any fun frame => decide (frame ∈ undone)

/-- Frames are named by the moment they are entered. -/
structure Trace where
  moment : ℕ
  running : List ℕ
  log : List Entry
  entered : List ℕ
  undone : List ℕ

namespace Trace

def start : Trace where
  moment := 0
  running := []
  log := []
  entered := []
  undone := []

variable (trace : Trace)

def access : Trace :=
  { trace with log := trace.log ++ [⟨trace.moment, false, trace.running⟩] }

def enter : Trace :=
  { trace with
    running := trace.moment :: trace.running
    log := trace.log ++ [⟨trace.moment, true, trace.moment :: trace.running⟩]
    entered := trace.entered ++ [trace.moment] }

def leave (result : InstructionResult) : Trace :=
  match trace.running with
  | [] => trace
  | frame :: running =>
    { trace with
      running := running
      undone := if result = .ok then trace.undone
        else frame :: trace.undone }

/-- The storage of a frame that is not recorded is not recorded, and such a
frame may only destroy itself unseen before the first access. -/
def apply : RecordingEvent → Trace
  | .call _ _ => trace.enter
  | .create _ _ _ => trace.enter
  | .storage _ _ _ _ => if trace.running = [] then trace else trace.access
  | .ext _ _ _ _ => trace.access
  | .selfDestruct _ _ _ _ => if trace.log.isEmpty then trace else trace.access
  | .leave ending => trace.leave ending.result
  | .mockedCall _ => trace
  | .interceptedCreate _ => trace
  | .cheatcode _ _ => trace

def step (event : RecordingEvent) : Trace :=
  { trace.apply event with moment := trace.moment + 1 }

end Trace

/-- The recorder beside the execution that it records. -/
structure Recording where
  recorder : Recorder
  trace : Trace

namespace Recording

/-- One event, unless the root frame has returned. -/
def step (recording : Recording) (event : RecordingEvent) : Recording :=
  if recording.recorder.frames.isEmpty then recording
  else
    { recorder := recording.recorder.step recording.trace.moment event
      trace := recording.trace.step event }

/-- `startStateDiffRecording`, in a frame at the depth of the journal. -/
def start (frames : List FrameKind)
    (expectedRevert : Option ExpectedRevert) (assumeNoRevert : Option ℕ) :
    Recording where
  recorder := { frames, recordedAccountDiffsStack := [], expectedRevert, assumeNoRevert }
  trace := .start

/-- The end of an unanswered frame reaches the recorder, and an answered call
leaves the lists as they are. -/
def Allowed (recording : Recording) : RecordingEvent → Prop
  | .mockedCall ending =>
    (recording.recorder.frameEndEarly .call ending).2 = true ∨
      recording.trace.running = [] ∧ ending.result ≠ .revert
  | .interceptedCreate ending =>
    (recording.recorder.frameEndEarly .create ending).2 = true ∨
      recording.trace.running = [] ∧ ending.result ≠ .revert
  | .leave ending =>
    match recording.recorder.frames with
    | [] => True
    | kind :: frames =>
      if recording.trace.running = [] then ending.result = .ok
      else ending.result ≠ .halt ∧
        ({ recording.recorder with frames := frames }.frameEndEarly kind ending).2 = false
  | _ => True

instance decidableAllowed (recording : Recording) (event : RecordingEvent) :
    Decidable (recording.Allowed event) := by
  unfold Allowed
  split
  case h_3 => split <;> infer_instance
  all_goals infer_instance

end Recording

/-- A list of records holds a segment of the log, all of it made while the
given frames were running. -/
structure Segment (undone frames : List ℕ) (records : List AccountAccess)
    (entries : List Entry) : Prop where
  accesses : records.flatMap AccountAccess.accesses = entries.map (judge undone)
  inside : ∀ entry ∈ entries, frames <:+ entry.path
  resumed : ∀ record ∈ records, record.kind = .resume →
    record.storageAccesses.head?.map StorageAccess.reverted = some record.reverted

def Intact (undone frames : List ℕ) : Prop := ∀ frame ∈ frames, frame ∉ undone

variable {undone frames : List ℕ}

theorem judge_of_intact (intact : Intact undone frames) (moment : ℕ) (frame : Bool) :
    judge undone ⟨moment, frame, frames⟩ = ⟨moment, frame, false⟩ := by
  simpa [judge, Intact] using intact

variable {frame : ℕ} {entry : Entry}

theorem judge_cons_of_mem (member : frame ∈ entry.path) :
    judge (frame :: undone) entry = ⟨entry.moment, entry.frame, true⟩ := by
  simpa [judge] using ⟨frame, member, .inl rfl⟩

theorem judge_cons_of_notMem (outside : frame ∉ entry.path) :
    judge (frame :: undone) entry = judge undone entry := by
  have same : ∀ other ∈ entry.path, (other ∈ frame :: undone ↔ other ∈ undone) := by
    intro other member
    exact mem_cons.trans (or_iff_right (ne_of_mem_of_not_mem member outside))
  apply congrArg (Access.mk entry.moment entry.frame)
  rw [Bool.eq_iff_iff, any_eq_true, any_eq_true]
  simp only [decide_eq_true_eq]
  exact exists_congr fun other => and_congr_right (same other)

theorem accesses_pushStorage (record : AccountAccess) (access : StorageAccess) :
    (record.pushStorage access).accesses = record.accesses ++
      [⟨access.moment, false, access.reverted⟩] := by
  simp only [accesses, pushStorage, map_append, map_singleton, append_assoc]
  rfl

theorem accesses_resume (entry : AccountAccess) (access : StorageAccess) :
    (entry.resume access).accesses = [⟨access.moment, false, access.reverted⟩] := by
  simp [accesses, resume]

theorem accesses_markReverted (record : AccountAccess) :
    record.markReverted.accesses = record.accesses.map fun access =>
      { access with reverted := true } := by
  by_cases resume : record.kind = .resume <;> simp [accesses, markReverted, resume]

variable {others : List AccountAccess} {first : AccountAccess}

namespace Segment

variable {entries : List Entry} {records : List AccountAccess}

theorem append {later : List Entry} (segment : Segment undone frames records entries)
    (more : Segment undone frames others later) :
    Segment undone frames (records ++ others) (entries ++ later) where
  accesses := by rw [flatMap_append, map_append, segment.accesses, more.accesses]
  inside := forall_mem_append.mpr ⟨segment.inside, more.inside⟩
  resumed := forall_mem_append.mpr ⟨segment.resumed, more.resumed⟩

theorem outer (segment : Segment undone (frame :: frames) records entries) :
    Segment undone frames records entries where
  accesses := segment.accesses
  inside := fun entry member => (suffix_cons frame frames).trans (segment.inside entry member)
  resumed := segment.resumed

theorem singleton {record : AccountAccess}
    (notResume : record.kind ≠ .resume) (unmarked : record.reverted = false)
    (empty : record.storageAccesses = []) (intact : Intact undone frames) :
    Segment undone frames [record] [⟨record.moment, record.kind.isFrame, frames⟩] where
  accesses := by simp [AccountAccess.accesses, notResume, unmarked, empty, judge_of_intact intact]
  inside := forall_mem_singleton.mpr (suffix_refl frames)
  resumed := forall_mem_singleton.mpr fun resume => absurd resume notResume

theorem undo_outside (segment : Segment undone frames records entries)
    (outside : ∀ entry ∈ entries, frame ∉ entry.path) :
    Segment (frame :: undone) frames records entries where
  accesses := by
    rw [segment.accesses]
    apply map_congr_left
    intro entry member
    exact (judge_cons_of_notMem (outside entry member)).symm
  inside := segment.inside
  resumed := segment.resumed

theorem undo (segment : Segment undone (frame :: frames) records entries) :
    Segment (frame :: undone) (frame :: frames) (records.map markReverted) entries where
  accesses := by
    have marked : (records.map AccountAccess.markReverted).flatMap AccountAccess.accesses =
        (records.flatMap AccountAccess.accesses).map fun access =>
          { access with reverted := true } := by
      rw [flatMap_map, map_flatMap]
      exact flatMap_congr fun record _ => accesses_markReverted record
    rw [marked, segment.accesses, map_map]
    apply map_congr_left
    intro entry member
    have here : frame ∈ entry.path := (segment.inside entry member).subset mem_cons_self
    rw [judge_cons_of_mem here]
    rfl
  inside := segment.inside
  resumed := by
    intro record member resume
    obtain ⟨original, originalMember, rfl⟩ := mem_map.mp member
    obtain ⟨access, first, _⟩ :=
      Option.map_eq_some_iff.mp (segment.resumed original originalMember resume)
    simp [markReverted, first]

/-- Two lists with the same accesses, record by record. -/
theorem replace_first {other : AccountAccess}
    (segment : Segment undone frames (first :: others) entries)
    (accesses : other.accesses = first.accesses)
    (kind : other.kind = first.kind)
    (storage : other.storageAccesses = first.storageAccesses)
    (reverted : other.reverted = first.reverted) :
    Segment undone frames (other :: others) entries where
  accesses := by rw [flatMap_cons, accesses, ← flatMap_cons, segment.accesses]
  inside := segment.inside
  resumed := by
    obtain ⟨resumed, later⟩ := forall_mem_cons.mp segment.resumed
    rw [← kind, ← storage, ← reverted] at resumed
    exact forall_mem_cons.mpr ⟨resumed, later⟩

end Segment

theorem resumed_pushStorage {access : StorageAccess} {record : AccountAccess}
    (resumed : record.kind = .resume →
      record.storageAccesses.head?.map StorageAccess.reverted = some record.reverted)
    (resume : (record.pushStorage access).kind = .resume) :
    (record.pushStorage access).storageAccesses.head?.map
      StorageAccess.reverted = some (record.pushStorage access).reverted := by
  obtain ⟨access, first, same⟩ := Option.map_eq_some_iff.mp (resumed resume)
  simp [pushStorage, first, same]

variable {entries : List Entry} {access : StorageAccess}

/-- The first record of a frame is its own access, so a record that resumes
the frame starts unmarked. -/
theorem Segment.appendStorage {depth : ℕ}
    (segment : Segment undone frames (first :: others) entries)
    (intact : Intact undone frames) (deeper : first.depth < depth)
    (unmarked : first.reverted = false) (fresh : access.reverted = false) :
    ∃ first' others', appendStorageAccess (first :: others) access depth =
        first' :: others' ∧ first'.depth = first.depth ∧
      first'.reverted = first.reverted ∧
      Segment undone frames (first' :: others') (entries ++ [⟨access.moment, false, frames⟩]) := by
  have inside : ∀ entry ∈ entries ++ [Entry.mk access.moment false frames], frames <:+ entry.path :=
    forall_mem_append.mpr ⟨segment.inside, forall_mem_singleton.mpr (suffix_refl frames)⟩
  obtain ⟨own, later⟩ := forall_mem_cons.mp segment.resumed
  have judged : (entries ++ [Entry.mk access.moment false frames]).map
      (judge undone) = (first :: others).flatMap AccountAccess.accesses ++
        [⟨access.moment, false, access.reverted⟩] := by
    rw [map_append, segment.accesses, map_singleton, judge_of_intact intact, fresh]
  rw [appendStorageAccess, if_pos deeper]
  cases last : others.getLast? with
  | none =>
    have single : others = [] := getLast?_eq_none_iff.mp last
    subst single
    refine ⟨first.pushStorage access, [], rfl, rfl, rfl, ?_⟩
    constructor
    · rw [judged]
      simp [accesses_pushStorage]
    · exact inside
    · exact forall_mem_singleton.mpr (resumed_pushStorage own)
  | some record =>
    have split : others.dropLast ++ [record] = others := dropLast_append_getLast? record last
    by_cases resume : record.kind = .resume
    · refine ⟨first, others.dropLast ++ [record.pushStorage access], ?_, rfl, rfl, ?_⟩
      · simp only [if_pos resume]
      constructor
      · have whole := congrArg (List.flatMap AccountAccess.accesses) split
        rw [judged, flatMap_cons, flatMap_cons, ← whole]
        simp [accesses_pushStorage]
      · exact inside
      rw [← split, forall_mem_append, forall_mem_singleton] at later
      rw [forall_mem_cons, forall_mem_append, forall_mem_singleton]
      exact ⟨own, later.1, resumed_pushStorage later.2⟩
    refine ⟨first, others ++ [first.resume access], ?_, rfl, rfl, ?_⟩
    · simp only [if_neg resume]
    constructor
    · rw [judged]
      simp [accesses_resume]
    · exact inside
    rw [forall_mem_cons, forall_mem_append, forall_mem_singleton]
    refine ⟨own, later, ?_⟩
    simp [AccountAccess.resume, unmarked, fresh]

/-- The stack has a list for every running frame, above at most one list of
what is finished.  The frames below the recorded ones number `outer`. -/
inductive Stacked (undone : List ℕ) (outer : ℕ) :
    List ℕ → List (List AccountAccess) → List Entry → Prop where
  | empty : Stacked undone outer [] [] []
  | finished {first : AccountAccess} {others : List AccountAccess}
      {log : List Entry}
      (bottom : outer ≤ first.depth)
      (segment : Segment undone [] (first :: others) log) :
      Stacked undone outer [] [first :: others] log
  | frame {frame : ℕ} {running : List ℕ}
      {stack : List (List AccountAccess)} {log entries : List Entry}
      {first : AccountAccess} {others : List AccountAccess}
      (below : Stacked undone outer running stack log)
      (depth : first.depth = outer + running.length)
      (unmarked : first.reverted = false)
      (outside : ∀ entry ∈ log, frame ∉ entry.path)
      (segment : Segment undone (frame :: running) (first :: others) entries) :
      Stacked undone outer (frame :: running) ((first :: others) :: stack) (log ++ entries)

namespace Stacked

variable {undone running : List ℕ} {outer : ℕ}
  {stack : List (List AccountAccess)} {log : List Entry}

section

variable (stacked : Stacked undone outer running stack log)

include stacked

theorem accesses : stack.reverse.flatten.flatMap accesses = log.map (judge undone) := by
  induction stacked with
  | empty => rfl
  | finished bottom segment =>
    rw [← segment.accesses]
    simp
  | frame below depth unmarked outside segment ih =>
    rw [map_append, ← ih, ← segment.accesses]
    simp

theorem resumed : ∀ record ∈ stack.reverse.flatten, record.kind = .resume →
      record.storageAccesses.head?.map StorageAccess.reverted = some record.reverted := by
  induction stacked with
  | empty => exact fun record member => absurd member not_mem_nil
  | finished bottom segment => simpa using segment.resumed
  | frame below depth unmarked outside segment ih =>
    simp only [reverse_cons, flatten_append, flatten_singleton, forall_mem_append]
    exact ⟨ih, segment.resumed⟩

theorem undo_outside (outside : ∀ entry ∈ log, frame ∉ entry.path) :
    Stacked (frame :: undone) outer running stack log := by
  induction stacked with
  | empty => exact .empty
  | finished bottom segment => exact .finished bottom (segment.undo_outside outside)
  | frame below depth unmarked others segment ih =>
    obtain ⟨before, here⟩ := forall_mem_append.mp outside
    exact .frame (ih before) depth unmarked others (segment.undo_outside here)

theorem merge (depth : outer ≤ first.depth)
    (segment : Segment undone running (first :: others) entries) :
    Stacked undone outer running (merge (first :: others) stack) (log ++ entries) := by
  cases stacked with
  | empty => exact .finished depth segment
  | finished bottom earlier => exact .finished bottom (earlier.append segment)
  | frame below inner unmarked outside earlier =>
    rw [append_assoc]
    exact .frame below inner unmarked outside (earlier.append segment)

end

theorem lower {smaller : ℕ} (stacked : Stacked undone outer [] stack log)
    (less : smaller ≤ outer) : Stacked undone smaller [] stack log := by
  cases stacked with
  | empty => exact .empty
  | finished bottom segment => exact .finished (less.trans bottom) segment

end Stacked

/-- An update that the flattened record does not show. -/
structure Unseen (update : AccountAccess → AccountAccess) : Prop where
  accesses : ∀ record, (update record).accesses = record.accesses
  kind : ∀ record, (update record).kind = record.kind
  storage : ∀ record, (update record).storageAccesses = record.storageAccesses
  reverted : ∀ record, (update record).reverted = record.reverted
  depth : ∀ record, (update record).depth = record.depth

variable (ending : Ending)

theorem unseen_updateCall : Unseen (updateCall ending) := by
  constructor
  all_goals
    intro record
    unfold updateCall
    split <;> rfl

theorem unseen_updateCreate : Unseen (updateCreate ending) := by
  constructor
  all_goals
    intro record
    unfold updateCreate
    split <;> rfl

variable {update : AccountAccess → AccountAccess}

namespace Unseen

theorem segment (unseen : Unseen update) (here : Prop) [Decidable here]
    (segment : Segment undone frames (first :: others) entries) :
    Segment undone frames ((if here then update first else first) :: others)
      entries := by
  split
  · exact segment.replace_first (unseen.accesses first) (unseen.kind first)
      (unseen.storage first) (unseen.reverted first)
  · exact segment

theorem depth_ite {here : Prop} (unseen : Unseen update) [Decidable here] :
    (if here then update first else first).depth = first.depth := by
  split
  · exact unseen.depth first
  · rfl

end Unseen

namespace Stacked

variable {undone running : List ℕ} {outer frame : ℕ} {stack : List (List AccountAccess)}
  {log : List Entry}

section

variable (stacked : Stacked undone outer (frame :: running) stack log)

include stacked

theorem close {result : InstructionResult} (unseen : Unseen update) (kept : result ≠ .revert)
    (depth : ℕ) :
    Stacked undone outer running (popFrame depth update result stack) log := by
  cases stacked with
  | @frame _ _ stack log entries first others below inner unmarked outside
      segment =>
      have unreverted : result.isRevert = false := decide_eq_false kept
      have deep : outer ≤ (if first.depth = depth then update first
          else first).depth := by
        rw [unseen.depth_ite]
        omega
      simp only [popFrame, unreverted, Bool.false_eq_true, if_false]
      exact below.merge deep (unseen.segment _ segment.outer)

theorem close_revert (unseen : Unseen update) (depth : ℕ) :
    Stacked (frame :: undone) outer running (popFrame depth update .revert stack) log := by
  cases stacked with
  | @frame _ _ stack log entries first others below inner unmarked outside
      segment =>
      have marked := segment.undo.outer
      have deep : outer ≤ (if first.markReverted.depth = depth
          then update first.markReverted else first.markReverted).depth := by
        rw [unseen.depth_ite]
        show outer ≤ first.depth
        omega
      exact (below.undo_outside outside).merge deep (unseen.segment _ marked)

theorem recordStorage (fresh : access.reverted = false)
    (intact : Intact undone (frame :: running)) :
    ∃ last rest, stack = last :: rest ∧ Stacked undone outer (frame :: running)
        (appendStorageAccess last access (outer + (frame :: running).length) :: rest)
        (log ++ [⟨access.moment, false, frame :: running⟩]) := by
  cases stacked with
  | @frame _ _ stack log entries first others below inner unmarked outside
      segment =>
      have deeper : first.depth < outer + (frame :: running).length := by
        rw [length_cons]
        omega
      obtain ⟨first', others', appended, sameDepth, sameMark, segment⟩ :=
        segment.appendStorage intact deeper unmarked fresh
      refine ⟨first :: others, stack, rfl, ?_⟩
      rw [appended, append_assoc]
      exact .frame below (sameDepth.trans inner) (sameMark.trans unmarked) outside segment

end

theorem close_outer {result : InstructionResult} (stacked : Stacked undone outer [] stack log)
    (unseen : Unseen update) (kept : result ≠ .revert) (depth : ℕ) :
    Stacked undone outer [] (popFrame depth update result stack) log := by
  have unreverted : result.isRevert = false := decide_eq_false kept
  cases stacked with
  | empty => exact .empty
  | @finished first others log bottom segment =>
    simp only [popFrame, unreverted, Bool.false_eq_true, if_false]
    refine .finished ?_ (unseen.segment _ segment)
    rw [unseen.depth_ite]
    exact bottom

theorem record {record : AccountAccess} (stacked : Stacked undone outer running stack log)
    (notResume : record.kind ≠ .resume) (notFrame : record.kind.isFrame = false)
    (unmarked : record.reverted = false)
    (empty : record.storageAccesses = [])
    (depth : outer ≤ record.depth) (intact : Intact undone running) :
    Stacked undone outer running (Recorder.merge [record] stack)
      (log ++ [⟨record.moment, false, running⟩]) := by
  have segment := Segment.singleton notResume unmarked empty intact
  rw [notFrame] at segment
  exact stacked.merge depth segment

theorem recordStorage_outer {last : List AccountAccess} {rest : List (List AccountAccess)}
    (stacked : Stacked undone outer [] (last :: rest) log) :
    appendStorageAccess last access outer = last := by
  cases stacked with
  | finished bottom segment => rw [appendStorageAccess, if_neg (Nat.not_lt.mpr bottom)]

end Stacked

end SwissledgerFoundry.Cheatcodes
