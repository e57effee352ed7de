import SwissledgerFoundry.Cheatcodes.EmitQueue
import SwissledgerFoundry.Collections.GreedyScan

/-!
# Expected logs as a greedy scan

The queue of expected logs agrees with a greedy scan of the emitted logs if an
expectation without an emitter gets its logs from one emitter: the handler asks
a single emitter for the declared number, while the end of the call adds up all.
-/

namespace SwissledgerFoundry.Cheatcodes

open List GreedyScan Transition Expectation Emission

/-- A log that goes to an expectation without an emitter comes from the
emitter of the logs that the expectation already has. -/
def SameEmitter (progress : Progress Expectation Log) (log : Log) : Prop :=
  ∀ expectation ∈ progress.waiting.head?, expectation.address = none →
    expectation.accepts log = true → ∀ earlier ∈ progress.taken, earlier.address = log.address

instance decidableSameEmitter (progress : Progress Expectation Log)
    (log : Log) : Decidable (SameEmitter progress log) :=
  inferInstanceAs (Decidable (∀ _ ∈ progress.waiting.head?, _))

/-- Every expectation without an emitter gets its logs from one emitter. -/
def SingleEmitters (expectations : List Expectation) (logs : List Log) : Prop :=
  Transition.Along (step count accepts) SameEmitter (begin count expectations) logs

instance decidableSingleEmitters (expectations : List Expectation)
    (logs : List Log) : Decidable (SingleEmitters expectations logs) :=
  inferInstanceAs (Decidable (Transition.Along _ _ _ _))

/-- A found entry, whose count is the declared one. -/
def Finished (depth : ℕ) (entry : ExpectedEmit × CountMap) : Prop :=
  ∃ (expectation : Expectation) (mismatchError : Option String) (seen : List Log),
    entry.1 = expectation.emitted depth true mismatchError ∧
    Counted expectation entry.2 seen ∧
    (seen.filter expectation.fromEmitter).length = expectation.count

/-- The entry of the expectation that the scan is at. -/
structure Current (expectation : Expectation) (remaining : ℕ)
    (taken : List Log) (countMap : CountMap) (seen : List Log) : Prop where
  counted : Counted expectation countMap seen
  given : taken = seen.filter expectation.fromEmitter
  wanted : 0 < remaining
  total : remaining + taken.length = expectation.count
  single : expectation.address = none → ∀ left ∈ seen, ∀ right ∈ seen, left.address = right.address

inductive Simulates (depth : ℕ) : Progress Expectation Log → ExpectedEmitTracker → Prop where
  | finished {remaining : ℕ} {taken : List Log}
      {expectedEmits : ExpectedEmitTracker}
      (done : ∀ entry ∈ expectedEmits, Finished depth entry) :
      Simulates depth ⟨[], remaining, taken⟩ expectedEmits
  | waiting {expectation : Expectation} {rest : List Expectation}
      {remaining : ℕ} {taken : List Log} {mismatchError : Option String}
      {countMap : CountMap} {seen : List Log}
      {done : ExpectedEmitTracker}
      (current : Current expectation remaining taken countMap seen)
      (finished : ∀ entry ∈ done, Finished depth entry) :
      Simulates depth ⟨expectation :: rest, remaining, taken⟩
        ((expectation.emitted depth false mismatchError, countMap) :: (declared depth rest ++ done))

variable {depth : ℕ}

theorem simulates_begin {done : ExpectedEmitTracker} (expectations : List Expectation)
    (finished : ∀ entry ∈ done, Finished depth entry) :
    Simulates depth (begin count expectations) (declared depth expectations ++ done) := by
  cases expectations with
  | nil => exact .finished finished
  | cons expectation rest =>
    have current : Current expectation expectation.count [] ∅ [] :=
      { counted := .empty expectation
        given := rfl
        wanted := expectation.positive
        total := rfl
        single := fun _ left member => absurd member not_mem_nil }
    exact .waiting current finished

theorem Finished.filled {entry : ExpectedEmit × CountMap} (finished : Finished depth entry) :
    ∃ (expectation : Expectation) (found : Bool) (mismatchError : Option String),
      entry.1 = expectation.emitted depth found mismatchError := by
  obtain ⟨expectation, mismatchError, seen, equal, -⟩ := finished
  exact ⟨expectation, true, mismatchError, equal⟩

variable {expectedEmits : ExpectedEmitTracker}
  {progress : Progress Expectation Log}

namespace Current

variable {expectation : Expectation} {remaining : ℕ} {taken : List Log} {countMap : CountMap}
  {seen : List Log} {log : Log} (current : Current expectation remaining taken countMap seen)

include current

theorem recordLog_of_skipped (skipped : expectation.accepts log = false) :
    ∃ seen', Current expectation remaining taken
      (recordLog expectation.checks expectation.log countMap log) seen' := by
  have counted := current.counted.recordLog log
  cases passes : expectation.passesChecks log with
  | false =>
    rw [passes, if_neg Bool.false_ne_true, append_nil] at counted
    exact ⟨seen, { current with counted := counted }⟩
  | true =>
    -- The log comes from another emitter than the one that is given.
    have foreign : expectation.fromEmitter log = false := by
      rw [accepts, passes] at skipped
      exact skipped
    rw [passes] at counted
    refine ⟨seen ++ [log], { current with counted := counted, given := ?_, single := ?_ }⟩
    · rw [filter_append, ← current.given]
      simp [foreign]
    · intro anyone
      simp [expectation.fromEmitter_of_none anyone] at foreign

theorem single_of_accepts
    (same : expectation.address = none → ∀ earlier ∈ taken, earlier.address = log.address)
    (anyone : expectation.address = none) :
    ∀ other ∈ seen ++ [log], other.address = log.address := by
  intro other member
  rcases mem_append.mp member with earlier | last
  · have all : taken = seen := by
      rw [current.given, filter_eq_self]
      exact fun log _ => expectation.fromEmitter_of_none anyone log
    exact same anyone other (all ▸ earlier)
  · rw [mem_singleton.mp last]

variable (accepted : expectation.accepts log = true)

include accepted

theorem filter_of_accepts : (seen ++ [log]).filter expectation.fromEmitter = taken ++ [log] := by
  obtain ⟨-, emitter⟩ := (Bool.and_eq_true _ _).mp accepted
  rw [filter_append, ← current.given]
  simp [emitter]

theorem counted_of_accepts :
    Counted expectation (recordLog expectation.checks expectation.log countMap log)
      (seen ++ [log]) :=
  current.counted.recordLog_of_passes ((Bool.and_eq_true _ _).mp accepted).1

section

variable (same : expectation.address = none → ∀ earlier ∈ taken, earlier.address = log.address)

include same

theorem recordLog_of_accepts (more : ¬ remaining ≤ 1) :
    Current expectation (remaining - 1) (taken ++ [log])
      (recordLog expectation.checks expectation.log countMap log)
      (seen ++ [log]) where
  counted := current.counted_of_accepts accepted
  given := (current.filter_of_accepts accepted).symm
  wanted := by omega
  total := by
    have total := current.total
    rw [length_append, length_singleton]
    omega
  single := by
    intro anyone left leftMember right rightMember
    have sameAs := current.single_of_accepts same anyone
    rw [sameAs left leftMember, sameAs right rightMember]

/-- The handler finds the expectation when the scan has served it. -/
theorem countReached_eq (context : EmitContext) (depth : ℕ) (mismatchError : Option String) :
    countReached context (expectation.emitted depth false mismatchError)
      (recordLog expectation.checks expectation.log countMap log) log = decide (remaining ≤ 1) := by
  have member : log ∈ seen ++ [log] := mem_append_right _ (mem_singleton.mpr rfl)
  have total := current.total
  rw [(current.counted_of_accepts accepted).countReached_eq member accepted
    (current.single_of_accepts same), current.filter_of_accepts accepted,
    length_append, length_singleton, decide_eq_decide]
  omega

end

end Current

section

variable (simulates : Simulates depth progress expectedEmits)

include simulates

theorem Simulates.filled : Filled depth expectedEmits := by
  cases simulates with
  | finished done => exact fun entry member => (done entry member).filled
  | waiting current finished =>
    refine forall_mem_cons.mpr ⟨⟨_, _, _, rfl⟩, forall_mem_append.mpr ⟨?_, ?_⟩⟩
    · exact forall_mem_map.mpr fun expectation _ => ⟨expectation, false, none, rfl⟩
    · exact fun entry done => (finished entry done).filled

theorem Simulates.handleEmission (emission : Emission) (same : SameEmitter progress emission.log) :
    Simulates depth (step count accepts progress emission.log)
      (handleEmission expectedEmits emission) := by
  have filled := simulates.filled
  cases simulates with
  | @finished _ _ expectedEmits done =>
    have found : ∀ entry ∈ expectedEmits, entry.1.found = true := by
      intro entry member
      obtain ⟨expectation, message, seen, equal, -⟩ := done entry member
      rw [equal]
      rfl
    rw [handleEmission, handleExpectEmit, if_pos (all_eq_true.mpr found)]
    exact .finished done
  | @waiting expectation rest remaining taken mismatchError countMap seen
      done current finished =>
      obtain ⟨message, handled⟩ := handleExpectEmit_of_head filled emission.context emission.log
      rw [handleEmission, handled]
      have sameTaken : expectation.address = none → expectation.accepts emission.log = true →
          ∀ earlier ∈ taken, earlier.address = emission.log.address :=
        same expectation rfl
      cases accepted : expectation.accepts emission.log with
      | false =>
        obtain ⟨seen', current⟩ := current.recordLog_of_skipped accepted
        simp only [step, accepted, Bool.false_and]
        exact .waiting current finished
      | true =>
        have agree := fun anyone => sameTaken anyone accepted
        rw [current.countReached_eq accepted agree]
        by_cases last : remaining ≤ 1
        · simp only [step, accepted, if_true, last, decide_true, emitted, append_assoc]
          apply simulates_begin
          intro entry member
          rcases mem_append.mp member with earlier | new
          · exact finished entry earlier
          rw [mem_singleton.mp new]
          refine ⟨expectation, message, seen ++ [emission.log], rfl,
            current.counted_of_accepts accepted, ?_⟩
          have total := current.total
          have wanted := current.wanted
          rw [current.filter_of_accepts accepted, length_append, length_singleton]
          omega
        · simp only [step, accepted, if_true, last, decide_false, if_false]
          exact .waiting (current.recordLog_of_accepts accepted agree last) finished

theorem Simulates.run (emissions : List Emission) (single : Transition.Along (step count accepts)
      SameEmitter progress (emissions.map log)) :
    Simulates depth (run (step count accepts) progress (emissions.map log))
      (run Cheatcodes.handleEmission expectedEmits emissions) := by
  induction emissions generalizing progress expectedEmits with
  | nil => exact simulates
  | cons emission emissions ih => exact ih (simulates.handleEmission emission single.1) single.2

end

variable {result : InstructionResult}

/-- The queue passes at its own depth when every entry has been found and has
the declared count. -/
theorem callEndEmits_passes_iff {iteration : IterationOrder} (filled : Filled depth expectedEmits)
    (completed : result ≠ .revert) :
    (callEndEmits iteration depth false result expectedEmits).1.passes = true ↔
      ∀ entry ∈ expectedEmits, entry.1.found = true ∧
        emittedCount iteration entry.1 entry.2 = entry.1.count := by
  cases expectedEmits with
  | nil => simp [callEndEmits, InstructionResult.isRevert, completed, EmitCheck.passes]
  | cons head rest =>
    have declaredHere : ((head :: rest).any (·.1.depth == depth) && !false) = true := by
      obtain ⟨expectation, found, message, equal⟩ := filled head mem_cons_self
      simp [equal, emitted]
    have kept : ¬ result.isRevert = true := by simpa [InstructionResult.isRevert] using completed
    rw [callEndEmits, if_neg kept, if_pos declaredHere]
    constructor
    · intro passes entry member
      cases missing : (head :: rest).find? (fun entry =>
          !entry.1.found && decide (0 < entry.1.count)) with
      | some other =>
        rw [missing] at passes
        cases passes
      | none =>
        rw [missing] at passes
        cases wrong : (head :: rest).find? (fun entry =>
            emittedCount iteration entry.1 entry.2 != entry.1.count) with
        | some other =>
          simp only [wrong] at passes
          cases passes
        | none =>
          have positive := filled.count_pos member
          have found := find?_eq_none.mp missing entry member
          have counts := find?_eq_none.mp wrong entry member
          simp only [positive, decide_true, Bool.and_true,
            Bool.not_eq_true', Bool.not_eq_false] at found
          simp only [bne_iff_ne, ne_eq, not_not] at counts
          exact ⟨found, counts⟩
    intro complete
    have missing : (head :: rest).find? (fun entry =>
        !entry.1.found && decide (0 < entry.1.count)) = none := by
      rw [find?_eq_none]
      intro entry member
      simp [(complete entry member).1]
    have wrong : (head :: rest).find? (fun entry =>
        emittedCount iteration entry.1 entry.2 != entry.1.count) = none := by
      rw [find?_eq_none]
      intro entry member
      simp [(complete entry member).2]
    rw [missing]
    simp only [wrong]
    rfl

theorem Simulates.passes_iff (simulates : Simulates depth progress expectedEmits)
    (completed : result ≠ .revert) (iteration : IterationOrder) :
    (callEndEmits iteration depth false result
      expectedEmits).1.passes = true ↔ progress.waiting.isEmpty = true := by
  rw [callEndEmits_passes_iff simulates.filled completed]
  cases simulates with
  | finished done =>
    refine iff_of_true ?_ rfl
    intro entry member
    obtain ⟨expectation, message, seen, equal, counted, number⟩ := done entry member
    rw [equal, counted.emittedCount, number]
    exact ⟨rfl, rfl⟩
  | waiting current finished =>
    refine iff_of_false ?_ Bool.false_ne_true
    intro complete
    have found := (complete _ mem_cons_self).1
    cases found

/-- What the end of the call says after the declarations, whose logs are filled
by one emitter, and a sequence of logs. -/
def emitsPass (filling : EmitContext) (emitter : Address) (depth : ℕ)
    (expectations : List Expectation) (emissions : List Emission) (iteration : IterationOrder)
    (result : InstructionResult) : Bool :=
  (callEndEmits iteration depth false result
    (run handleEmission (run (declare filling emitter depth) [] expectations) emissions)).1.passes

theorem simulates_declared (depth : ℕ) (expectations : List Expectation) :
    Simulates depth (begin count expectations) (declared depth expectations) := by
  have noneDone : ∀ entry ∈ ([] : ExpectedEmitTracker), Finished depth entry :=
    fun entry member => absurd member not_mem_nil
  have initial := simulates_begin expectations noneDone
  rw [append_nil] at initial
  exact initial

/-- Logs of one emitter for each expectation without an emitter: the queue
passes when the greedy scan serves every expectation. -/
theorem emitsPass_iff_succeeds {expectations : List Expectation} {emissions : List Emission}
    (single : SingleEmitters expectations (emissions.map log))
    {result : InstructionResult} (completed : result ≠ .revert)
    (filling : EmitContext) (emitter : Address) (depth : ℕ) (iteration : IterationOrder) :
    emitsPass filling emitter depth expectations emissions iteration result = true ↔
      succeeds count accepts expectations (emissions.map log) = true := by
  rw [emitsPass, run_declare]
  exact ((simulates_declared depth expectations).run emissions single).passes_iff completed
    iteration

def topicLog (topic : B256) : RawLog where
  topics := [topic]
  data := []
  fits := Nat.succ_le_succ (Nat.zero_le 3)

/-- An expectation of all topics and the data. -/
def expectTopic (topic : B256) (address : Option Address) (missing : ℕ) : Expectation where
  log := topicLog topic
  checks := Vector.replicate 5 true
  address := address
  anonymous := false
  count := missing + 1
  positive := Nat.succ_pos missing
  named := rfl

/-- The interpreter sees the log, and there is no identifier of signatures. -/
def inInterpreter : EmitContext :=
  { iteration := .listed, signatures := none, interpreter := true }

def emission (emitter : Address) (topic : B256) : Emission where
  context := inInterpreter
  log := { address := emitter, data := topicLog topic }

theorem emitsPass_iff_succeeds_two_expectations :
    let expectations := [expectTopic 7 none 1, expectTopic 8 (some 2) 0]
    let emissions := [emission 1 7, emission 2 8, emission 1 7, emission 3 8, emission 2 8]
    SingleEmitters expectations (emissions.map log) ∧
      emitsPass inInterpreter 9 1 expectations emissions .listed .ok = true :=
  ⟨by decide +kernel, (emitsPass_iff_succeeds (by decide +kernel) (by decide) inInterpreter 9 1
    .listed).mpr (by decide +kernel)⟩

/-- Two logs are expected from anyone, and two emitters give one each. -/
theorem not_emitsPass_two_emitters :
    let expectations := [expectTopic 7 none 1]
    let emissions := [emission 1 7, emission 2 7]
    succeeds count accepts expectations (emissions.map log) = true ∧
      emitsPass inInterpreter 9 1 expectations emissions .listed .ok = false := by
  decide +kernel

end SwissledgerFoundry.Cheatcodes
