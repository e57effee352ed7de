import SwissledgerFoundry.Fuzz.Sync

/-!
# The state that entries are replayed on

`calibrate` replays all entries on one clone of the executor, and `new` takes a
clone for each file.
-/

namespace SwissledgerFoundry.Fuzz

open List WorkerCorpus Campaign

variable {Tx Exec Trace History : Type} [DecidableEq Tx]

/-- `calibrate` with a clone for each entry. -/
def calibrateAfresh (replayer : Replayer Tx Exec Trace History) (now : ℕ)
    (worker : WorkerCorpus Tx History) : WorkerCorpus Tx History :=
  worker.loadSyncCorpus.foldl
    (fun worker entry => (importEntry replayer now (replayer.executor, worker) entry).2)
    { worker with replayed := [] }

/-- The replayed calls of a sequence: the executor after them, and what each one
returns. -/
def calls (replayer : Replayer Tx Exec Trace History) (executor : Exec) :
    List Tx → Exec × List Trace
  | [] => (executor, [])
  | tx :: txSeq =>
    if replayer.canReplayTx tx then
      let (moved, trace) := replayer.executeTx executor tx
      let (last, traces) := calls replayer
        (if replayer.stateful then replayer.commit moved trace else moved) txSeq
      (last, trace :: traces)
    else calls replayer executor txSeq

/-- The calls of each entry return after those of the entries before it what
they return on the initial executor. -/
def Undisturbed (replayer : Replayer Tx Exec Trace History) :
    Exec → List (CorpusFile Tx) → Prop
  | _, [] => True
  | executor, file :: files =>
    (calls replayer executor file.txSeq).2 = (calls replayer replayer.executor file.txSeq).2 ∧
      Undisturbed replayer (calls replayer executor file.txSeq).1 files

/-- No call that can be replayed stands behind one that cannot. -/
def ReplayableFirst (replayer : Replayer Tx Exec Trace History) (txSeq : List Tx) : Prop :=
  ∀ tx ∈ txSeq.dropWhile replayer.canReplayTx, replayer.canReplayTx tx = false

section Coverage

variable {Other : Type}

/-- The same calls with another coverage history. -/
def withCoverage (replayer : Replayer Tx Exec Trace History)
    (mergeAllCoverage : Other → Trace → Other × Bool) : Replayer Tx Exec Trace Other where
  executor := replayer.executor
  stateful := replayer.stateful
  canReplayTx := replayer.canReplayTx
  executeTx := replayer.executeTx
  commit := replayer.commit
  mergeAllCoverage := mergeAllCoverage

def withHistory (worker : WorkerCorpus Tx History) (historyMap : Other) :
    WorkerCorpus Tx Other where
  inMemoryCorpus := worker.inMemoryCorpus
  historyMap := historyMap
  currentMutated := worker.currentMutated
  newEntryIndices := worker.newEntryIndices
  lastSyncTimestamp := worker.lastSyncTimestamp
  optimizationBestValue := worker.optimizationBestValue
  optimizationBestSequence := worker.optimizationBestSequence
  corpusDir := worker.corpusDir
  syncDir := worker.syncDir
  replayed := worker.replayed

/-- Merges what several calls return, and tells whether one was new. -/
def mergeTraces (mergeAllCoverage : Other → Trace → Other × Bool) (merged : Other × Bool)
    (traces : List Trace) : Other × Bool :=
  traces.foldl (fun merged trace =>
    ((mergeAllCoverage merged.1 trace).1, merged.2 || (mergeAllCoverage merged.1 trace).2)) merged

variable (replayer : Replayer Tx Exec Trace History)
  (mergeAllCoverage : Other → Trace → Other × Bool)

omit [DecidableEq Tx] in
theorem length_calls (executor : Exec) (txSeq : List Tx) :
    (calls replayer executor txSeq).2.length = (txSeq.filter replayer.canReplayTx).length := by
  induction txSeq generalizing executor with
  | nil => rfl
  | cons tx txSeq ih =>
    rw [calls, filter_cons]
    split <;> simp [ih]

omit [DecidableEq Tx] in
/-- Replaying is executing the calls and merging what they return. -/
theorem warmUp_eq (fuzzedFunction : Bool) (executor : Exec) (merged : Other × Bool)
    (txSeq : List Tx) :
    warmUp (withCoverage replayer mergeAllCoverage) fuzzedFunction (executor, merged) txSeq =
      let replayed := if fuzzedFunction then txSeq.takeWhile replayer.canReplayTx else txSeq
      ((calls replayer executor replayed).1,
        mergeTraces mergeAllCoverage merged (calls replayer executor replayed).2) := by
  induction txSeq generalizing executor merged with
  | nil => cases fuzzedFunction <;> rfl
  | cons tx txSeq ih =>
    have field : (withCoverage replayer mergeAllCoverage).canReplayTx tx =
        replayer.canReplayTx tx := rfl
    rw [warmUp, field]
    cases replayable : replayer.canReplayTx tx with
    | true =>
      rw [if_pos rfl]
      refine (ih _ _).trans ?_
      cases fuzzedFunction
      · simp only [Bool.false_eq_true, if_false, calls, replayable, if_true]
        rfl
      · simp only [if_true, takeWhile_cons, calls, replayable]
        rfl
    | false =>
      cases fuzzedFunction
      · simpa [calls, replayable] using ih executor merged
      · simp [calls, replayable, mergeTraces]

omit [DecidableEq Tx] in
theorem replay_eq (executor : Exec) (historyMap : Other) (txSeq : List Tx) :
    replay (withCoverage replayer mergeAllCoverage) executor historyMap txSeq =
      ((calls replayer executor txSeq).1,
        mergeTraces mergeAllCoverage (historyMap, false) (calls replayer executor txSeq).2) := by
  refine Eq.trans ?_ (warmUp_eq replayer mergeAllCoverage false executor (historyMap, false) txSeq)
  rw [replay]
  generalize (executor, historyMap, false) = state
  induction txSeq generalizing state with
  | nil => rfl
  | cons tx txSeq ih =>
    rw [foldl_cons, ih, warmUp]
    split <;> rfl

theorem importEntry_eq (now : ℕ) (executor : Exec) (worker : WorkerCorpus Tx Other)
    (entry : CorpusFile Tx)
    (same : (calls replayer executor entry.txSeq).2 =
      (calls replayer replayer.executor entry.txSeq).2) :
    importEntry (withCoverage replayer mergeAllCoverage) now (executor, worker) entry =
      ((calls replayer executor entry.txSeq).1,
        (importEntry (withCoverage replayer mergeAllCoverage) now
          (replayer.executor, worker) entry).2) := by
  unfold importEntry
  simp only [replay_eq, same]
  split <;> rfl

theorem Undisturbed.foldl_importEntry (now : ℕ) {executor : Exec} {files : List (CorpusFile Tx)}
    (undisturbed : Undisturbed replayer executor files) (worker : WorkerCorpus Tx Other) :
    (files.foldl (importEntry (withCoverage replayer mergeAllCoverage) now) (executor, worker)).2 =
      files.foldl (fun worker entry => (importEntry (withCoverage replayer mergeAllCoverage) now
        (replayer.executor, worker) entry).2) worker := by
  induction files generalizing executor worker with
  | nil => rfl
  | cons file files ih =>
    obtain ⟨same, rest⟩ := undisturbed
    rw [foldl_cons, foldl_cons, importEntry_eq _ _ _ _ _ _ same]
    exact ih rest _

end Coverage

section Recording

variable (replayer : Replayer Tx Exec Trace History)

/-- A history of everything that the calls returned. -/
def record (historyMap : List Trace) (trace : Trace) : List Trace × Bool :=
  (historyMap ++ [trace], true)

theorem mergeTraces_record (merged : List Trace × Bool) (traces : List Trace) :
    (mergeTraces record merged traces).1 = merged.1 ++ traces := by
  induction traces generalizing merged with
  | nil => simp [mergeTraces]
  | cons trace traces ih =>
    refine (ih _).trans ?_
    simp [record]

theorem importEntry_record (now : ℕ) (executor : Exec) (worker : WorkerCorpus Tx (List Trace))
    (entry : CorpusFile Tx) :
    (importEntry (withCoverage replayer record) now (executor, worker) entry).1 =
        (calls replayer executor entry.txSeq).1 ∧
      (importEntry (withCoverage replayer record) now (executor, worker) entry).2.historyMap =
        worker.historyMap ++ (calls replayer executor entry.txSeq).2 := by
  unfold importEntry
  simp only [replay_eq]
  split <;> exact ⟨rfl, mergeTraces_record _ _⟩

/-- What the calls of all entries return, one entry after the other. -/
def tracesFrom : Exec → List (CorpusFile Tx) → List Trace
  | _, [] => []
  | executor, file :: files =>
    (calls replayer executor file.txSeq).2 ++
      tracesFrom (calls replayer executor file.txSeq).1 files

theorem foldl_importEntry_record (now : ℕ) (executor : Exec) (files : List (CorpusFile Tx))
    (worker : WorkerCorpus Tx (List Trace)) :
    (files.foldl (importEntry (withCoverage replayer record) now)
        (executor, worker)).2.historyMap =
      worker.historyMap ++ tracesFrom replayer executor files ∧
    (files.foldl (fun worker entry => (importEntry (withCoverage replayer record) now
        (replayer.executor, worker) entry).2) worker).historyMap =
      worker.historyMap ++ files.flatMap fun file =>
        (calls replayer replayer.executor file.txSeq).2 := by
  induction files generalizing executor worker with
  | nil => simp [tracesFrom]
  | cons file files ih =>
    obtain ⟨moved, chained⟩ := importEntry_record replayer now executor worker file
    have fresh := (importEntry_record replayer now replayer.executor worker file).2
    constructor
    · refine (ih (importEntry (withCoverage replayer record) now (executor, worker) file).1
        (importEntry (withCoverage replayer record) now (executor, worker) file).2).1.trans ?_
      rw [chained, moved, append_assoc]
      rfl
    · refine (ih executor (importEntry (withCoverage replayer record) now
        (replayer.executor, worker) file).2).2.trans ?_
      rw [fresh, append_assoc]
      rfl

omit [DecidableEq Tx] in
/-- The entries have as many calls on any executor, so that what they return
tells where one ends. -/
theorem undisturbed_of_tracesFrom {executor : Exec} {files : List (CorpusFile Tx)}
    (same : tracesFrom replayer executor files =
      files.flatMap fun file => (calls replayer replayer.executor file.txSeq).2) :
    Undisturbed replayer executor files := by
  induction files generalizing executor with
  | nil => trivial
  | cons file files ih =>
    rw [tracesFrom, flatMap_cons] at same
    obtain ⟨here, rest⟩ := append_inj same (by rw [length_calls, length_calls])
    exact ⟨here, ih rest⟩

omit [DecidableEq Tx] in
/-- Where both replays record the same, no call is left out. -/
theorem replayableFirst_of_record (txSeq : List Tx) :
    (warmUp (withCoverage replayer record) true (replayer.executor, [], false) txSeq).2.1 =
        (replay (withCoverage replayer record) replayer.executor [] txSeq).2.1 →
      ReplayableFirst replayer txSeq := by
  intro same
  rw [warmUp_eq, replay_eq] at same
  simp only [mergeTraces_record, if_true, nil_append] at same
  have lengths := congrArg length same
  rw [length_calls, length_calls] at lengths
  nth_rewrite 2 [← @takeWhile_append_dropWhile _ replayer.canReplayTx txSeq] at lengths
  rw [filter_append, length_append] at lengths
  have none : (txSeq.dropWhile replayer.canReplayTx).filter replayer.canReplayTx = [] :=
    length_eq_zero_iff.mp (by omega)
  intro tx member
  simpa using filter_eq_nil_iff.mp none tx member

omit [DecidableEq Tx] in
theorem ReplayableFirst.calls_takeWhile {txSeq : List Tx}
    (replayable : ReplayableFirst replayer txSeq) (executor : Exec) :
    calls replayer executor (txSeq.takeWhile replayer.canReplayTx) =
      calls replayer executor txSeq := by
  induction txSeq generalizing executor with
  | nil => rfl
  | cons tx txSeq ih =>
    cases first : replayer.canReplayTx tx with
    | true =>
      have rest : ReplayableFirst replayer txSeq := by
        simpa [ReplayableFirst, dropWhile_cons, first] using replayable
      simp [first, calls, ih rest]
    | false =>
      have none : ∀ other ∈ txSeq, replayer.canReplayTx other = false := by
        simpa [ReplayableFirst, dropWhile_cons, first] using replayable
      have skipped : (calls replayer executor txSeq) = (executor, []) := by
        clear ih replayable
        induction txSeq with
        | nil => rfl
        | cons other txSeq ih =>
          rw [calls, none other mem_cons_self]
          exact ih fun later member => none later (mem_cons_of_mem other member)
      simp [first, calls, skipped]

end Recording

/-- What a call covers depends on the calls before it. -/
def chainedReplayer : Replayer ℕ ℕ ℕ (List ℕ) where
  executor := 0
  stateful := true
  canReplayTx _ := true
  executeTx executor tx := (executor, 10 * executor + tx)
  commit _ trace := trace
  mergeAllCoverage history trace := (trace :: history, decide (trace ∉ history))

end SwissledgerFoundry.Fuzz
