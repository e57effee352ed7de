import SwissledgerFoundry.Fuzz.Corpus

/-!
# What reaches the other workers

A file in a `sync` directory is replayed if it was written in a later second
than the last sync of the worker.  A file that waited longer at the worker that
wrote it is skipped for ever.
-/

namespace SwissledgerFoundry.Fuzz

open List WorkerCorpus Transition

variable {Tx Exec Trace History : Type} [DecidableEq Tx] {file : CorpusFile Tx}

theorem mem_hardLink {dir : List (CorpusFile Tx)} {other : CorpusFile Tx} :
    other ∈ hardLink dir file ↔ other ∈ dir ∨ other = file := by
  unfold hardLink
  split
  · rename_i member
    constructor
    · exact .inl
    rintro (old | rfl)
    · exact old
    · exact member
  · rw [mem_append, mem_singleton]

variable {files : List (CorpusFile Tx)}

theorem mem_foldl_hardLink {dir : List (CorpusFile Tx)} :
    file ∈ files.foldl hardLink dir ↔ file ∈ dir ∨ file ∈ files := by
  induction files generalizing dir with
  | nil => simp
  | cons first files ih => rw [foldl_cons, ih, mem_hardLink, mem_cons, or_assoc]

namespace WorkerCorpus

variable {worker : WorkerCorpus Tx History}

/-- What replaying files leaves alone, and where moved files come from. -/
structure Imports (before : WorkerCorpus Tx History)
    (files : List (CorpusFile Tx)) (after : WorkerCorpus Tx History) :
    Prop where
  replayed : after.replayed = files
  lastSyncTimestamp : after.lastSyncTimestamp = before.lastSyncTimestamp
  kept : ∀ file ∈ before.corpusDir, file ∈ after.corpusDir
  moved : ∀ file ∈ after.corpusDir, file ∈ before.corpusDir ∨ file ∈ files

theorem importEntry_imports {Trace : Type} {replayer : Replayer Tx Exec Trace History} {now : ℕ}
    {executor : Exec} {after : WorkerCorpus Tx History} {entry : CorpusFile Tx}
    (imports : Imports worker files after) :
    Imports worker (files ++ [entry]) (importEntry replayer now (executor, after) entry).2 := by
  have replayed : after.replayed ++ [entry] = files ++ [entry] :=
    congrArg (· ++ [entry]) imports.replayed
  have moved : ∀ file ∈ after.corpusDir, file ∈ worker.corpusDir ∨ file ∈ files ++ [entry] :=
    fun file member => (imports.moved file member).imp_right (mem_append_left _)
  unfold importEntry
  dsimp only
  split
  · refine ⟨replayed, imports.lastSyncTimestamp, fun file member => ?_, fun file member => ?_⟩
    · exact mem_hardLink.mpr (.inl (imports.kept file member))
    rcases mem_hardLink.mp member with old | rfl
    · exact moved file old
    · exact .inr (mem_append_right _ mem_cons_self)
  · exact ⟨replayed, imports.lastSyncTimestamp, imports.kept, moved⟩

theorem calibrate_imports (replayer : Replayer Tx Exec Trace History)
    (now : ℕ) (worker : WorkerCorpus Tx History) :
    Imports worker worker.loadSyncCorpus (worker.calibrate replayer now) := by
  have all : ∀ (files done : List (CorpusFile Tx)) (executor : Exec)
      (after : WorkerCorpus Tx History), Imports worker done after →
      Imports worker (done ++ files)
        (files.foldl (importEntry replayer now) (executor, after)).2 := by
    intro files
    induction files with
    | nil =>
      intro done executor after imports
      rw [append_nil]
      exact imports
    | cons file files ih =>
      intro done executor after imports
      rw [append_cons]
      exact ih _ _ _ (importEntry_imports imports)
  exact all worker.loadSyncCorpus [] replayer.executor { worker with replayed := [] }
    { replayed := rfl
      lastSyncTimestamp := rfl
      kept := fun _ member => member
      moved := fun _ member => .inl member }

omit [DecidableEq Tx] in
theorem mem_loadSyncCorpus : file ∈ worker.loadSyncCorpus ↔
      file ∈ worker.syncDir ∧ worker.lastSyncTimestamp < file.timestamp ∧ file.txSeq ≠ [] := by
  unfold loadSyncCorpus
  rw [mem_filter, Bool.and_eq_true, decide_eq_true_iff, Bool.not_eq_true', isEmpty_eq_false_iff]

omit [DecidableEq Tx] in
theorem mem_filteredCorpus : file ∈ worker.filteredCorpus ↔
      file ∈ worker.corpusDir ∧ worker.lastSyncTimestamp < file.timestamp := by
  unfold filteredCorpus
  rw [mem_filter, decide_eq_true_iff]

end WorkerCorpus

/-- What another worker does to a worker, and what its own inputs do. -/
structure WorkerCorpus.Keeps (before after : WorkerCorpus Tx History) : Prop where
  lastSyncTimestamp : after.lastSyncTimestamp = before.lastSyncTimestamp
  syncDir : ∀ file ∈ before.syncDir, file ∈ after.syncDir
  corpusDir : ∀ file ∈ before.corpusDir, file ∈ after.corpusDir

omit [DecidableEq Tx] in
theorem WorkerCorpus.Keeps.refl (worker : WorkerCorpus Tx History) : worker.Keeps worker where
  lastSyncTimestamp := rfl
  syncDir _ member := member
  corpusDir _ member := member

omit [DecidableEq Tx] in
theorem WorkerCorpus.Keeps.trans {third : WorkerCorpus Tx History}
    {first second : WorkerCorpus Tx History}
    (left : first.Keeps second) (right : second.Keeps third) :
    first.Keeps third where
  lastSyncTimestamp := right.lastSyncTimestamp.trans left.lastSyncTimestamp
  syncDir file member := right.syncDir file (left.syncDir file member)
  corpusDir file member := right.corpusDir file (left.corpusDir file member)

namespace Campaign

variable {config : FuzzCorpusConfig}
  {replayer : Replayer Tx Exec Trace History}
  {campaign : Campaign Tx History}

theorem linkAll_keeps (files : List (CorpusFile Tx)) (worker : WorkerCorpus Tx History) :
    worker.Keeps (linkAll files worker) where
  lastSyncTimestamp := rfl
  syncDir _ member := mem_foldl_hardLink.mpr (.inl member)
  corpusDir _ member := member

omit [DecidableEq Tx] in
theorem newInputs_keeps (worker : WorkerCorpus Tx History) (primary : ℕ) :
    worker.Keeps (worker.newInputs config primary) := by
  have evicted : worker.Keeps (worker.evictOldestCorpus config) := by
    unfold evictOldestCorpus
    split
    · split
      · exact .refl worker
      · exact ⟨rfl, fun _ member => member, fun _ member => member⟩
    · exact .refl worker
  unfold newInputs
  dsimp only
  split
  · exact evicted
  · exact evicted.trans ⟨rfl, fun _ member => member, fun _ member => member⟩

/-- What `process_inputs` writes carries the current second. -/
theorem processInputs_keeps (worker : WorkerCorpus Tx History)
    (now uuid : ℕ) (inputs : List Tx) (newCoverage : Bool)
    (optimization : Option (ℤ × List Tx)) :
    worker.Keeps (worker.processInputs now uuid inputs newCoverage optimization) ∧
      ∀ file ∈ (worker.processInputs now uuid inputs newCoverage optimization).corpusDir,
        file ∈ worker.corpusDir ∨ file.timestamp = now := by
  have credited : ∀ interesting, worker.Keeps (worker.creditMutated interesting) ∧
      (worker.creditMutated interesting).corpusDir = worker.corpusDir := by
    intro interesting
    unfold creditMutated
    split
    · exact ⟨.refl worker, rfl⟩
    · exact ⟨⟨rfl, fun _ member => member, fun _ member => member⟩, rfl⟩
  have recorded : ∀ (worker : WorkerCorpus Tx History) improved,
      worker.Keeps (worker.recordOptimization improved optimization) ∧
      (worker.recordOptimization improved optimization).corpusDir = worker.corpusDir := by
    intro worker improved
    unfold recordOptimization
    split
    · exact ⟨.refl worker, rfl⟩
    split
    · exact ⟨⟨rfl, fun _ member => member, fun _ member => member⟩, rfl⟩
    · exact ⟨.refl worker, rfl⟩
  unfold processInputs
  dsimp only
  obtain ⟨first, sameFirst⟩ := credited (newCoverage || worker.improvesOptimization optimization)
  obtain ⟨second, sameSecond⟩ := recorded
    (worker.creditMutated (newCoverage || worker.improvesOptimization optimization))
    (worker.improvesOptimization optimization)
  have same := sameSecond.trans sameFirst
  have keeps := first.trans second
  split
  · refine ⟨keeps, fun file member => .inl ?_⟩
    rw [same] at member
    exact member
  constructor
  · exact
      { lastSyncTimestamp := keeps.lastSyncTimestamp
        syncDir := keeps.syncDir
        corpusDir := fun file member => mem_hardLink.mpr (.inl (keeps.corpusDir file member)) }
  intro file member
  rcases mem_hardLink.mp member with old | rfl
  · rw [same] at old
    exact .inl old
  · exact .inr rfl

section

variable (replayer : Replayer Tx Exec Trace History) (campaign : Campaign Tx History) (id : ℕ)

theorem sync_self : (campaign.sync replayer id).workers id =
      { (campaign.workers id).calibrate replayer campaign.now with
        lastSyncTimestamp := campaign.now
        newEntryIndices := [] } := by
  unfold sync
  by_cases master : id = 0
  · subst master
    simp [setWorker, exportToWorkers]
  · simp [setWorker, exportToMaster, master]

def exported : List (CorpusFile Tx) :=
  if id = 0 then
    ((campaign.workers 0).calibrate replayer campaign.now).filteredCorpus
  else ((campaign.workers id).calibrate replayer campaign.now).newFiles

end

variable {id : ℕ}

theorem sync_other {other : ℕ} (different : other ≠ id) :
    (campaign.sync replayer id).workers other =
      if other = 0 ∨ (id = 0 ∧ other < campaign.numWorkers) then
        linkAll (campaign.exported replayer id) (campaign.workers other)
      else campaign.workers other := by
  unfold sync exported
  by_cases master : id = 0
  · subst master
    have positive : 1 ≤ other := Nat.one_le_iff_ne_zero.mpr different
    simp [setWorker, exportToWorkers, different, positive]
  by_cases toMaster : other = 0
  · subst toMaster
    simp [setWorker, exportToMaster, master, Ne.symm master]
  · simp [setWorker, exportToMaster, master, toMaster, different]

omit [DecidableEq Tx] in
theorem setWorker_keeps {worker : WorkerCorpus Tx History}
    (keeps : (campaign.workers id).Keeps worker) (other : ℕ) :
    (campaign.workers other).Keeps ((campaign.setWorker id worker).workers other) := by
  show (campaign.workers other).Keeps (Function.update campaign.workers id worker other)
  by_cases same : other = id
  · subst same
    rw [Function.update_self]
    exact keeps
  · rw [Function.update_of_ne same]
    exact .refl _

theorem step_keeps {event : CorpusEvent Tx} (noSync : event ≠ .sync id) :
    (campaign.workers id).Keeps ((campaign.step config replayer event).workers id) := by
  cases event with
  | tick seconds => exact .refl _
  | newInputs other primary => exact setWorker_keeps (newInputs_keeps _ _) id
  | processInputs other inputs newCoverage optimization =>
    exact setWorker_keeps (processInputs_keeps _ _ _ _ _ _).1 id
  | sync other =>
    have different : id ≠ other := fun same => noSync (same ▸ rfl)
    show (campaign.workers id).Keeps ((campaign.sync replayer other).workers id)
    rw [sync_other different]
    split
    · exact linkAll_keeps _ _
    · exact .refl _

variable {between : List (CorpusEvent Tx)}

section

variable (config : FuzzCorpusConfig)
  (replayer : Replayer Tx Exec Trace History)
  (campaign : Campaign Tx History)

theorem run_keeps (noSync : ∀ event ∈ between, event ≠ .sync id) :
    (campaign.workers id).Keeps ((run (step config replayer) campaign between).workers id) := by
  apply foldlRecOn (motive := fun state : Campaign Tx History =>
    (campaign.workers id).Keeps (state.workers id))
  · exact .refl _
  · intro state keeps event member
    exact keeps.trans (step_keeps (noSync event member))

theorem run_numWorkers (events : List (CorpusEvent Tx)) :
    (run (step config replayer) campaign events).numWorkers = campaign.numWorkers := by
  apply foldlRecOn (motive := fun state : Campaign Tx History =>
    state.numWorkers = campaign.numWorkers)
  · rfl
  intro state same event _
  rw [← same]
  cases event with
  | sync id =>
    show (state.sync replayer id).numWorkers = _
    unfold sync
    split
    · rfl
    · rfl
  | _ => rfl

/-- A file that waits in the directory of a worker is replayed at the next
sync of the worker, if it is newer than the last one. -/
theorem replayed_at_sync {file : CorpusFile Tx} (waits : file ∈ (campaign.workers id).syncDir)
    (newer : (campaign.workers id).lastSyncTimestamp < file.timestamp)
    (nonempty : file.txSeq ≠ [])
    (noSync : ∀ event ∈ between, event ≠ .sync id) :
    file ∈ ((run (step config replayer) campaign (between ++ [.sync id])).workers id).replayed := by
  rw [run_append]
  have keeps := run_keeps config replayer campaign noSync
  generalize run (step config replayer) campaign between = state at keeps ⊢
  show file ∈ ((state.sync replayer id).workers id).replayed
  rw [sync_self]
  rw [(calibrate_imports replayer state.now _).replayed,
    mem_loadSyncCorpus, keeps.lastSyncTimestamp]
  exact ⟨keeps.syncDir file waits, newer, nonempty⟩

theorem exported_at_sync (stored : file ∈ (campaign.workers 0).corpusDir)
    (newer : (campaign.workers 0).lastSyncTimestamp < file.timestamp)
    (noSync : ∀ event ∈ between, event ≠ .sync 0) :
    file ∈ exported replayer (run (step config replayer) campaign between) 0 := by
  have keeps := run_keeps config replayer campaign noSync
  generalize run (step config replayer) campaign between = state at keeps ⊢
  have imports := calibrate_imports replayer state.now (state.workers 0)
  unfold exported
  rw [if_pos rfl, mem_filteredCorpus, imports.lastSyncTimestamp, keeps.lastSyncTimestamp]
  exact ⟨imports.kept file (keeps.corpusDir file stored), newer⟩

end

theorem mem_syncDir_of_exported {other : ℕ}
    (member : file ∈ campaign.exported replayer id) (different : other ≠ id)
    (receives : other = 0 ∨ (id = 0 ∧ other < campaign.numWorkers)) :
    file ∈ ((campaign.sync replayer id).workers other).syncDir ∧
      ((campaign.sync replayer id).workers other).lastSyncTimestamp =
        (campaign.workers other).lastSyncTimestamp := by
  rw [sync_other different, if_pos receives]
  exact ⟨mem_foldl_hardLink.mpr (.inr member), rfl⟩

/-- Entries reach the other workers if they are newer than the last sync of
the receiver when they are exported, and if the master writes its own in a
later second than its last sync. -/
theorem run_delivers (config : FuzzCorpusConfig) (replayer : Replayer Tx Exec Trace History)
    (start : Campaign Tx History) (before : List (CorpusEvent Tx)) :
    -- what a worker exports is replayed at the next sync of the master
    (∀ id file between, id ≠ 0 →
      file ∈ exported replayer (run (step config replayer) start before) id →
      file.txSeq ≠ [] →
      ((run (step config replayer) start before).workers 0).lastSyncTimestamp < file.timestamp →
      (∀ event ∈ between, event ≠ .sync 0) →
      file ∈ ((run (step config replayer) start
        (before ++ .sync id :: (between ++ [.sync 0]))).workers 0).replayed) ∧
    -- what the master writes is exported at its next sync
    (∀ inputs newCoverage optimization file between id, file ∈ ((run (step config replayer) start
        (before ++ [.processInputs 0 inputs newCoverage optimization])).workers 0).corpusDir →
      file ∉ ((run (step config replayer) start before).workers 0).corpusDir →
      ((run (step config replayer) start before).workers
        0).lastSyncTimestamp < (run (step config replayer) start before).now →
      (∀ event ∈ between, event ≠ .sync 0) →
      1 ≤ id → id < start.numWorkers →
      file ∈ ((run (step config replayer) start
        (before ++ .processInputs 0 inputs newCoverage optimization ::
          (between ++ [.sync 0]))).workers id).syncDir) ∧
    -- what the master moves at a sync is exported at that sync
    (∀ file id, file ∈ ((run (step config replayer) start
        (before ++ [.sync 0])).workers 0).corpusDir →
      file ∉ ((run (step config replayer) start before).workers 0).corpusDir →
      1 ≤ id → id < start.numWorkers →
      file ∈ ((run (step config replayer) start (before ++ [.sync 0])).workers id).syncDir) ∧
    -- what the master exports is replayed at the next sync of each worker
    ∀ id file between, 1 ≤ id → id < start.numWorkers →
      file ∈ exported replayer (run (step config replayer) start before) 0 →
      file.txSeq ≠ [] →
      ((run (step config replayer) start before).workers id).lastSyncTimestamp < file.timestamp →
      (∀ event ∈ between, event ≠ .sync id) →
      file ∈ ((run (step config replayer) start
        (before ++ .sync 0 :: (between ++ [.sync id]))).workers id).replayed := by
  have workers := run_numWorkers config replayer start before
  have continued := run_append (step config replayer) start before
  simp only [continued]
  generalize run (step config replayer) start before = campaign at workers ⊢
  rw [← workers]
  refine ⟨?_, ?_, ?_, ?_⟩
  · intro id file between notMaster member nonempty newer noSync
    obtain ⟨waits, same⟩ := mem_syncDir_of_exported member (Ne.symm notMaster) (.inl rfl)
    exact replayed_at_sync config replayer (campaign.sync replayer id) waits
      (same ▸ newer) nonempty noSync
  · intro inputs newCoverage optimization file between id stored unwritten
      later noSync positive bound
    obtain ⟨keeps, written⟩ := processInputs_keeps (campaign.workers 0)
      campaign.now campaign.nextUuid inputs newCoverage optimization
    have newer : ((campaign.workers 0).processInputs campaign.now
        campaign.nextUuid inputs newCoverage
        optimization).lastSyncTimestamp < file.timestamp := by
      rcases written file stored with old | current
      · exact absurd old unwritten
      · rw [keeps.lastSyncTimestamp, current]
        exact later
    have member := exported_at_sync config replayer (campaign.step config replayer
        (.processInputs 0 inputs newCoverage optimization)) stored newer
      noSync
    have same := run_numWorkers config replayer
      (campaign.step config replayer (.processInputs 0 inputs newCoverage optimization)) between
    rw [run_cons, run_append]
    exact (mem_syncDir_of_exported member
      (Nat.one_le_iff_ne_zero.mp positive) (.inr ⟨rfl, same ▸ bound⟩)).1
  · intro file id stored unmoved positive bound
    have imports := calibrate_imports replayer campaign.now (campaign.workers 0)
    have calibrated : file ∈ ((campaign.workers 0).calibrate replayer campaign.now).corpusDir :=
      stored
    have newer : (campaign.workers 0).lastSyncTimestamp < file.timestamp := by
      rcases imports.moved file calibrated with old | moved
      · exact absurd old unmoved
      · exact (mem_loadSyncCorpus.mp moved).2.1
    have member : file ∈ campaign.exported replayer 0 := by
      unfold exported
      rw [if_pos rfl, mem_filteredCorpus, imports.lastSyncTimestamp]
      exact ⟨calibrated, newer⟩
    exact (mem_syncDir_of_exported member
      (Nat.one_le_iff_ne_zero.mp positive) (.inr ⟨rfl, bound⟩)).1
  intro id file between positive bound member nonempty newer noSync
  obtain ⟨waits, same⟩ := mem_syncDir_of_exported member
    (Nat.one_le_iff_ne_zero.mp positive) (.inr ⟨rfl, bound⟩)
  exact replayed_at_sync config replayer (campaign.sync replayer 0) waits
    (same ▸ newer) nonempty noSync

/-- Each call covers itself. -/
def plainReplayer : Replayer ℕ Unit ℕ (List ℕ) where
  executor := ()
  stateful := false
  canReplayTx _ := true
  executeTx _ tx := ((), tx)
  commit _ _ := ()
  mergeAllCoverage history trace := (trace :: history, decide (trace ∉ history))

def plainConfig : FuzzCorpusConfig where
  corpusMinSize := 1
  corpusMinMutations := 1

def plainWorker : WorkerCorpus ℕ (List ℕ) where
  inMemoryCorpus := []
  historyMap := []
  currentMutated := none
  newEntryIndices := []
  lastSyncTimestamp := 0
  optimizationBestValue := none
  optimizationBestSequence := []
  corpusDir := []
  syncDir := []
  replayed := []

/-- The master and one other worker. -/
def twoWorkers : Campaign ℕ (List ℕ) where
  numWorkers := 2
  workers _ := plainWorker
  now := 0
  nextUuid := 0

/-- The worker writes an entry and exports it before the master syncs. -/
theorem run_delivers_exported_early : ({ uuid := 0, timestamp := 5, txSeq := [7] } : CorpusFile ℕ) ∈
      ((run (step plainConfig plainReplayer) twoWorkers
        ([.tick 5, .processInputs 1 [7] true none] ++ .sync 1 ::
          ([.tick 5] ++ [.sync 0]))).workers 0).replayed := by
  apply (run_delivers plainConfig plainReplayer twoWorkers
    [.tick 5, .processInputs 1 [7] true none]).1 1 _ [.tick 5]
  · decide
  · decide +kernel
  · decide
  · decide +kernel
  · decide

/-- The master syncs between the writing and the export of an entry, and skips
it from then on. -/
theorem run_skips_exported_late : ({ uuid := 0, timestamp := 5, txSeq := [7] } : CorpusFile ℕ) ∈
      exported plainReplayer (run (step plainConfig plainReplayer) twoWorkers
          [.tick 5, .processInputs 1 [7] true none, .tick 5, .sync 0, .tick 1]) 1 ∧
    ({ uuid := 0, timestamp := 5, txSeq := [7] } : CorpusFile ℕ) ∉
      ((run (step plainConfig plainReplayer) twoWorkers
        [.tick 5, .processInputs 1 [7] true none, .tick 5, .sync 0,
          .tick 1, .sync 1, .tick 9, .sync 0]).workers 0).replayed ∧
    ({ uuid := 0, timestamp := 5, txSeq := [7] } : CorpusFile ℕ) ∈
      ((run (step plainConfig plainReplayer) twoWorkers
        [.tick 5, .processInputs 1 [7] true none, .tick 5, .sync 0,
          .tick 1, .sync 1, .tick 9, .sync 0]).workers 0).syncDir := by
  refine ⟨?_, ?_, ?_⟩ <;> decide +kernel

end Campaign

end SwissledgerFoundry.Fuzz
