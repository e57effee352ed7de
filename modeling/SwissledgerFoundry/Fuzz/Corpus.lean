import Mathlib.Algebra.Order.Ring.Int
import SwissledgerFoundry.Collections.Transition
import SwissledgerFoundry.Primitives

/-!
# The corpus of the fuzz workers

At a sync a worker replays the files that other workers have put into its `sync`
directory, and exports its own new ones to the master, which exports what it has
to all other workers.  All filters compare the second in which a file was
written with the second of the last sync.
-/

namespace SwissledgerFoundry.Fuzz

/-- A file of a corpus directory.  Its name holds the identifier and the
second in which it was written. -/
structure CorpusFile (Tx : Type) where
  uuid : ℕ
  timestamp : ℕ
  txSeq : List Tx
deriving DecidableEq, Repr

structure CorpusEntry (Tx : Type) where
  uuid : ℕ
  totalMutations : ℕ
  newFindsProduced : ℕ
  txSeq : List Tx
  isFavored : Bool
  timestamp : ℕ
deriving DecidableEq, Repr

def CorpusEntry.newWith {Tx : Type} (now : ℕ) (txSeq : List Tx) (uuid : ℕ) : CorpusEntry Tx where
  uuid := uuid
  totalMutations := 0
  newFindsProduced := 0
  txSeq := txSeq
  isFavored := false
  timestamp := now

/-- The file that `write_to_disk_in` writes. -/
def CorpusEntry.file {Tx : Type} (entry : CorpusEntry Tx) : CorpusFile Tx where
  uuid := entry.uuid
  timestamp := entry.timestamp
  txSeq := entry.txSeq

/-- How call sequences are executed, and when their coverage is new. -/
structure Replayer (Tx Exec Trace History : Type) where
  executor : Exec
  /-- Whether calls are committed, as for invariant tests. -/
  stateful : Bool
  canReplayTx : Tx → Bool
  /-- A call may move the block of the executor, which then stays there. -/
  executeTx : Exec → Tx → Exec × Trace
  commit : Exec → Trace → Exec
  mergeAllCoverage : History → Trace → History × Bool

structure FuzzCorpusConfig where
  corpusMinSize : ℕ
  corpusMinMutations : ℕ
deriving DecidableEq, Repr

structure WorkerCorpus (Tx History : Type) where
  inMemoryCorpus : List (CorpusEntry Tx)
  historyMap : History
  currentMutated : Option ℕ
  newEntryIndices : List ℕ
  lastSyncTimestamp : ℕ
  optimizationBestValue : Option ℤ
  optimizationBestSequence : List Tx
  /-- The files in `corpus`. -/
  corpusDir : List (CorpusFile Tx)
  /-- The files in `sync`. -/
  syncDir : List (CorpusFile Tx)
  /-- The files that were replayed at the last sync. -/
  replayed : List (CorpusFile Tx)

section Files

variable {Tx : Type} [DecidableEq Tx] (dir : List (CorpusFile Tx)) (file : CorpusFile Tx)

/-- `hard_link`, which fails if the file is there. -/
def hardLink : List (CorpusFile Tx) :=
  if file ∈ dir then dir else dir ++ [file]

def removeFile : List (CorpusFile Tx) :=
  dir.filter (· ≠ file)

end Files

namespace WorkerCorpus

variable {Tx Exec Trace History : Type} [DecidableEq Tx]

/-- The statistics of the entry that the inputs were mutated from. -/
def creditMutation (interesting : Bool) (entry : CorpusEntry Tx) : CorpusEntry Tx :=
  let totalMutations := entry.totalMutations + 1
  let newFindsProduced :=
    if interesting then entry.newFindsProduced + 1
    else entry.newFindsProduced
  { entry with
    totalMutations := totalMutations
    newFindsProduced := newFindsProduced
    -- more than `FAVORABILITY_THRESHOLD` of the mutations
    isFavored := 10 * newFindsProduced > 3 * totalMutations }

/-- Changes the first entry with the identifier. -/
def updateEntry (uuid : ℕ) (change : CorpusEntry Tx → CorpusEntry Tx) :
    List (CorpusEntry Tx) → List (CorpusEntry Tx)
  | [] => []
  | entry :: entries =>
    if entry.uuid = uuid then change entry :: entries
    else entry :: updateEntry uuid change entries

section

variable (worker : WorkerCorpus Tx History)

def improvesOptimization (optimization : Option (ℤ × List Tx)) : Bool :=
  match optimization with
  | none => false
  | some (value, _) =>
    match worker.optimizationBestValue with
    | none => true
    | some best => decide (value > best)

/-- Updates the statistics of the entry that was mutated, if any. -/
def creditMutated (interesting : Bool) : WorkerCorpus Tx History :=
  match worker.currentMutated with
  | none => worker
  | some mutated =>
    { worker with
      inMemoryCorpus := updateEntry mutated (creditMutation interesting) worker.inMemoryCorpus
      currentMutated := none }

def recordOptimization (improvedOptimization : Bool) (optimization : Option (ℤ × List Tx)) :
    WorkerCorpus Tx History :=
  match optimization with
  | none => worker
  | some (value, bestSequence) =>
    if improvedOptimization then
      { worker with optimizationBestValue := some value, optimizationBestSequence := bestSequence }
    else worker

/-- `process_inputs`, with the current second and a new identifier.  The
inputs of a run are never empty. -/
def processInputs (now uuid : ℕ) (inputs : List Tx) (newCoverage : Bool)
    (optimization : Option (ℤ × List Tx)) : WorkerCorpus Tx History :=
  let improvedOptimization := worker.improvesOptimization optimization
  let worker :=
    (worker.creditMutated
      (newCoverage || improvedOptimization)).recordOptimization improvedOptimization optimization
  if !newCoverage && !improvedOptimization then worker
  else
    let corpusInputs :=
      if improvedOptimization && !newCoverage then
        worker.optimizationBestSequence
      else inputs
    let corpus := CorpusEntry.newWith now corpusInputs uuid
    { worker with
      corpusDir := hardLink worker.corpusDir corpus.file
      newEntryIndices := worker.newEntryIndices ++ [worker.inMemoryCorpus.length]
      inMemoryCorpus := worker.inMemoryCorpus ++ [corpus] }

end

section

variable (config : FuzzCorpusConfig) (worker : WorkerCorpus Tx History)

def evictOldestCorpus : WorkerCorpus Tx History :=
  if worker.inMemoryCorpus.length > max config.corpusMinSize 1 then
    match worker.inMemoryCorpus.findIdx? fun corpus =>
        corpus.totalMutations > config.corpusMinMutations && !corpus.isFavored with
    | none => worker
    | some index =>
      { worker with
        inMemoryCorpus := worker.inMemoryCorpus.eraseIdx index
        newEntryIndices := worker.newEntryIndices.filterMap fun i =>
          if i > index then some (i - 1)
          else if i = index then none
          else some i }
  else worker

/-- `new_inputs`, up to the sequence that is generated from the entry that is
picked for mutation. -/
def newInputs (primary : ℕ) : WorkerCorpus Tx History :=
  let worker := worker.evictOldestCorpus config
  match worker.inMemoryCorpus[primary]? with
  | none => worker
  | some entry => { worker with currentMutated := some entry.uuid }

end

section Sync

def loadSyncCorpus (worker : WorkerCorpus Tx History) : List (CorpusFile Tx) :=
  worker.syncDir.filter fun entry =>
    entry.timestamp > worker.lastSyncTimestamp && !entry.txSeq.isEmpty

variable (replayer : Replayer Tx Exec Trace History)

/-- Replays a call, and tells whether one had new coverage so far. -/
def replayTx (state : Exec × History × Bool) (tx : Tx) : Exec × History × Bool :=
  let (executor, trace) := replayer.executeTx state.1 tx
  let (historyMap, newCoverage) := replayer.mergeAllCoverage state.2.1 trace
  (if replayer.stateful then replayer.commit executor trace else executor, historyMap,
    state.2.2 || newCoverage)

def replay (executor : Exec) (historyMap : History) (txSeq : List Tx) : Exec × History × Bool :=
  txSeq.foldl (fun state tx =>
    if replayer.canReplayTx tx then replayTx replayer state tx else state)
    (executor, historyMap, false)

/-- The replay of a file in `new`, which tests of a function end at a call
that cannot be replayed. -/
def warmUp (fuzzedFunction : Bool) (state : Exec × History × Bool) : List Tx → Exec × History × Bool
  | [] => state
  | tx :: txSeq =>
    if replayer.canReplayTx tx then warmUp fuzzedFunction (replayTx replayer state tx) txSeq
    else if fuzzedFunction then state
    else warmUp fuzzedFunction state txSeq

/-- One round of `calibrate`. -/
def importEntry (now : ℕ) (state : Exec × WorkerCorpus Tx History)
    (entry : CorpusFile Tx) : Exec × WorkerCorpus Tx History :=
  let (executor, historyMap, newCoverageOnSync) :=
    replay replayer state.1 state.2.historyMap entry.txSeq
  let worker := { state.2 with historyMap := historyMap, replayed := state.2.replayed ++ [entry] }
  let syncDir := removeFile worker.syncDir entry
  if newCoverageOnSync then
    (executor,
      { worker with
        syncDir := syncDir
        corpusDir := hardLink worker.corpusDir entry
        inMemoryCorpus := worker.inMemoryCorpus ++
          [CorpusEntry.newWith now entry.txSeq entry.uuid] })
  else (executor, { worker with syncDir := syncDir })

def calibrate (now : ℕ) (worker : WorkerCorpus Tx History) : WorkerCorpus Tx History :=
  (worker.loadSyncCorpus.foldl (importEntry replayer now)
    (replayer.executor, { worker with replayed := [] })).2

variable (worker : WorkerCorpus Tx History)

/-- The files that `export_to_master` links. -/
def newFiles : List (CorpusFile Tx) :=
  worker.newEntryIndices.filterMap fun index =>
    match worker.inMemoryCorpus[index]? with
    | none => none
    | some corpus => if corpus.file ∈ worker.corpusDir then some corpus.file else none

/-- The files that `export_to_workers` links. -/
def filteredCorpus : List (CorpusFile Tx) :=
  worker.corpusDir.filter fun entry => entry.timestamp > worker.lastSyncTimestamp

end Sync

end WorkerCorpus

/-- The workers of a campaign, the master first, and the clock in seconds. -/
structure Campaign (Tx History : Type) where
  numWorkers : ℕ
  workers : ℕ → WorkerCorpus Tx History
  now : ℕ
  nextUuid : ℕ

/-- What a worker does.  The clock moves between the steps. -/
inductive CorpusEvent (Tx : Type) where
  | tick (seconds : ℕ)
  | newInputs (id primary : ℕ)
  | processInputs (id : ℕ) (inputs : List Tx) (newCoverage : Bool)
      (optimization : Option (ℤ × List Tx))
  | sync (id : ℕ)
deriving DecidableEq, Repr

namespace Campaign

variable {Tx Exec Trace History : Type} [DecidableEq Tx]

def setWorker (campaign : Campaign Tx History) (id : ℕ)
    (worker : WorkerCorpus Tx History) : Campaign Tx History :=
  { campaign with workers := Function.update campaign.workers id worker }

/-- Links files into a `sync` directory. -/
def linkAll (files : List (CorpusFile Tx))
    (worker : WorkerCorpus Tx History) : WorkerCorpus Tx History :=
  { worker with syncDir := files.foldl hardLink worker.syncDir }

section

variable (campaign : Campaign Tx History)

def exportToMaster (id : ℕ) : Campaign Tx History :=
  campaign.setWorker 0 (linkAll (campaign.workers id).newFiles (campaign.workers 0))

def exportToWorkers : Campaign Tx History :=
  { campaign with
    workers := fun target =>
      if 1 ≤ target ∧ target < campaign.numWorkers then
        linkAll (campaign.workers 0).filteredCorpus (campaign.workers target)
      else campaign.workers target }

end

def sync (replayer : Replayer Tx Exec Trace History)
    (campaign : Campaign Tx History) (id : ℕ) : Campaign Tx History :=
  let campaign := campaign.setWorker id ((campaign.workers id).calibrate replayer campaign.now)
  let campaign := if id = 0 then campaign.exportToWorkers else campaign.exportToMaster id
  campaign.setWorker id
    { campaign.workers id with lastSyncTimestamp := campaign.now, newEntryIndices := [] }

def step (config : FuzzCorpusConfig) (replayer : Replayer Tx Exec Trace History)
    (campaign : Campaign Tx History) : CorpusEvent Tx → Campaign Tx History
  | .tick seconds => { campaign with now := campaign.now + seconds }
  | .newInputs id primary => campaign.setWorker id ((campaign.workers id).newInputs config primary)
  | .processInputs id inputs newCoverage optimization =>
    { campaign.setWorker id
        ((campaign.workers id).processInputs campaign.now
          campaign.nextUuid inputs newCoverage optimization) with
      nextUuid := campaign.nextUuid + 1 }
  | .sync id => campaign.sync replayer id

end Campaign

end SwissledgerFoundry.Fuzz
