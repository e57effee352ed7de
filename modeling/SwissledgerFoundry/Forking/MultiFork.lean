import SwissledgerFoundry.Collections.SwapRemove
import SwissledgerFoundry.Forking.ForkId

/-!
# The handler of fork requests

Forks are created by tasks that wait for an endpoint.  Forks of the same
endpoint and block share their backend, and are told apart by the numbers of a
counter.
-/

namespace SwissledgerFoundry.Forking

open List

/-- The sending half of the channel on which an answer is awaited. -/
abbrev Sender := ℕ

structure CreateFork where
  url : List Char
  forkBlockNumber : Option ℕ
deriving DecidableEq, Repr

/-- What the endpoints answer for each block. -/
structure Provider where
  evmEnv : List Char → ℕ → EvmEnv
  remote : List Char → ℕ → DatabaseRef

structure CreatedFork where
  opts : CreateFork
  evmEnv : EvmEnv
  backend : DatabaseRef
  /-- Refers to the counter that all copies of the fork share. -/
  numSenders : ℕ

/-- `ForkTask::Create`, where the request stands for its future. -/
structure ForkTask where
  fork : CreateFork
  id : ForkId
  sender : Sender
  additionalSenders : List Sender

def ForkTask.senders (task : ForkTask) : List Sender := task.sender :: task.additionalSenders

/-- The block that the endpoint answers with: the requested one, or the latest
one at that time. -/
def CreateFork.resolvedNumber (fork : CreateFork) (latest : ℕ) : ℕ :=
  fork.forkBlockNumber.getD latest

inductive Request where
  | createFork (fork : CreateFork) (sender : Sender)
  | getFork (forkId : ForkId) (sender : Sender)
  | rollFork (forkId : ForkId) (block : ℕ) (sender : Sender)
  | getEvmEnv (forkId : ForkId) (sender : Sender)
  | updateBlock (forkId : ForkId) (number timestamp : U256)
  | updateEnv (forkId : ForkId) (env : BlockEnv)
  | shutDown (sender : Sender)
  | getForkUrl (forkId : ForkId) (sender : Sender)
deriving DecidableEq, Repr

inductive Answer where
  | created (result : Except String ForkReply)
  | fork (backend : Option DatabaseRef)
  | evmEnv (env : Option EvmEnv)
  | forkUrl (url : Option (List Char))
  | shutDown

structure MultiForkHandler where
  pendingTasks : List ForkTask
  forks : HashMap ForkId CreatedFork
  /-- The values of the shared counters. -/
  counters : List ℕ
  /-- The answers so far. -/
  sent : List (Sender × Answer)

namespace MultiForkHandler

def new : MultiForkHandler where
  pendingTasks := []
  forks := ∅
  counters := []
  sent := []

def send (handler : MultiForkHandler) (sender : Sender) (answer : Answer) : MultiForkHandler :=
  { handler with sent := handler.sent ++ [(sender, answer)] }

/-- `find_in_progress_task`, and the new sender in the task that it finds. -/
def joinInProgressTask (id : ForkId) (sender : Sender) : List ForkTask → Option (List ForkTask)
  | [] => none
  | task :: tasks =>
    if task.id = id then
      some ({ task with additionalSenders := task.additionalSenders ++ [sender] } :: tasks)
    else (joinInProgressTask id sender tasks).map (task :: ·)

section

variable (handler : MultiForkHandler)

def createFork (fork : CreateFork) (sender : Sender) : MultiForkHandler :=
  let forkId := ForkId.new fork.url fork.forkBlockNumber
  match joinInProgressTask forkId sender handler.pendingTasks with
  | some tasks => { handler with pendingTasks := tasks }
  | none =>
    { handler with
      pendingTasks := handler.pendingTasks ++
        [{ fork := fork, id := forkId, sender := sender, additionalSenders := [] }] }

/-- The value of a shared counter. -/
def count (counter : ℕ) : ℕ := handler.counters.getD counter 0

/-- `inc_senders`: takes the next number of the shared counter. -/
def incSenders (fork : CreatedFork) (forkId : ForkId) : MultiForkHandler × ForkId :=
  let number := handler.count fork.numSenders
  ({ handler with counters := handler.counters.set fork.numSenders (number + 1) },
    forkId.append number)

def track (forkId : ForkId) (fork : CreatedFork) (sender : Sender) : MultiForkHandler :=
  { handler with forks := handler.forks.insert forkId fork }.send sender
      (.created (.ok
        { forkId := forkId, remote := fork.backend, evmEnv := fork.evmEnv }))

end

/-- One round of the loop over the additional senders. -/
def trackNext (forkId : ForkId) (fork : CreatedFork)
    (handler : MultiForkHandler) (sender : Sender) : MultiForkHandler :=
  let (handler, nextForkId) := handler.incSenders fork forkId
  handler.track nextForkId fork sender

section

variable (handler : MultiForkHandler) (forkId : ForkId)

def insertNewFork (fork : CreatedFork) (sender : Sender)
    (additionalSenders : List Sender) : MultiForkHandler :=
  additionalSenders.foldl (trackNext forkId fork) (handler.track forkId fork sender)

def updateEnv (env : BlockEnv) : MultiForkHandler :=
  match handler.forks.lookup forkId with
  | none => handler
  | some fork =>
    { handler with
      forks := handler.forks.insert forkId
        { fork with evmEnv := { fork.evmEnv with blockEnv := env } } }

def updateBlock (number timestamp : U256) : MultiForkHandler :=
  match handler.forks.lookup forkId with
  | none => handler
  | some fork =>
    { handler with
      forks := handler.forks.insert forkId
        { fork with
          evmEnv :=
            { fork.evmEnv with
              blockEnv :=
                { fork.evmEnv.blockEnv with number := number, timestamp := timestamp } } } }

/-- The answer to `GetEvmEnv`. -/
def getEvmEnv : Option EvmEnv :=
  (handler.forks.lookup forkId).map CreatedFork.evmEnv

end

def onRequest (handler : MultiForkHandler) : Request → MultiForkHandler
  | .createFork fork sender => handler.createFork fork sender
  | .getFork forkId sender =>
    handler.send sender (.fork ((handler.forks.lookup forkId).map CreatedFork.backend))
  | .rollFork forkId block sender =>
    match handler.forks.lookup forkId with
    | some fork => handler.createFork { fork.opts with forkBlockNumber := some block } sender
    | none =>
      handler.send sender (.created (.error
        ("No matching fork exists for " ++ String.ofList forkId)))
  | .getEvmEnv forkId sender => handler.send sender (.evmEnv (handler.getEvmEnv forkId))
  | .updateBlock forkId number timestamp => handler.updateBlock forkId number timestamp
  | .updateEnv forkId env => handler.updateEnv forkId env
  | .shutDown sender => { handler with forks := ∅ }.send sender .shutDown
  | .getForkUrl forkId sender =>
    handler.send sender (.forkUrl ((handler.forks.lookup forkId).map fun fork => fork.opts.url))

section Poll

variable (provider : Provider)

/-- The fork that a task returns, with a counter of its own. -/
def establish (handler : MultiForkHandler) (fork : CreateFork)
    (number : ℕ) : MultiForkHandler × CreatedFork :=
  ({ handler with counters := handler.counters ++ [1] },
    { opts := fork
      evmEnv := provider.evmEnv fork.url number
      backend := provider.remote fork.url number
      numSenders := handler.counters.length })

/-- A task is ready. -/
def complete (handler : MultiForkHandler) (task : ForkTask) : Except String ℕ → MultiForkHandler
  | .error error =>
    task.senders.foldl (fun handler sender => handler.send sender (.created (.error error))) handler
  | .ok latest =>
    let number := task.fork.resolvedNumber latest
    let (handler, created) := handler.establish provider task.fork number
    let forkId := ForkId.new task.fork.url (some number)
    match handler.forks.lookup forkId with
    | some fork =>
      let (handler, nextForkId) := handler.incSenders fork forkId
      handler.insertNewFork nextForkId fork task.sender task.additionalSenders
    | none => handler.insertNewFork forkId created task.sender task.additionalSenders

/-- One round of the loop over the pending tasks.  The endpoints decide which
tasks are ready, whether they failed, and which block is the latest one. -/
def advanceTask (outcome : ForkId → Option (Except String ℕ))
    (handler : MultiForkHandler) (n : ℕ) : MultiForkHandler :=
  match handler.pendingTasks[n]? with
  | none => handler
  | some task =>
    let handler := { handler with pendingTasks := handler.pendingTasks.swapRemove n }
    match outcome task.id with
    | some result => handler.complete provider task result
    | none => { handler with pendingTasks := handler.pendingTasks ++ [task] }

/-- `poll`, after the new requests were received. -/
def poll (handler : MultiForkHandler)
    (outcome : ForkId → Option (Except String ℕ)) : MultiForkHandler :=
  (List.range handler.pendingTasks.length).reverse.foldl (advanceTask provider outcome) handler

end Poll

end MultiForkHandler

inductive HandlerEvent where
  | request (request : Request)
  | poll (outcome : ForkId → Option (Except String ℕ))

/-- The clients still use the handler. -/
def HandlerEvent.Open : HandlerEvent → Prop
  | .request (.shutDown _) => False
  | _ => True

namespace MultiForkHandler

def step (provider : Provider) (handler : MultiForkHandler) : HandlerEvent → MultiForkHandler
  | .request request => handler.onRequest request
  | .poll outcome => handler.poll provider outcome

section Tasks

variable {handler : MultiForkHandler}

variable {sender : Sender}

theorem mem_joinInProgressTask {tasks joined : List ForkTask} {task : ForkTask} {id : ForkId}
    (found : joinInProgressTask id sender tasks = some joined)
    (member : task ∈ joined) :
    task ∈ tasks ∨ ∃ old ∈ tasks, old.id = id ∧
        task = { old with
          additionalSenders := old.additionalSenders ++ [sender] } := by
  induction tasks generalizing joined with
  | nil => cases found
  | cons first tasks ih =>
    unfold joinInProgressTask at found
    split at found
    · rename_i same
      cases found
      rcases mem_cons.mp member with rfl | later
      · exact .inr ⟨first, mem_cons_self, same, rfl⟩
      · exact .inl (mem_cons_of_mem _ later)
    obtain ⟨rest, foundRest, rfl⟩ := Option.map_eq_some_iff.mp found
    rcases mem_cons.mp member with rfl | later
    · exact .inl mem_cons_self
    rcases ih foundRest later with old | ⟨old, listed, same⟩
    · exact .inl (mem_cons_of_mem _ old)
    · exact .inr ⟨old, mem_cons_of_mem _ listed, same⟩

theorem mem_createFork {fork : CreateFork} {task : ForkTask}
    (member : task ∈ (handler.createFork fork sender).pendingTasks) :
    task ∈ handler.pendingTasks ∨
      (∃ old ∈ handler.pendingTasks, old.id = ForkId.new fork.url fork.forkBlockNumber ∧
        task = { old with additionalSenders := old.additionalSenders ++ [sender] }) ∨
      task =
        { fork := fork
          id := ForkId.new fork.url fork.forkBlockNumber
          sender := sender
          additionalSenders := [] } := by
  unfold createFork at member
  dsimp only at member
  split at member
  · rename_i tasks found
    rcases mem_joinInProgressTask found member with old | joined
    · exact .inl old
    · exact .inr (.inl joined)
  rcases mem_append.mp member with old | fresh
  · exact .inl old
  · exact .inr (.inr (mem_singleton.mp fresh))

theorem createFork_forks (handler : MultiForkHandler) (fork : CreateFork) (sender : Sender) :
    (handler.createFork fork sender).forks = handler.forks ∧
      (handler.createFork fork sender).counters = handler.counters ∧
      (handler.createFork fork sender).sent = handler.sent := by
  unfold createFork
  dsimp only
  split <;> exact ⟨rfl, rfl, rfl⟩

/-- The pending tasks stay, and what was sent before stays sent. -/
def Answers (handler after : MultiForkHandler) : Prop :=
  after.pendingTasks = handler.pendingTasks ∧ handler.sent <+: after.sent

theorem answers_insertNewFork {forkId : ForkId} {fork : CreatedFork}
    {additionalSenders : List Sender} (handler : MultiForkHandler) :
    Answers handler (handler.insertNewFork forkId fork sender additionalSenders) := by
  apply foldlRecOn (motive := Answers handler)
  · exact ⟨rfl, prefix_append _ _⟩
  · rintro state ⟨same, sent⟩ other _
    exact ⟨same, sent.trans (prefix_append _ _)⟩

theorem answers_complete (provider : Provider) (handler : MultiForkHandler) (task : ForkTask)
    (result : Except String ℕ) : Answers handler (handler.complete provider task result) := by
  unfold complete
  split
  · apply foldlRecOn (motive := Answers handler)
    · exact ⟨rfl, prefix_refl _⟩
    · rintro state ⟨same, sent⟩ other _
      exact ⟨same, sent.trans (prefix_append _ _)⟩
  · dsimp only
    split <;> exact answers_insertNewFork _

/-- An invariant that does not depend on the order of the pending tasks is
kept by polling if each completion keeps it. -/
theorem poll_invariant (provider : Provider) (outcome : ForkId → Option (Except String ℕ))
    (invariant : MultiForkHandler → Prop)
    (fewer : ∀ state tasks, invariant state → tasks ⊆ state.pendingTasks →
      invariant { state with pendingTasks := tasks })
    (completes : ∀ state tasks task result, invariant state →
      tasks ⊆ state.pendingTasks → task ∈ state.pendingTasks →
      task ∈ handler.pendingTasks → outcome task.id = some result →
      invariant ({ state with pendingTasks := tasks }.complete provider task result))
    (holds : invariant handler) :
    invariant (handler.poll provider outcome) := by
  have all : invariant (handler.poll provider outcome) ∧
      (handler.poll provider outcome).pendingTasks ⊆ handler.pendingTasks := by
    apply foldlRecOn (motive := fun state : MultiForkHandler =>
      invariant state ∧ state.pendingTasks ⊆ handler.pendingTasks)
    · exact ⟨holds, fun _ member => member⟩
    rintro state ⟨stateHolds, subset⟩ n _
    unfold advanceTask
    split
    · exact ⟨stateHolds, subset⟩
    rename_i task found
    have perm := swapRemove_perm found
    have listed : task ∈ state.pendingTasks := mem_of_getElem? found
    have removed : state.pendingTasks.swapRemove n ⊆ state.pendingTasks :=
      fun _ member => perm.subset (mem_cons_of_mem _ member)
    dsimp only
    split
    · rename_i result ready
      constructor
      · exact completes state _ task result stateHolds removed listed (subset listed) ready
      · rw [(answers_complete ..).1]
        exact fun _ member => subset (removed member)
    have same : state.pendingTasks.swapRemove n ++ [task] ⊆ state.pendingTasks := by
      intro other member
      rcases mem_append.mp member with old | new
      · exact removed old
      · exact mem_singleton.mp new ▸ listed
    exact ⟨fewer _ _ stateHolds same, fun _ member => subset (same member)⟩
  exact all.1

end Tasks

end MultiForkHandler

end SwissledgerFoundry.Forking
