import SwissledgerFoundry.Forking.MultiFork

/-!
# Environments of forks

A new fork of a known endpoint and block is a copy of the fork that carries the
plain name, with the environment that this one has by then.
-/

namespace SwissledgerFoundry.Forking

open List AList MultiForkHandler ForkId Transition

/-- A handler with what was asked for on each channel, and the forks whose
environment was updated. -/
structure Observed where
  handler : MultiForkHandler
  asked : List (Sender × CreateFork)
  updated : List ForkId

namespace Observed

def start : Observed where
  handler := .new
  asked := []
  updated := []

/-- The fork that a request asks for.  Rolling keeps the endpoint. -/
def asks (handler : MultiForkHandler) : HandlerEvent → List (Sender × CreateFork)
  | .request (.createFork fork sender) => [(sender, fork)]
  | .request (.rollFork forkId block sender) =>
    match handler.forks.lookup forkId with
    | some fork => [(sender, { fork.opts with forkBlockNumber := some block })]
    | none => []
  | _ => []

def updates (handler : MultiForkHandler) : HandlerEvent → List ForkId
  | .request (.updateBlock forkId _ _) => if forkId ∈ handler.forks then [forkId] else []
  | .request (.updateEnv forkId _) => if forkId ∈ handler.forks then [forkId] else []
  | _ => []

def step (provider : Provider) (observed : Observed) (event : HandlerEvent) : Observed where
  handler := observed.handler.step provider event
  asked := asks observed.handler event ++ observed.asked
  updated := updates observed.handler event ++ observed.updated

/-- No task completes for an endpoint and block after the fork with the plain
name was updated. -/
def Allowed (observed : Observed) (event : HandlerEvent) : Prop :=
  event.Open ∧
    match event with
    | .request _ => True
    | .poll outcome =>
      ∀ task ∈ observed.handler.pendingTasks, ∀ latest ∈ (outcome task.id).bind Except.toOption,
          new task.fork.url (some (task.fork.resolvedNumber latest)) ∉ observed.updated

instance (event : HandlerEvent) : Decidable event.Open := by
  unfold HandlerEvent.Open
  split <;> infer_instance

instance (observed : Observed) (event : HandlerEvent) : Decidable (observed.Allowed event) := by
  unfold Allowed
  split <;> infer_instance

end Observed

/-- A reply with the environment of the block that was asked for. -/
structure ForkReply.Resolves (reply : ForkReply) (provider : Provider)
    (fork : CreateFork) (block : ℕ) : Prop where
  requested : ∀ number ∈ fork.forkBlockNumber, block = number
  forkId : ∃ numbers, reply.forkId = numbered fork.url block numbers
  evmEnv : reply.evmEnv = provider.evmEnv fork.url block

/-- What holds of the handler while no changed environment is handed out. -/
structure Clean (provider : Provider) (asked : List (Sender × CreateFork))
    (updated : List ForkId) (handler : MultiForkHandler) : Prop where
  forks : ∀ {id fork}, handler.forks.lookup id = some fork →
    ∃ block numbers, id = numbered fork.opts.url block numbers ∧
      (id ∉ updated → fork.evmEnv = provider.evmEnv fork.opts.url block)
  tasks : ∀ task ∈ handler.pendingTasks, task.id = new task.fork.url task.fork.forkBlockNumber ∧
      ∀ sender ∈ task.senders, (sender, task.fork) ∈ asked
  sent : ∀ {sender reply}, (sender, .created (.ok reply)) ∈ handler.sent →
    reply.forkId ∈ handler.forks ∧
      ∃ fork block, (sender, fork) ∈ asked ∧ reply.Resolves provider fork block

variable {fork : CreatedFork}

namespace Clean

variable {provider : Provider} {asked : List (Sender × CreateFork)} {updated : List ForkId}
  {handler : MultiForkHandler}
  (clean : Clean provider asked updated handler)

include clean

theorem mono {asked' : List (Sender × CreateFork)} {updated' : List ForkId}
    (moreAsked : asked ⊆ asked') (moreUpdated : updated ⊆ updated') :
    Clean provider asked' updated' handler where
  forks found := by
    obtain ⟨block, numbers, name, environment⟩ := clean.forks found
    exact ⟨block, numbers, name, fun fresh => environment fun old => fresh (moreUpdated old)⟩
  tasks task member :=
    ⟨(clean.tasks task member).1, fun sender waiting =>
      moreAsked ((clean.tasks task member).2 sender waiting)⟩
  sent answered := by
    obtain ⟨tracked, fork, block, was, resolves⟩ := clean.sent answered
    exact ⟨tracked, fork, block, moreAsked was, resolves⟩

theorem withTasks {tasks : List ForkTask} (fewer : tasks ⊆ handler.pendingTasks) :
    Clean provider asked updated { handler with pendingTasks := tasks } where
  forks := clean.forks
  tasks task member := clean.tasks task (fewer member)
  sent := clean.sent

theorem withCounters (counters : List ℕ) :
    Clean provider asked updated { handler with counters := counters } where
  forks := clean.forks
  tasks := clean.tasks
  sent := clean.sent

variable {sender : Sender}

theorem send {answer : Answer} (noFork : ∀ reply, answer ≠ .created (.ok reply)) :
    Clean provider asked updated (handler.send sender answer) where
  forks := clean.forks
  tasks := clean.tasks
  sent {other reply} answered := by
    rcases mem_append.mp answered with old | new
    · exact clean.sent old
    · cases mem_singleton.mp new
      exact absurd rfl (noFork reply)

theorem track {block : ℕ} {numbers : List ℕ} {request : CreateFork}
    (was : (sender, request) ∈ asked)
    (requested : ∀ number ∈ request.forkBlockNumber, block = number)
    (sameUrl : fork.opts.url = request.url)
    (environment : fork.evmEnv = provider.evmEnv request.url block) :
    Clean provider asked updated
      (handler.track (numbered request.url block numbers) fork sender) where
  forks {id found} lookup := by
    by_cases same : id = numbered request.url block numbers
    · subst same
      cases (lookup_insert _).symm.trans lookup
      refine ⟨block, numbers, by rw [sameUrl], fun _ => ?_⟩
      rw [sameUrl]
      exact environment
    · exact clean.forks ((lookup_insert_ne same).symm.trans lookup)
  tasks := clean.tasks
  sent {other reply} answered := by
    rcases mem_append.mp answered with old | new
    · obtain ⟨tracked, rest⟩ := clean.sent old
      exact ⟨(mem_insert _).mpr (.inr tracked), rest⟩
    cases mem_singleton.mp new
    exact ⟨(mem_insert _).mpr (.inl rfl), request, block, was,
      { requested := requested, forkId := ⟨numbers, rfl⟩, evmEnv := environment }⟩

variable {task : ForkTask}

section

variable (was : ∀ sender ∈ task.senders, (sender, task.fork) ∈ asked)

include was

theorem insertNewFork {block : ℕ} {numbers : List ℕ}
    (requested : ∀ number ∈ task.fork.forkBlockNumber, block = number)
    (sameUrl : fork.opts.url = task.fork.url)
    (environment : fork.evmEnv = provider.evmEnv task.fork.url block) :
    Clean provider asked updated (handler.insertNewFork (numbered task.fork.url block numbers)
        fork task.sender task.additionalSenders) := by
  apply foldlRecOn (motive := Clean provider asked updated)
  · exact clean.track (was _ mem_cons_self) requested sameUrl environment
  intro state holds sender member
  unfold trackNext incSenders
  dsimp only
  rw [append_numbered]
  exact (holds.withCounters _).track (was sender (mem_cons_of_mem _ member)) requested sameUrl
    environment

/-- A task completes whose plain name was not updated. -/
theorem complete {result : Except String ℕ} (unchanged : ∀ latest ∈ result.toOption,
      new task.fork.url (some (task.fork.resolvedNumber latest)) ∉ updated) :
    Clean provider asked updated (handler.complete provider task result) := by
  cases result with
  | error error =>
    apply foldlRecOn (motive := Clean provider asked updated)
    · exact clean
    intro state holds sender _
    exact holds.send nofun
  | ok latest =>
    have plain := unchanged latest rfl
    have requested : ∀ number ∈ task.fork.forkBlockNumber,
        task.fork.resolvedNumber latest = number := by
      intro number asked
      rw [CreateFork.resolvedNumber, asked]
      rfl
    unfold MultiForkHandler.complete
    dsimp only
    split
    · rename_i fork found
      -- the environment is that of the fork with the plain name
      obtain ⟨block, numbers, name, environment⟩ := clean.forks found
      rw [← numbered_nil] at name
      obtain ⟨sameUrl, rfl, rfl⟩ := numbered_inj name
      have resolved := environment plain
      rw [← sameUrl] at resolved
      unfold incSenders
      dsimp only
      rw [← numbered_nil, append_numbered]
      exact ((clean.withCounters _).withCounters _).insertNewFork was
        requested sameUrl.symm resolved
    · rw [← numbered_nil]
      exact (clean.withCounters _).insertNewFork was requested rfl rfl

end

theorem poll {outcome : ForkId → Option (Except String ℕ)}
    (unchanged : ∀ task ∈ handler.pendingTasks, ∀ latest ∈ (outcome task.id).bind Except.toOption,
        new task.fork.url (some (task.fork.resolvedNumber latest)) ∉ updated) :
    Clean provider asked updated (handler.poll provider outcome) := by
  apply poll_invariant provider outcome (Clean provider asked updated)
  · intro state tasks holds fewer
    exact holds.withTasks fewer
  · intro state tasks task result holds fewer listed pending ready
    apply (holds.withTasks fewer).complete (holds.tasks task listed).2
    intro latest found
    apply unchanged task pending
    rw [ready]
    exact found
  · exact clean

theorem createFork {fork : CreateFork} (was : (sender, fork) ∈ asked) :
    Clean provider asked updated (handler.createFork fork sender) := by
  obtain ⟨sameForks, _, sameSent⟩ := createFork_forks handler fork sender
  refine { forks := ?_, tasks := ?_, sent := ?_ }
  · intro id found lookup
    rw [sameForks] at lookup
    exact clean.forks lookup
  · intro task member
    rcases mem_createFork member with old | ⟨old, listed, sameId, rfl⟩ | rfl
    · exact clean.tasks task old
    · obtain ⟨name, asked⟩ := clean.tasks old listed
      obtain ⟨sameUrl, sameBlock⟩ := new_inj (name.symm.trans sameId)
      have sameFork : old.fork = fork := by
        cases oldFork : old.fork
        rw [oldFork] at sameUrl sameBlock
        cases sameUrl
        cases sameBlock
        rfl
      refine ⟨name, fun other waiting => ?_⟩
      rcases mem_cons.mp waiting with rfl | additional
      · exact asked _ mem_cons_self
      rcases mem_append.mp additional with before | joined
      · exact asked other (mem_cons_of_mem _ before)
      · rw [mem_singleton.mp joined]
        exact sameFork ▸ was
    refine ⟨rfl, fun other waiting => ?_⟩
    rw [mem_singleton.mp waiting]
    exact was
  intro other reply answered
  rw [sameSent] at answered
  rw [sameForks]
  exact clean.sent answered

theorem update {id : ForkId} (found : handler.forks.lookup id = some fork) (marked : id ∈ updated)
    (env : EvmEnv) :
    Clean provider asked updated
      { handler with forks := handler.forks.insert id { fork with evmEnv := env } } where
  forks {other entry} lookup := by
    by_cases same : other = id
    · subst same
      cases (lookup_insert _).symm.trans lookup
      obtain ⟨block, numbers, name, _⟩ := clean.forks found
      exact ⟨block, numbers, name, fun fresh => absurd marked fresh⟩
    · exact clean.forks ((lookup_insert_ne same).symm.trans lookup)
  tasks := clean.tasks
  sent answered := by
    obtain ⟨tracked, rest⟩ := clean.sent answered
    exact ⟨(mem_insert _).mpr (.inr tracked), rest⟩

end Clean

namespace Observed

variable {provider : Provider} {observed : Observed}

theorem mem_forks {forkId : ForkId} {handler : MultiForkHandler}
    (found : handler.forks.lookup forkId = some fork) :
    forkId ∈ handler.forks :=
  lookup_isSome.mp (Option.isSome_of_mem found)

theorem mem_updates {event : HandlerEvent} {forkId : ForkId}
    (updates : updates observed.handler event = [forkId]) :
    forkId ∈ (observed.step provider event).updated := by
  apply mem_append_left
  rw [updates]
  exact mem_cons_self

theorem clean_step {event : HandlerEvent}
    (clean : Clean provider observed.asked observed.updated observed.handler)
    (allowed : observed.Allowed event) :
    Clean provider (observed.step provider event).asked (observed.step provider event).updated
      (observed.step provider event).handler := by
  have more : Clean provider (observed.step provider event).asked
      (observed.step provider event).updated observed.handler :=
    clean.mono (subset_append_right _ _) (subset_append_right _ _)
  cases event with
  | poll outcome => exact clean.poll allowed.2
  | request request =>
    cases request with
    | createFork fork sender => exact more.createFork mem_cons_self
    | rollFork forkId block sender =>
      show Clean provider _ _ (observed.handler.onRequest (.rollFork forkId block sender))
      unfold onRequest
      dsimp only
      split
      · rename_i fork found
        apply more.createFork
        apply mem_append_left
        rw [asks, found]
        exact mem_cons_self
      · exact more.send nofun
    | updateBlock forkId number timestamp =>
      show Clean provider _ _ (observed.handler.updateBlock forkId number timestamp)
      unfold updateBlock
      split
      · exact more
      rename_i fork found
      apply more.update found
      exact mem_updates (if_pos (mem_forks found))
    | updateEnv forkId env =>
      show Clean provider _ _ (observed.handler.updateEnv forkId env)
      unfold updateEnv
      split
      · exact more
      rename_i fork found
      apply more.update found
      exact mem_updates (if_pos (mem_forks found))
    | shutDown sender => exact allowed.1.elim
    | _ => exact more.send nofun

/-- In a run in which no plain name is updated before a task for it completes,
each fork is returned with the environment that was resolved for it, and keeps
it until it is updated itself. -/
theorem run_returns_resolved (provider : Provider) (events : List HandlerEvent)
    (meets : Transition.Along (step provider) Allowed start events)
    (reached : List HandlerEvent) (isPrefix : reached <+: events)
    (sender : Sender) (reply : ForkReply)
    (answered : (sender, .created (.ok reply)) ∈ (run (step provider) start reached).handler.sent) :
    ∃ fork block, (sender, fork) ∈ (run (step provider) start reached).asked ∧
      (∀ number ∈ fork.forkBlockNumber, block = number) ∧
      reply.evmEnv = provider.evmEnv fork.url block ∧
      ((run (step provider) start reached).handler.forks.lookup
        reply.forkId).map (·.opts.url) = some fork.url ∧
      (reply.forkId ∉ (run (step provider) start reached).updated →
        (run (step provider) start reached).handler.getEvmEnv
          reply.forkId = some (provider.evmEnv fork.url block)) := by
  have initial : Clean provider start.asked start.updated start.handler :=
    { forks := fun found => by cases found
      tasks := fun _ member => by cases member
      sent := fun answered => by cases answered }
  have clean := invariant_along
    (fun observed => Clean provider observed.asked observed.updated observed.handler)
    (fun _ _ holds allowed => clean_step holds allowed) initial meets reached
    isPrefix
  generalize run (step provider) start reached = observed at answered clean ⊢
  obtain ⟨tracked, fork, block, was, resolves⟩ := clean.sent answered
  obtain ⟨created, found⟩ := Option.isSome_iff_exists.mp (lookup_isSome.mpr tracked)
  obtain ⟨numbers, name⟩ := resolves.forkId
  obtain ⟨_, _, createdName, environment⟩ := clean.forks found
  obtain ⟨sameUrl, rfl, _⟩ := numbered_inj (createdName.symm.trans name)
  refine ⟨fork, _, was, resolves.requested, resolves.evmEnv, ?_, ?_⟩
  · rw [found, Option.map_some, sameUrl]
  · intro unchanged
    rw [getEvmEnv, found, Option.map_some, environment unchanged, sameUrl]

/-- Each block has the environment with its number. -/
def plainProvider : Provider where
  evmEnv _ block :=
    { chainId := 1, cfg := [], blockEnv := { number := block, timestamp := 0, rest := [] } }
  remote _ _ := .empty fun _ => 0

def plainFork : CreateFork where
  url := ['u']
  forkBlockNumber := some 1

def allReady : HandlerEvent := .poll fun _ => some (.ok 7)

/-- The second fork of a block is updated, and the third one is resolved as
the first one was. -/
def updateSecond : List HandlerEvent :=
  [.request (.createFork plainFork 0), .request (.createFork plainFork 1),
    allReady, .request (.updateBlock (.numbered ['u'] 1 [1]) 999 5),
    .request (.createFork plainFork 2), allReady]

theorem run_returns_resolved_third_fork : ∃ reply : ForkReply, (run (step plainProvider) start
        updateSecond).handler.sent[2]? = some (2, .created (.ok reply)) ∧
      ∃ fork block, (2, fork) ∈ (run (step plainProvider) start updateSecond).asked ∧
        (∀ number ∈ fork.forkBlockNumber, block = number) ∧
        reply.evmEnv = plainProvider.evmEnv fork.url block ∧
        ((run (step plainProvider) start
          updateSecond).handler.forks.lookup reply.forkId).map (·.opts.url) = some fork.url ∧
        (reply.forkId ∉ (run (step plainProvider) start updateSecond).updated →
          (run (step plainProvider) start updateSecond).handler.getEvmEnv reply.forkId =
              some (plainProvider.evmEnv fork.url block)) := by
  refine ⟨_, rfl, run_returns_resolved plainProvider updateSecond ?_
    updateSecond (prefix_refl _) 2 _ (mem_of_getElem? (i := 2) rfl)⟩
  decide +kernel

/-- The first fork of a block is updated: the next one starts with the number
that was set for the first one. -/
theorem run_returns_updated : ∃ observed reply, run (step plainProvider) start
        [.request (.createFork plainFork 0), allReady,
          .request (.updateBlock (.new ['u'] (some 1)) 999 5),
          .request (.createFork plainFork 1), allReady] = observed ∧
      observed.handler.sent[1]? = some (1, .created (.ok reply)) ∧
      (1, plainFork) ∈ observed.asked ∧
      reply.forkId ∉ observed.updated ∧
      reply.evmEnv.blockEnv.number = 999 ∧
      (plainProvider.evmEnv ['u'] 1).blockEnv.number = 1 := by
  refine ⟨_, _, rfl, rfl, ?_, ?_, rfl, rfl⟩ <;> decide +kernel

end Observed

end SwissledgerFoundry.Forking
