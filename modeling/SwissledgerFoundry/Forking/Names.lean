import SwissledgerFoundry.Forking.MultiFork

/-!
# No name is returned twice

All forks of an endpoint and block take their numbers from the counter of the
fork with the plain name.
-/

namespace SwissledgerFoundry.Forking

open Option Nat List AList MultiForkHandler ForkId

variable {id : ForkId}

namespace MultiForkHandler

/-- The forks that were returned, in the order of the answers. -/
def replies (handler : MultiForkHandler) : List ForkReply :=
  handler.sent.filterMap fun entry =>
    match entry.2 with
    | .created (.ok reply) => some reply
    | _ => none

/-- The counter that a tracked fork shares. -/
def counterOf (handler : MultiForkHandler) (id : ForkId) : Option ℕ :=
  (handler.forks.lookup id).map CreatedFork.numSenders

theorem counterOf_isSome {handler : MultiForkHandler} :
    (handler.counterOf id).isSome ↔ id ∈ handler.forks := by
  rw [counterOf, isSome_map, lookup_isSome]

variable (handler : MultiForkHandler)

theorem replies_send {answer : Answer} (sender : Sender)
    (noFork : ∀ reply, answer ≠ .created (.ok reply)) :
    (handler.send sender answer).replies = handler.replies := by
  unfold replies send
  rw [filterMap_append]
  have none : [(sender, answer)].filterMap (fun entry =>
      match entry.2 with
      | .created (.ok reply) => some reply
      | _ => none) = [] := by
    cases answer with
    | created result =>
      cases result with
      | ok reply => exact absurd rfl (noFork reply)
      | error error => rfl
    | _ => rfl
  rw [none, append_nil]

theorem replies_track (id : ForkId) (fork : CreatedFork) (sender : Sender) :
    (handler.track id fork sender).replies =
      handler.replies ++ [{ forkId := id, remote := fork.backend, evmEnv := fork.evmEnv }] :=
  filterMap_append

theorem counterOf_track_self (id : ForkId) (fork : CreatedFork) (sender : Sender) :
    (handler.track id fork sender).counterOf id = some fork.numSenders := by
  show ((handler.forks.insert id fork).lookup id).map _ = _
  rw [lookup_insert, map_some]

theorem counterOf_track_ne {other : ForkId} {handler : MultiForkHandler}
    (different : other ≠ id) (fork : CreatedFork) (sender : Sender) :
    (handler.track id fork sender).counterOf other = handler.counterOf other :=
  congrArg (Option.map CreatedFork.numSenders) (lookup_insert_ne different)

theorem count_incSenders (fork : CreatedFork) (id : ForkId) (counter : ℕ) :
    (handler.incSenders fork id).1.count counter =
      if counter = fork.numSenders ∧ counter < handler.counters.length then
        handler.count counter + 1
      else handler.count counter := by
  unfold incSenders count
  rw [getD_eq_getElem?_getD, getElem?_set]
  by_cases same : fork.numSenders = counter
  · subst same
    by_cases bound : fork.numSenders < handler.counters.length
    · simp [bound]
    · simp [bound]
  have different : ¬(counter = fork.numSenders ∧ counter < handler.counters.length) :=
    fun both => same both.1.symm
  rw [if_neg same, if_neg different, getD_eq_getElem?_getD]

end MultiForkHandler

/-- The names of the tracked forks.  The counters stay below the number of
tracked forks, up to the slack, so they do not wrap around. -/
structure Named (slack : ℕ) (handler : MultiForkHandler) : Prop where
  forks : ∀ {id counter}, handler.counterOf id = some counter →
    ∃ url block numbers, id = ForkId.numbered url block numbers ∧
      handler.counterOf (.numbered url block []) = some counter ∧
      counter < handler.counters.length ∧
      ∀ number ∈ numbers, number < handler.count counter
  replies : ∀ reply ∈ handler.replies, reply.forkId ∈ handler.forks
  nodup : (handler.replies.map ForkReply.forkId).Nodup
  bounded : ∀ counter, handler.count counter ≤ handler.forks.size + slack

namespace Named

variable {handler : MultiForkHandler}

variable {slack : ℕ}

/-- Only what is tracked, counted and returned matters. -/
theorem congr (named : Named slack handler) {after : MultiForkHandler}
    (sameCounters : after.counters = handler.counters)
    (sameForks : ∀ id, after.counterOf id = handler.counterOf id)
    (sameReplies : after.replies = handler.replies)
    (sameSize : after.forks.size = handler.forks.size) :
    Named slack after := by
  have sameCount : ∀ counter, after.count counter = handler.count counter :=
    fun counter => congrArg (getD · counter 0) sameCounters
  refine { forks := ?_, replies := ?_, nodup := ?_, bounded := ?_ }
  · intro id counter found
    rw [sameForks] at found
    obtain ⟨url, block, numbers, name, plain, bound, below⟩ := named.forks found
    refine ⟨url, block, numbers, name, (sameForks _).trans plain, ?_, ?_⟩
    · rw [sameCounters]
      exact bound
    · rw [sameCount]
      exact below
  · intro reply member
    rw [sameReplies] at member
    rw [← counterOf_isSome, sameForks, counterOf_isSome]
    exact named.replies reply member
  · rw [sameReplies]
    exact named.nodup
  intro counter
  rw [sameCount, sameSize]
  exact named.bounded counter

theorem send {answer : Answer} (named : Named slack handler) (sender : Sender)
    (noFork : ∀ reply, answer ≠ .created (.ok reply)) :
    Named slack (handler.send sender answer) :=
  named.congr rfl (fun _ => rfl) (replies_send handler sender noFork) rfl

variable {url : List Char} {block : ℕ} {fork : CreatedFork} {numbers : List ℕ}

theorem track (named : Named 1 handler) (fresh : numbered url block numbers ∉ handler.forks)
    (plain : numbers = [] ∨ handler.counterOf (.numbered url block []) = some fork.numSenders)
    (bound : fork.numSenders < handler.counters.length)
    (below : ∀ number ∈ numbers, number < handler.count fork.numSenders)
    (sender : Sender) :
    Named 0 (handler.track (numbered url block numbers) fork sender) := by
  have old : ∀ {other}, (handler.counterOf other).isSome → other ≠ numbered url block numbers := by
    rintro other tracked rfl
    exact fresh (counterOf_isSome.mp tracked)
  refine { forks := ?_, replies := ?_, nodup := ?_, bounded := ?_ }
  · intro id counter found
    by_cases same : id = numbered url block numbers
    · subst same
      rw [counterOf_track_self] at found
      cases found
      refine ⟨url, block, numbers, rfl, ?_, bound, below⟩
      rcases plain with rfl | known
      · exact counterOf_track_self ..
      · rw [counterOf_track_ne (old (isSome_of_mem known))]
        exact known
    rw [counterOf_track_ne same] at found
    obtain ⟨url', block', numbers', name, known, rest⟩ := named.forks found
    refine ⟨url', block', numbers', name, ?_, rest⟩
    rw [counterOf_track_ne (old (isSome_of_mem known))]
    exact known
  · intro reply member
    rw [replies_track] at member
    rcases mem_append.mp member with before | now
    · exact (mem_insert _).mpr (.inr (named.replies reply before))
    · cases mem_singleton.mp now
      exact (mem_insert _).mpr (.inl rfl)
  · rw [replies_track, map_append, nodup_append]
    refine ⟨named.nodup, nodup_singleton _, ?_⟩
    rintro id before other now rfl
    obtain ⟨reply, member, rfl⟩ := mem_map.mp before
    have same : reply.forkId = numbered url block numbers := mem_singleton.mp now
    exact fresh (same ▸ named.replies reply member)
  · intro counter
    exact (named.bounded counter).trans (size_insert fork fresh).ge

theorem notMem_of_drawn {counter : ℕ} (named : Named slack handler)
    (plain : handler.counterOf (.numbered url block []) = some counter)
    (numbers : List ℕ) :
    numbered url block (numbers ++ [handler.count counter]) ∉ handler.forks := by
  intro tracked
  obtain ⟨other, found⟩ := isSome_iff_exists.mp (counterOf_isSome.mpr tracked)
  obtain ⟨url', block', numbers', name, known, _, below⟩ := named.forks found
  obtain ⟨rfl, rfl, rfl⟩ := numbered_inj name
  cases plain.symm.trans known
  exact lt_irrefl _ (below _ (mem_append_right _ mem_cons_self))

section

variable (named : Named 0 handler)

include named

theorem incSenders (fork : CreatedFork) (id : ForkId) : Named 1 (handler.incSenders fork id).1 := by
  have grows : ∀ counter, handler.count counter ≤ (handler.incSenders fork id).1.count counter := by
    intro counter
    rw [count_incSenders]
    split
    · exact le_succ _
    · exact le_rfl
  refine { forks := ?_, replies := named.replies, nodup := named.nodup, bounded := ?_ }
  · intro other counter found
    obtain ⟨url, block, numbers, name, known, bound, below⟩ := named.forks found
    refine ⟨url, block, numbers, name, known, ?_, ?_⟩
    · exact (length_set ..).symm ▸ bound
    · intro number member
      exact (below number member).trans_le (grows counter)
  intro counter
  have before := named.bounded counter
  show _ ≤ handler.forks.size + 1
  rw [count_incSenders]
  split
  · omega
  · omega

theorem trackNext (tracked : handler.counterOf (.numbered url block numbers) = some fork.numSenders)
    (sender : Sender) :
    Named 0 (handler.trackNext (.numbered url block numbers) fork sender) ∧
      ∀ id counter, handler.counterOf id = some counter →
        (handler.trackNext (.numbered url block numbers) fork
          sender).counterOf id = some counter := by
  obtain ⟨url', block', numbers', name, plain, bound, below⟩ := named.forks tracked
  obtain ⟨rfl, rfl, rfl⟩ := numbered_inj name
  have fresh := named.notMem_of_drawn plain numbers
  unfold MultiForkHandler.trackNext
  dsimp only
  have drawn : (handler.incSenders fork (.numbered url block numbers)).2 = .numbered url block
        (numbers ++ [handler.count fork.numSenders]) :=
    append_numbered ..
  rw [drawn]
  constructor
  · apply (named.incSenders fork _).track fresh (.inr plain)
    · exact (length_set ..).symm ▸ bound
    · intro number member
      rw [count_incSenders, if_pos ⟨rfl, bound⟩]
      rcases mem_append.mp member with old | new
      · exact (below number old).trans (lt_succ_self _)
      · rw [mem_singleton.mp new]
        exact lt_succ_self _
  intro id counter found
  rw [counterOf_track_ne]
  · exact found
  · rintro rfl
    exact fresh (counterOf_isSome.mp (isSome_of_mem found))

theorem foldl_trackNext
    (tracked : handler.counterOf (.numbered url block numbers) = some fork.numSenders)
    (senders : List Sender) :
    Named 0 (senders.foldl (MultiForkHandler.trackNext (.numbered url block numbers) fork)
      handler) := by
  have all := List.foldlRecOn (motive := fun state : MultiForkHandler =>
    Named 0 state ∧ state.counterOf (.numbered url block numbers) = some fork.numSenders) senders
    (MultiForkHandler.trackNext (.numbered url block numbers) fork)
    (b := handler) ⟨named, tracked⟩ ?_
  · exact all.1
  rintro state ⟨holds, known⟩ sender _
  obtain ⟨next, kept⟩ := holds.trackNext known sender
  exact ⟨next, kept _ _ known⟩

theorem establish (room : 1 ≤ handler.forks.size + slack) (provider : Provider)
    (fork : CreateFork) (number : ℕ) :
    Named slack (handler.establish provider fork number).1 := by
  have sameCount : ∀ counter < handler.counters.length,
      (handler.establish provider fork number).1.count counter = handler.count counter := by
    intro counter bound
    unfold MultiForkHandler.establish MultiForkHandler.count
    rw [getD_eq_getElem?_getD, getElem?_append_left bound, getD_eq_getElem?_getD]
  refine { forks := ?_, replies := named.replies, nodup := named.nodup, bounded := ?_ }
  · intro id counter found
    obtain ⟨url, block, numbers, name, known, bound, below⟩ := named.forks found
    refine ⟨url, block, numbers, name, known, ?_, ?_⟩
    · exact length_append.symm ▸ lt_succ_of_lt bound
    · rw [sameCount counter bound]
      exact below
  intro counter
  by_cases bound : counter < handler.counters.length
  · rw [sameCount counter bound]
    exact (named.bounded counter).trans (le_add_right _ _)
  have atMostOne : (handler.establish provider fork number).1.count counter ≤ 1 := by
    unfold MultiForkHandler.establish MultiForkHandler.count
    rw [getD_eq_getElem?_getD, getElem?_append_right (not_lt.mp bound)]
    cases counter - handler.counters.length with
    | zero => rfl
    | succ beyond => exact zero_le 1
  exact atMostOne.trans room

theorem complete (provider : Provider) (task : ForkTask) (result : Except String ℕ) :
    Named 0 (handler.complete provider task result) := by
  cases result with
  | error error =>
    apply List.foldlRecOn (motive := Named 0)
    · exact named
    intro state holds sender _
    exact holds.send sender nofun
  | ok latest =>
    unfold MultiForkHandler.complete
    dsimp only
    rw [← numbered_nil]
    split
    · rename_i fork found
      have nonempty : 1 ≤ handler.forks.size + 0 := length_pos_of_mem (mem_lookup_iff.mp found)
      have established := named.establish nonempty provider task.fork
        (task.fork.resolvedNumber latest)
      have tracked : (handler.establish provider task.fork
          (task.fork.resolvedNumber latest)).1.counterOf (.numbered
            task.fork.url (task.fork.resolvedNumber latest) []) =
          some fork.numSenders :=
        congrArg (Option.map CreatedFork.numSenders) found
      obtain ⟨next, _⟩ := established.trackNext tracked task.sender
      have drawn := append_numbered task.fork.url (task.fork.resolvedNumber latest) []
        ((handler.establish provider task.fork
          (task.fork.resolvedNumber latest)).1.count fork.numSenders)
      unfold MultiForkHandler.trackNext at next
      unfold MultiForkHandler.incSenders at next ⊢
      dsimp only at next ⊢
      rw [drawn] at next ⊢
      apply next.foldl_trackNext
      exact counterOf_track_self ..
    rename_i missing
    have established : Named 1 (handler.establish provider task.fork
        (task.fork.resolvedNumber latest)).1 :=
      named.establish (le_add_left _ _) provider task.fork _
    refine foldl_trackNext ?_ (counterOf_track_self ..) _
    apply established.track (lookup_eq_none.mp missing) (.inl rfl)
    · exact length_append.symm ▸ lt_succ_self _
    · nofun

end

theorem createFork (named : Named slack handler) (fork : CreateFork)
    (sender : Sender) : Named slack (handler.createFork fork sender) := by
  obtain ⟨sameForks, sameCounters, sameSent⟩ := createFork_forks handler fork sender
  apply named.congr sameCounters
  · intro id
    rw [counterOf, sameForks, counterOf]
  · exact congrArg (filterMap _) sameSent
  · rw [sameForks]

theorem update (named : Named slack handler)
    (found : handler.forks.lookup id = some fork) (env : EvmEnv) :
    Named slack
      { handler with
        forks := handler.forks.insert id { fork with evmEnv := env } } := by
  apply Named.congr named
  · rfl
  · intro other
    by_cases same : other = id
    · subst same
      show ((handler.forks.insert _ _).lookup _).map _ = _
      simp [lookup_insert, counterOf, found]
    · exact congrArg (Option.map CreatedFork.numSenders) (lookup_insert_ne same)
  · rfl
  · exact size_erase (lookup_isSome.mp (isSome_of_mem found))

theorem step (named : Named 0 handler) (provider : Provider)
    {event : HandlerEvent} (isOpen : event.Open) :
    Named 0 (handler.step provider event) := by
  cases event with
  | poll outcome =>
    apply poll_invariant provider outcome (Named 0)
    · intro state tasks holds _
      exact holds.congr rfl (fun _ => rfl) rfl rfl
    · intro state tasks task result holds _ _ _ _
      apply Named.complete
      exact holds.congr rfl (fun _ => rfl) rfl rfl
    · exact named
  | request request =>
    cases request with
    | createFork fork sender => exact named.createFork fork sender
    | rollFork forkId block sender =>
      show Named 0 (handler.onRequest (.rollFork forkId block sender))
      unfold onRequest
      dsimp only
      split
      · exact named.createFork _ sender
      exact named.send _ nofun
    | updateBlock forkId number timestamp =>
      show Named 0 (handler.updateBlock forkId number timestamp)
      unfold updateBlock
      split
      · exact named
      · rename_i fork found
        exact named.update found _
    | updateEnv forkId env =>
      show Named 0 (handler.updateEnv forkId env)
      unfold updateEnv
      split
      · exact named
      · rename_i fork found
        exact named.update found _
    | shutDown sender => exact isOpen.elim
    | _ => exact named.send _ nofun

end Named

namespace MultiForkHandler

variable (provider : Provider)

theorem step_sent (handler : MultiForkHandler) (event : HandlerEvent) :
    handler.sent <+: (handler.step provider event).sent := by
  have created : ∀ fork sender, handler.sent <+: (handler.createFork fork sender).sent := by
    intro fork sender
    rw [(createFork_forks handler fork sender).2.2]
  cases event with
  | poll outcome =>
    apply poll_invariant provider outcome (fun state => handler.sent <+: state.sent)
    · intro state tasks holds _
      exact holds
    · intro state tasks task result holds _ _ _ _
      exact holds.trans
        (answers_complete provider { state with pendingTasks := tasks } task result).2
    · exact prefix_refl _
  | request request =>
    show _ <+: (handler.onRequest request).sent
    unfold onRequest
    split
    · exact created _ _
    · exact prefix_append _ _
    · split
      · exact created _ _
      · exact prefix_append _ _
    · exact prefix_append _ _
    · unfold updateBlock
      split
      · exact prefix_refl _
      · exact prefix_refl _
    · unfold updateEnv
      split
      · exact prefix_refl _
      · exact prefix_refl _
    · exact prefix_append _ _
    · exact prefix_append _ _

end MultiForkHandler

end SwissledgerFoundry.Forking
