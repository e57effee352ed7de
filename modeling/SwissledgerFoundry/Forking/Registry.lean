import SwissledgerFoundry.Forking.Isolation
import SwissledgerFoundry.Forking.Names
import SwissledgerFoundry.Forking.Snapshots

/-!
# Local ids and the list of forks

A local id names a fork of the handler, and this name an index of the list of
forks.  The index determines the local id: rolling a fork or reverting to a
snapshot of it keeps its index.
-/

namespace SwissledgerFoundry.Forking

open Option Nat Transition List AList Backend Session Observed

def BackendInner.index (inner : BackendInner) (id : LocalForkId) : Option ℕ :=
  (inner.issuedLocalForkIds.lookup id).bind fun forkId => inner.createdForks.lookup forkId

/-- `Backend::new` with a fork, which is the active one. -/
def Backend.launch (backend : Backend) (reply : ForkReply) : Backend :=
  let (inner, id, idx) := backend.inner.insertNewFork reply.forkId (.new reply.remote) .new
  { backend with
    envs := backend.envs.insert reply.forkId reply.evmEnv
    inner := inner
    activeForkIds := some (id, idx) }

def localId (idx : ℕ) : LocalForkId := BitVec.ofNat 256 idx

/-- The maps of the backend agree with its list of forks. -/
structure Registered (used : ForkId → Prop) (backend : Backend) : Prop where
  held : ∀ entry ∈ backend.inner.shape, entry = true
  next : backend.inner.nextForkId = localId backend.inner.shape.length
  created : ∀ {forkId idx}, backend.inner.createdForks.lookup forkId = some idx →
      idx < backend.inner.shape.length ∧ used forkId
  issued : ∀ {id forkId}, backend.inner.issuedLocalForkIds.lookup id = some forkId →
      ∃ idx, backend.inner.createdForks.lookup forkId = some idx ∧ localId idx = id
  active : ∀ {id idx}, backend.activeForkIds = some (id, idx) →
    idx < backend.inner.shape.length ∧ localId idx = id ∧ id ∈ backend.inner.issuedLocalForkIds
  snapshots : ∀ {number snapshot id forkId idx fork},
    backend.inner.stateSnapshots.stateSnapshots.lookup number =
      some snapshot → snapshot.db = .forked id forkId idx fork →
    idx < backend.inner.shape.length ∧ localId idx = id ∧
      ∃ current, backend.inner.createdForks.lookup forkId = some current ∧ localId current = id

theorem shape_length (inner : BackendInner) : inner.shape.length = inner.forks.length :=
  length_map _

variable {id : LocalForkId} {inner : BackendInner} {idx : ℕ}

theorem index_eq_some : inner.index id = some idx ↔
      ∃ forkId, inner.issuedLocalForkIds.lookup id = some forkId ∧
        inner.createdForks.lookup forkId = some idx :=
  bind_eq_some_iff

variable {reply : ForkReply}

theorem rollFork_shape {after : BackendInner} (rolls : inner.rollFork id reply = .ok after) :
    after.shape = inner.shape := by
  obtain ⟨_, _, _, _, _, held, rfl⟩ := rollFork_eq_ok rolls
  rw [BackendInner.shape, map_set, isSome_map]
  apply set_of_getElem?
  rw [getElem?_map, held, map_some]

namespace Registered

variable {used : ForkId → Prop} {backend after : Backend}

section

variable (registered : Registered used backend)

include registered

theorem getFork (same : inner.shape = backend.inner.shape)
    (bound : idx < backend.inner.shape.length) : ∃ fork, inner.getFork idx = some fork := by
  apply shape_eq_true.mp
  rw [same, getElem?_eq_getElem bound, registered.held _ (getElem_mem bound)]

theorem resolved (resolved : backend.inner.index id = some idx) :
    idx < backend.inner.shape.length ∧ localId idx = id ∧
      id ∈ backend.inner.issuedLocalForkIds := by
  obtain ⟨forkId, issued, created⟩ := index_eq_some.mp resolved
  obtain ⟨current, known, named⟩ := registered.issued issued
  cases created.symm.trans known
  exact ⟨(registered.created created).1, named, lookup_isSome.mp (isSome_of_mem issued)⟩

/-- Only the names and which entries hold a fork matter. -/
theorem keeps (keeps : Keeps backend.inner after.inner)
    (active : ∀ {id idx}, after.activeForkIds = some (id, idx) →
      idx < backend.inner.shape.length ∧ localId idx = id ∧ id ∈ backend.inner.issuedLocalForkIds) :
    Registered used after := by
  constructor <;>
    simp only [keeps.issuedLocalForkIds, keeps.createdForks, keeps.shape, keeps.nextForkId,
      keeps.stateSnapshots]
  exacts [registered.held, registered.next, registered.created, registered.issued, active,
    registered.snapshots]

/-- A fork gets a name.  If another local id could own that name, it is the
same one. -/
theorem register {used' : ForkId → Prop} {forkId : ForkId}
    (more : ∀ other, used other → used' other) (usedNow : used' forkId)
    (named : localId idx = id)
    (agrees : ∀ current,
      backend.inner.createdForks.lookup forkId = some current → localId current = id)
    (issued : after.inner.issuedLocalForkIds = backend.inner.issuedLocalForkIds.insert id forkId)
    (created : after.inner.createdForks = backend.inner.createdForks.insert forkId idx)
    (held : ∀ entry ∈ after.inner.shape, entry = true)
    (longer : backend.inner.shape.length ≤ after.inner.shape.length)
    (bound : idx < after.inner.shape.length)
    (next : after.inner.nextForkId = localId after.inner.shape.length)
    (snapshots : ∀ {number snapshot},
      after.inner.stateSnapshots.stateSnapshots.lookup number = some snapshot →
      backend.inner.stateSnapshots.stateSnapshots.lookup number = some snapshot)
    (active : ∀ {other otherIdx}, after.activeForkIds = some (other, otherIdx) →
        (other = id ∧ otherIdx = idx) ∨ backend.activeForkIds = some (other, otherIdx)) :
    Registered used' after := by
  -- a name keeps an index of its owner
  have owner : ∀ {name current other}, backend.inner.createdForks.lookup name = some current →
        localId current = other →
          ∃ now, after.inner.createdForks.lookup name = some now ∧ localId now = other := by
    intro name current other found same
    rw [created, lookup_insert_eq]
    split
    · rename_i isName
      rw [isName] at found
      exact ⟨idx, rfl, named.trans ((agrees current found).symm.trans same)⟩
    · exact ⟨current, found, same⟩
  refine { held := held, next := next, created := ?_, issued := ?_, active := ?_, snapshots := ?_ }
  · intro name current found
    rw [created] at found
    obtain ⟨rfl, rfl⟩ | ⟨_, found⟩ := lookup_of_insert found
    · exact ⟨bound, usedNow⟩
    · obtain ⟨small, was⟩ := registered.created found
      exact ⟨small.trans_le longer, more name was⟩
  · intro other name found
    rw [issued] at found
    obtain ⟨rfl, rfl⟩ | ⟨_, found⟩ := lookup_of_insert found
    · rw [created]
      exact ⟨idx, lookup_insert _, named⟩
    · obtain ⟨current, known, same⟩ := registered.issued found
      exact owner known same
  · intro other otherIdx found
    rw [issued]
    rcases active found with ⟨rfl, rfl⟩ | before
    · exact ⟨bound, named, (mem_insert _).mpr (.inl rfl)⟩
    · obtain ⟨small, same, listed⟩ := registered.active before
      exact ⟨small.trans_le longer, same, (mem_insert _).mpr (.inr listed)⟩
  intro number snapshot other name otherIdx fork found taken
  obtain ⟨small, same, current, known, owned⟩ := registered.snapshots (snapshots found) taken
  exact ⟨small.trans_le longer, same, owner known owned⟩

end

structure Receives (used used' : ForkId → Prop) (forkId : ForkId) : Prop where
  more : ∀ other, used other → used' other
  usedNow : used' forkId
  fresh : ¬used forkId

section Operations

variable {used' : ForkId → Prop} {session : Session}

section

variable (registered : Registered used backend)

include registered

theorem setDatabase (db : CacheDb) : Registered used (backend.setDatabase db) := by
  unfold Backend.setDatabase
  split
  · exact registered.keeps (.refl _) registered.active
  split
  · exact registered
  · rename_i fork found
    exact registered.keeps (keeps_setFork found _) registered.active

theorem insertNewFork {forkId : ForkId} {ids : Option (LocalForkId × ℕ)}
    {newEnvs : HashMap ForkId EvmEnv} (receives : Receives used used' forkId)
    (db : CacheDb) (journaledState : JournaledState)
    (active : ∀ {other otherIdx}, ids = some (other, otherIdx) →
      (other = backend.inner.nextForkId ∧ otherIdx = backend.inner.shape.length) ∨
        backend.activeForkIds = some (other, otherIdx)) :
    Registered used' { backend with
      envs := newEnvs
      inner := (backend.inner.insertNewFork forkId db journaledState).1
      activeForkIds := ids } := by
  have shape : (backend.inner.insertNewFork forkId db journaledState).1.shape =
      backend.inner.shape ++ [true] := map_append
  apply registered.register receives.more receives.usedNow registered.next.symm
  · intro current found
    exact absurd (registered.created found).2 receives.fresh
  · rfl
  · rw [shape_length]
    rfl
  · rw [shape, forall_mem_append, forall_mem_singleton]
    exact ⟨registered.held, rfl⟩
  · simp [shape]
  · simp [shape]
  · rw [shape, length_append, localId, BitVec.ofNat_add]
    exact congrArg (· + 1) registered.next
  · exact fun found => found
  · exact active

theorem launch (receives : Receives used used' reply.forkId) :
    Registered used' (backend.launch reply) := by
  apply registered.insertNewFork receives
  intro other otherIdx same
  cases same
  exact .inl ⟨rfl, (shape_length _).symm⟩

theorem mono (more : ∀ other, used other → used' other) : Registered used' backend :=
  { registered with
    created := fun found => ⟨(registered.created found).1, more _ (registered.created found).2⟩ }

theorem rolled (newEnvs : HashMap ForkId EvmEnv) (receives : Receives used used' reply.forkId)
    (rolls : backend.inner.rollFork id reply = .ok inner) :
    Registered used' { backend with envs := newEnvs, inner := inner } := by
  have shape := rollFork_shape rolls
  obtain ⟨forkId, idx, fork, issued, created, held, rfl⟩ := rollFork_eq_ok rolls
  obtain ⟨current, known, named⟩ := registered.issued issued
  cases created.symm.trans known
  apply registered.register receives.more receives.usedNow named
  · intro other found
    exact absurd (registered.created found).2 receives.fresh
  · rfl
  · rfl
  · rw [shape]
    exact registered.held
  · rw [shape]
  · rw [shape]
    exact (registered.created created).1
  · rw [shape]
    exact registered.next
  · exact fun found => found
  · exact .inr

end

section

variable (registered : Registered used session.backend)

include registered

theorem execute (execution : Execution) : Registered used (session.execute execution).backend := by
  have stored := registered.setDatabase execution.db
  exact { stored with }

theorem createFork (receives : Receives used used' reply.forkId) :
    Registered used' (session.createFork reply).1.backend :=
  registered.insertNewFork receives _ _ .inr

theorem snapshotState : Registered used session.snapshotState.1.backend ∧
    session.snapshotState.2 ≠ .error .panicked := by
  have taken : ∃ db, session.backend.createDbSnapshot = .ok db ∧
      ∀ {id forkId idx fork}, db = .forked id forkId idx fork →
        idx < session.backend.inner.shape.length ∧ localId idx = id ∧
          ∃ current, session.backend.inner.createdForks.lookup forkId = some current ∧
            localId current = id := by
    unfold createDbSnapshot
    cases active : session.backend.activeForkIds with
    | none => exact ⟨_, rfl, nofun⟩
    | some ids =>
      obtain ⟨bound, named, listed⟩ := registered.active active
      obtain ⟨fork, found⟩ := registered.getFork rfl bound
      obtain ⟨forkId, issued⟩ := mem_iff_exists_lookup.mp listed
      simp only [found, issued]
      refine ⟨_, rfl, ?_⟩
      rintro _ _ _ _ ⟨⟩
      exact ⟨bound, named, registered.issued issued⟩
  obtain ⟨db, taken, forked⟩ := taken
  rw [Session.snapshotState, taken]
  refine ⟨{ registered with snapshots := ?_ }, by simp⟩
  intro number snapshot id forkId idx fork found same
  dsimp only [StateSnapshots.insert] at found
  obtain ⟨rfl, rfl⟩ | ⟨_, found⟩ := lookup_of_insert found
  · exact forked same
  · exact registered.snapshots found same

theorem revertState (keccak : Bytes → B256) (id : U256) (caller : Address)
    (action : RevertStateSnapshotAction) :
    Registered used (session.revertState keccak id caller action).1.backend ∧
      (session.revertState keccak id caller action).2 ≠ .error .panicked := by
  have kept : ∀ {number snapshot}, (session.revertState keccak id caller
        action).1.backend.inner.stateSnapshots.stateSnapshots.lookup number = some snapshot →
      session.backend.inner.stateSnapshots.stateSnapshots.lookup number = some snapshot :=
    fun found => revertState_lookup keccak session id caller action found
  revert kept
  unfold Session.revertState
  dsimp only
  split
  · exact fun _ => ⟨registered, by simp⟩
  rename_i snapshot stored
  split
  · exact fun kept => ⟨{ registered with
      snapshots := fun found => registered.snapshots (kept found) }, by simp⟩
  rename_i forkLocalId forkId idx fork forked
  obtain ⟨bound, named, current, known, owned⟩ := registered.snapshots stored forked
  rw [if_pos (shape_length _ ▸ bound)]
  refine fun kept => ⟨?_, by simp⟩
  have shape : ∀ other : Fork, (session.backend.inner.setFork idx
      other).shape = session.backend.inner.shape := by
    obtain ⟨held, found⟩ := registered.getFork rfl bound
    exact fun other => (keeps_setFork found other).shape
  apply registered.register (fun _ was => was) (registered.created known).2 named
  · intro other found
    cases known.symm.trans found
    exact owned
  · rfl
  · rfl
  · exact (shape _).symm ▸ registered.held
  · exact (shape _).symm ▸ le_refl _
  · exact (shape _).symm ▸ bound
  · exact (shape _).symm ▸ registered.next
  · exact kept
  intro other otherIdx same
  cases same
  exact .inl ⟨rfl, rfl⟩

end

end Operations

section Unwraps

/-- The journal holds the accounts that are replaced. -/
theorem replaceAccounts_ne_panicked {addresses : List Address} {db : CacheDb}
    {journal : JournaledState}
    (present : ∀ address ∈ addresses, address ∈ journal.state) :
    (replaceAccounts addresses db journal).2 ≠ .error .panicked := by
  induction addresses generalizing db journal with
  | nil => simp [replaceAccounts]
  | cons address addresses ih =>
    have later : ∀ other ∈ addresses, other ∈ journal.state :=
      fun other member => present other (mem_cons_of_mem _ member)
    unfold replaceAccounts
    split
    · rename_i missing
      exact absurd (present address mem_cons_self) (lookup_eq_none.mp missing)
    split
    · exact ih later
    dsimp only
    split
    · simp
    apply ih
    intro other member
    exact (mem_insert _).mpr (.inr (later other member))

theorem prepareForks_ne_panicked {loaded : List Address} {forks : List (Option Fork)}
    {init : JournaledState}
    (present : ∀ address ∈ loaded, address ∈ init.state) :
    (prepareForks loaded init forks).2 ≠ .error .panicked := by
  induction forks with
  | nil => simp [prepareForks]
  | cons fork forks ih =>
    cases fork with
    | none => exact ih
    | some fork =>
      have replaced : (replaceAccounts loaded fork.db init).2 ≠ .error .panicked :=
        replaceAccounts_ne_panicked present
      unfold prepareForks
      split
      · rename_i error outcome
        rw [outcome] at replaced
        exact replaced
      · exact ih

theorem initializeCaller_ne_panicked {caller : Address} {callerAccount : Option Account}
    {target : Fork} :
    (initializeCaller caller callerAccount target).2 ≠ .error .panicked := by
  unfold initializeCaller
  split
  · split
    · simp
    · dsimp only
      split
      · simp
      · simp
  · simp

variable {session : Session}

theorem database_ne_none (registered : Registered used backend) : backend.database ≠ none := by
  unfold database
  split
  · rename_i id idx active
    obtain ⟨fork, found⟩ := registered.getFork rfl (registered.active active).1
    rw [found]
    exact some_ne_none _
  · exact some_ne_none _

theorem ensureForkId_ne_panicked (inner : BackendInner)
    (id : LocalForkId) : inner.ensureForkId id ≠ .error .panicked := by
  unfold BackendInner.ensureForkId
  split <;> simp

theorem updateActiveBlock_ne_panicked (backend : Backend) (evmEnv : EvmEnv) :
    backend.updateActiveBlock evmEnv ≠ .error .panicked := by
  unfold updateActiveBlock
  split
  · simp
  rename_i id _
  have ensured := ensureForkId_ne_panicked backend.inner id
  cases found : backend.inner.ensureForkId id with
  | error error =>
    rw [found] at ensured
    exact fun same => ensured (by cases same; rfl)
  | ok forkId => simp [bind, Except.bind]

theorem resolve_ne_panicked : backend.resolve id ≠ .error .panicked := by
  unfold resolve BackendInner.ensureForkId BackendInner.ensureForkIndex
  cases backend.inner.issuedLocalForkIds.lookup id with
  | none => simp [bind, Except.bind]
  | some forkId =>
    simp only [bind, Except.bind]
    cases backend.inner.createdForks.lookup forkId with
    | none => simp
    | some idx =>
      dsimp only
      split <;> simp

theorem innerRollFork_ne_panicked (registered : Registered used backend)
    (id : LocalForkId) (reply : ForkReply) :
    backend.inner.rollFork id reply ≠ .error .panicked := by
  unfold BackendInner.rollFork BackendInner.ensureForkId BackendInner.ensureForkIndex
  cases issued : backend.inner.issuedLocalForkIds.lookup id with
  | none => simp [bind, Except.bind]
  | some forkId =>
    obtain ⟨idx, created, _⟩ := registered.issued issued
    obtain ⟨fork, found⟩ := registered.getFork rfl (registered.created created).1
    simp only [created, bind, Except.bind, getFork_eq_some.mp found]
    simp

variable (registered : Registered used session.backend)

include registered

theorem rollFork (id : Option LocalForkId) (reply : ForkReply) :
    (∀ {used' : ForkId → Prop}, Receives used used' reply.forkId →
      Registered used' (session.rollFork id reply).1.backend) ∧
      (session.rollFork id reply).2 ≠ .error .panicked := by
  unfold Session.rollFork
  split
  · rename_i error failed
    refine ⟨fun receives => registered.mono receives.more, ?_⟩
    rintro ⟨⟩
    unfold ensureFork at failed
    split at failed <;> split at failed <;> cases failed
  split
  · rename_i error failed
    refine ⟨fun receives => registered.mono receives.more, ?_⟩
    rintro ⟨⟩
    exact ensureForkId_ne_panicked _ _ failed
  dsimp only
  split
  · rename_i error failed
    refine ⟨fun receives => (registered.mono receives.more).keeps (.refl _) registered.active, ?_⟩
    rintro ⟨⟩
    exact registered.innerRollFork_ne_panicked _ _ failed
  rename_i inner rolls
  have first {used' : ForkId → Prop} (receives : Receives used used' reply.forkId) :=
    registered.rolled (session.backend.envs.insert reply.forkId reply.evmEnv) receives rolls
  split
  · exact ⟨first, by simp⟩
  rename_i activeId activeIdx active
  split
  · obtain ⟨fork, held⟩ := registered.getFork (rollFork_shape rolls) (registered.active active).1
    rw [held]
    exact ⟨fun receives => (first receives).keeps (keeps_setFork held _) (first receives).active,
      by simp⟩
  · exact ⟨first, by simp⟩

theorem leave_ne_panicked (precompiles : List Address)
    (bound : idx < session.backend.inner.shape.length) :
    (session.leave precompiles idx).2 ≠ .error .panicked := by
  unfold leave
  dsimp only
  split
  · rename_i activeId activeIdx active
    obtain ⟨fork, found⟩ := registered.getFork rfl (registered.active active).1
    have stored := keeps_setFork found { fork with journaledState := session.journaledState }
    obtain ⟨target, targetFound⟩ := registered.getFork stored.shape bound
    simp only [found, targetFound]
    exact initializeCaller_ne_panicked
  have prepared : (prepareForks (session.journaledState.state.keys.filter fun address =>
        address ∉ precompiles && address ∉ session.backend.inner.persistentAccounts)
      session.journaledState session.backend.inner.forks).2 ≠ .error .panicked :=
    prepareForks_ne_panicked (fun address member => (mem_filter.mp member).1)
  split
  · rename_i failed error outcome
    have same := congrArg Prod.snd outcome
    rw [← same]
    exact prepared
  · simp

/-- The target of a switch is not the active fork, so both can be taken. -/
theorem handOver_ne_error (keccak : Bytes → B256) (bound : idx < session.backend.inner.shape.length)
    (different : ∀ {id activeIdx},
      session.backend.activeForkIds = some (id, activeIdx) → activeIdx ≠ idx)
    (error : ForkError) :
    session.handOver keccak idx ≠ .error error := by
  obtain ⟨fork, found⟩ := registered.getFork rfl bound
  unfold handOver
  simp only [found]
  cases active : session.backend.activeForkIds with
  | none => simp [bind, Except.bind]
  | some ids =>
    obtain ⟨activeFork, activeFound⟩ := registered.getFork rfl (registered.active active).1
    have taken : (session.backend.inner.takeFork idx).getFork ids.2 = some activeFork :=
      (getFork_takeFork_ne (different active)).trans activeFound
    simp [taken, bind, Except.bind]

theorem selectFork (keccak : Bytes → B256) (precompiles : List Address) (id : LocalForkId) :
    Registered used (session.selectFork keccak precompiles id).1.backend ∧
      (session.selectFork keccak precompiles id).2 ≠ .error .panicked := by
  unfold Session.selectFork
  split
  · exact ⟨registered, by simp⟩
  rename_i inactive
  split
  · rename_i error failed
    refine ⟨registered, ?_⟩
    rintro ⟨⟩
    exact updateActiveBlock_ne_panicked _ _ failed
  rename_i backend updated
  obtain ⟨sameInner, sameActive, _⟩ := updateActiveBlock_inner updated
  have current : Registered used backend :=
    registered.keeps (sameInner ▸ .refl _) (sameActive ▸ registered.active)
  dsimp only
  split
  · rename_i error failed
    refine ⟨current, ?_⟩
    rintro ⟨⟩
    exact resolve_ne_panicked failed
  rename_i idx forkEvmEnv resolved
  obtain ⟨bound, named, listed⟩ := current.resolved (index_eq_some.mpr (resolve_eq_ok resolved))
  have leaves : (leave precompiles
      { session with backend := backend } idx).2 ≠ .error .panicked :=
    leave_ne_panicked current precompiles bound
  obtain ⟨kept, sameActive'⟩ := leave_keeps precompiles { session with backend := backend } idx
  split
  · rename_i failed error outcome
    rw [outcome] at leaves kept sameActive'
    exact ⟨current.keeps kept (sameActive' ▸ current.active), leaves⟩
  rename_i prepared outcome
  rw [outcome] at kept sameActive'
  have left : Registered used prepared := current.keeps kept (sameActive' ▸ current.active)
  have different : ∀ {activeId activeIdx},
      prepared.activeForkIds = some (activeId, activeIdx) → activeIdx ≠ idx := by
    rintro activeId _ active rfl
    apply inactive
    have same : activeId = id := (left.active active).2.1.symm.trans named
    rw [sameActive', sameActive, same] at active
    rw [isActiveFork, activeForkId, active]
    exact decide_eq_true rfl
  split
  · rename_i error failed
    exact absurd failed (handOver_ne_error left keccak (kept.shape ▸ bound) different error)
  rename_i final handed
  refine ⟨left.keeps (handOver_keeps handed) ?_, by simp⟩
  rintro _ _ ⟨⟩
  exact ⟨kept.shape ▸ bound, named, kept.issuedLocalForkIds ▸ listed⟩

end Unwraps

end Registered

/-- The operations that need a fork find one. -/
structure Session.Unwraps (keccak : Bytes → B256)
    (precompiles : List Address) (session : Session) : Prop where
  database : session.backend.database ≠ none
  snapshotState : session.snapshotState.2 ≠ .error .panicked
  revertState : ∀ id caller action,
    (session.revertState keccak id caller action).2 ≠ .error .panicked
  selectFork : ∀ id, (session.selectFork keccak precompiles id).2 ≠ .error .panicked
  rollFork : ∀ id reply, (session.rollFork id reply).2 ≠ .error .panicked

theorem Registered.unwraps {used : ForkId → Prop} {session : Session}
    (registered : Registered used session.backend) (keccak : Bytes → B256)
    (precompiles : List Address) : session.Unwraps keccak precompiles where
  database := registered.database_ne_none
  snapshotState := registered.snapshotState.2
  revertState id caller action := (registered.revertState keccak id caller action).2
  selectFork id := (registered.selectFork keccak precompiles id).2
  rollFork id reply := (registered.rollFork id reply).2

/-- A backend and the handler that it shares with other clients. -/
structure ForkSystem where
  handler : MultiForkHandler
  session : Session
  /-- The positions of the replies that the backend has received. -/
  received : List ℕ

inductive ForkEvent where
  | handler (event : HandlerEvent)
  | newBackend (blockHash : U256 → B256) (launch : Option ℕ)
  | createFork (position : ℕ)
  | rollFork (id : Option LocalForkId) (position : ℕ)
  | selectFork (id : LocalForkId)
  | snapshotState
  | revertState (id : U256) (caller : Address)
      (action : RevertStateSnapshotAction)
  | execute (execution : Execution)

/-- The handler is not shut down. -/
def ForkEvent.Open : ForkEvent → Prop
  | .handler event => event.Open
  | _ => True

instance (event : ForkEvent) : Decidable event.Open := by
  unfold ForkEvent.Open
  split <;> infer_instance

namespace ForkSystem

def start (session : Session) (blockHash : U256 → B256) : ForkSystem where
  handler := .new
  session := { session with backend := .new blockHash }
  received := []

/-- The backend receives a reply of the handler, each reply once. -/
def receive (system : ForkSystem) (position : ℕ) (proceed : ForkReply → Session) : ForkSystem :=
  if position ∈ system.received then system
  else
    match system.handler.replies[position]? with
    | none => system
    | some reply =>
      { system with session := proceed reply, received := position :: system.received }

def step (provider : Provider) (keccak : Bytes → B256)
    (precompiles : List Address) (system : ForkSystem) :
    ForkEvent → ForkSystem
  | .handler event => { system with handler := system.handler.step provider event }
  | .newBackend blockHash none =>
    { system with session := { system.session with backend := .new blockHash } }
  | .newBackend blockHash (some position) =>
    system.receive position fun reply =>
      { system.session with backend := (Backend.new blockHash).launch reply }
  | .createFork position => system.receive position fun reply => (system.session.createFork reply).1
  | .rollFork id position =>
    system.receive position fun reply => (system.session.rollFork id reply).1
  | .selectFork id => { system with session := (system.session.selectFork keccak precompiles id).1 }
  | .snapshotState => { system with session := system.session.snapshotState.1 }
  | .revertState id caller action =>
    { system with session := (system.session.revertState keccak id caller action).1 }
  | .execute execution => { system with session := system.session.execute execution }

/-- The names that the backend has received. -/
def Used (system : ForkSystem) (forkId : ForkId) : Prop :=
  ∃ position ∈ system.received,
    (system.handler.replies.map ForkReply.forkId)[position]? = some forkId

structure Invariant (system : ForkSystem) : Prop where
  named : Named 0 system.handler
  registered : Registered system.Used system.session.backend

variable {provider : Provider} {keccak : Bytes → B256}
  {precompiles : List Address} {system : ForkSystem}

theorem new_registered {used : ForkId → Prop} {blockHash : U256 → B256} :
    Registered used (new blockHash) where
  held _ member := by cases member
  next := rfl
  created found := by cases found
  issued found := by cases found
  active same := by cases same
  snapshots found := by cases found

theorem Invariant.receive {proceed : ForkReply → Session} {position : ℕ}
    (invariant : system.Invariant)
    (registers : ∀ {reply : ForkReply} {used' : ForkId → Prop},
      Registered.Receives system.Used used' reply.forkId →
        Registered used' (proceed reply).backend) :
    (system.receive position proceed).Invariant := by
  unfold ForkSystem.receive
  split
  · exact invariant
  rename_i unreceived
  split
  · exact invariant
  rename_i reply found
  have name : (system.handler.replies.map ForkReply.forkId)[position]? = some reply.forkId := by
    rw [getElem?_map, found, map_some]
  refine ⟨invariant.named, registers ⟨?_, ?_, ?_⟩⟩
  · rintro other ⟨position', received, same⟩
    exact ⟨position', mem_cons_of_mem _ received, same⟩
  · exact ⟨position, mem_cons_self, name⟩
  rintro ⟨position', received, same⟩
  have bound := (List.getElem?_eq_some_iff.mp name).1
  have equal := (List.getElem?_inj bound invariant.named.nodup).mp (name.trans same.symm)
  exact unreceived (equal ▸ received)

theorem Invariant.step (invariant : system.Invariant) {event : ForkEvent} (isOpen : event.Open) :
    (system.step provider keccak precompiles event).Invariant := by
  cases event with
  | handler event =>
    refine ⟨invariant.named.step provider isOpen, invariant.registered.mono ?_⟩
    rintro other ⟨position, received, same⟩
    refine ⟨position, received, ?_⟩
    have grown : system.handler.replies <+: (system.handler.step provider event).replies :=
      (MultiForkHandler.step_sent provider system.handler event).filterMap _
    obtain ⟨later, extended⟩ := grown
    have bound := (List.getElem?_eq_some_iff.mp same).1
    show ((system.handler.step provider event).replies.map ForkReply.forkId)[position]? = some other
    rw [← extended, map_append, getElem?_append_left bound]
    exact same
  | newBackend blockHash launch =>
    cases launch with
    | none => exact ⟨invariant.named, new_registered⟩
    | some position =>
      apply invariant.receive
      intro reply used' receives
      exact (new_registered).launch receives
  | createFork position =>
    apply invariant.receive
    intro reply used' receives
    exact invariant.registered.createFork receives
  | rollFork id position =>
    apply invariant.receive
    intro reply used' receives
    exact (invariant.registered.rollFork id reply).1 receives
  | selectFork id =>
    exact ⟨invariant.named, (invariant.registered.selectFork keccak precompiles id).1⟩
  | snapshotState => exact ⟨invariant.named, invariant.registered.snapshotState.1⟩
  | revertState id caller action =>
    exact ⟨invariant.named, (invariant.registered.revertState keccak id caller action).1⟩
  | execute execution => exact ⟨invariant.named, invariant.registered.execute execution⟩

theorem run_invariant {events : List ForkEvent} (session : Session) (blockHash : U256 → B256)
    (isOpen : ∀ event ∈ events, event.Open) :
    (run (step provider keccak precompiles) (start session blockHash) events).Invariant := by
  have initial : (start session blockHash).Invariant :=
    { named :=
        { forks := fun found => by cases found
          replies := fun _ member => by cases member
          nodup := nodup_nil
          bounded := fun _ => le_refl _ }
      registered := new_registered }
  exact invariant_along ForkSystem.Invariant (fun _ _ holds isOpen => holds.step isOpen) initial
    (along_of_forall (fun event member _ => isOpen event member) _) events (prefix_refl _)

/-- In every state reached no name was returned twice, each local id resolves
to an index that holds a fork, different local ids resolve to different
indices, and no operation misses a fork. -/
theorem run_identity (provider : Provider) (keccak : Bytes → B256)
    (precompiles : List Address) (session : Session)
    (blockHash : U256 → B256) (events : List ForkEvent)
    (isOpen : ∀ event ∈ events, event.Open) :
    ((run (step provider keccak precompiles)
      (start session blockHash) events).handler.replies.map ForkReply.forkId).Nodup ∧
    (∀ id ∈ (run (step provider keccak precompiles) (start session blockHash)
        events).session.backend.inner.issuedLocalForkIds,
      ∃ idx fork, (run (step provider keccak precompiles)
          (start session blockHash) events).session.backend.inner.index id = some idx ∧
        idx < (run (step provider keccak precompiles) (start session blockHash)
          events).session.backend.inner.forks.length ∧
        (run (step provider keccak precompiles) (start session blockHash)
          events).session.backend.inner.getFork idx = some fork) ∧
    (∀ id other idx otherIdx, id ≠ other → (run (step provider keccak precompiles)
        (start session blockHash) events).session.backend.inner.index id = some idx →
      (run (step provider keccak precompiles)
        (start session blockHash) events).session.backend.inner.index
          other = some otherIdx → idx ≠ otherIdx) ∧
    (run (step provider keccak precompiles) (start session blockHash) events).session.Unwraps keccak
        precompiles := by
  obtain ⟨named, registered⟩ : (run (step provider keccak precompiles) (start session blockHash)
      events).Invariant :=
    run_invariant session blockHash isOpen
  generalize run (step provider keccak precompiles)
    (start session blockHash) events = system at named registered ⊢
  refine ⟨named.nodup, ?_, ?_, registered.unwraps keccak precompiles⟩
  · intro id listed
    obtain ⟨forkId, issued⟩ := mem_iff_exists_lookup.mp listed
    obtain ⟨idx, created, _⟩ := registered.issued issued
    have bound := (registered.created created).1
    obtain ⟨fork, held⟩ := registered.getFork rfl bound
    rw [shape_length] at bound
    exact ⟨idx, fork, index_eq_some.mpr ⟨forkId, issued, created⟩, bound, held⟩
  rintro id other idx _ different found otherFound rfl
  obtain ⟨_, named, _⟩ := registered.resolved found
  obtain ⟨_, otherNamed, _⟩ := registered.resolved otherFound
  exact different (named.symm.trans otherNamed)

/-- Two forks of one block, requested together; the first one is snapshotted,
rolled and reverted. -/
def sharedBlock : List ForkEvent :=
  [.handler (.request (.createFork plainFork 0)), .handler (.request (.createFork plainFork 1)),
    .handler allReady, .createFork 0, .createFork 1,
    .selectFork 0, .snapshotState,
    .handler (.request (.rollFork (.new ['u'] (some 1)) 2 2)),
    .handler allReady, .rollFork none 2,
    .revertState 0 5 .revertKeep]

def plainSystem : ForkSystem :=
  start (Watched.start (fun _ => 0) Watched.plainEnv Watched.plainTx .new).session fun _ => 0

theorem run_identity_shared_block : (run (step plainProvider (fun _ => 0) [])
      plainSystem sharedBlock).handler.replies.map ForkReply.forkId =
        [.numbered ['u'] 1 [], .numbered ['u'] 1 [1], .numbered ['u'] 2 []] ∧
    (run (step plainProvider (fun _ => 0) [])
      plainSystem sharedBlock).session.backend.inner.index 0 = some 0 ∧
    (run (step plainProvider (fun _ => 0) [])
      plainSystem sharedBlock).session.backend.inner.index 1 = some 1 ∧
    (run (step plainProvider (fun _ => 0) [])
      plainSystem sharedBlock).session.Unwraps (fun _ => 0) [] := by
  have identity := run_identity plainProvider (fun _ => 0) []
    (Watched.start (fun _ => 0) Watched.plainEnv Watched.plainTx
      .new).session (fun _ => 0) sharedBlock (by decide)
  refine ⟨?_, ?_, ?_, identity.2.2.2⟩ <;> decide +kernel

end ForkSystem

end SwissledgerFoundry.Forking
