import SwissledgerFoundry.Collections.Except
import SwissledgerFoundry.Forking.Backend

/-!
# What the fork operations leave alone

Selecting a fork changes what the forks hold, never which forks there are, how
they are named or which snapshots were taken.
-/

namespace SwissledgerFoundry.Forking

open BackendInner List Option Except

/-- Which entries of the list of forks hold a fork. -/
def BackendInner.shape (inner : BackendInner) : List Bool := inner.forks.map isSome

/-- Only the contents of the forks changed. -/
structure Keeps (before after : BackendInner) : Prop where
  issuedLocalForkIds : after.issuedLocalForkIds = before.issuedLocalForkIds
  createdForks : after.createdForks = before.createdForks
  shape : after.shape = before.shape
  stateSnapshots : after.stateSnapshots = before.stateSnapshots
  caller : after.caller = before.caller
  nextForkId : after.nextForkId = before.nextForkId
  persistentAccounts : after.persistentAccounts = before.persistentAccounts

theorem Keeps.refl (inner : BackendInner) : Keeps inner inner where
  issuedLocalForkIds := rfl
  createdForks := rfl
  shape := rfl
  stateSnapshots := rfl
  caller := rfl
  nextForkId := rfl
  persistentAccounts := rfl

theorem Keeps.trans {first second third : BackendInner} (left : Keeps first second)
    (right : Keeps second third) :
    Keeps first third where
  issuedLocalForkIds := right.issuedLocalForkIds.trans left.issuedLocalForkIds
  createdForks := right.createdForks.trans left.createdForks
  shape := right.shape.trans left.shape
  stateSnapshots := right.stateSnapshots.trans left.stateSnapshots
  caller := right.caller.trans left.caller
  nextForkId := right.nextForkId.trans left.nextForkId
  persistentAccounts := right.persistentAccounts.trans left.persistentAccounts

variable {idx : ℕ}

section Forks

variable {inner : BackendInner}

variable {fork : Fork}

theorem getFork_eq_some : inner.getFork idx = some fork ↔ inner.forks[idx]? = some (some fork) := by
  rw [getFork, join_eq_some_iff]

theorem shape_eq_true : inner.shape[idx]? = some true ↔ ∃ fork, inner.getFork idx = some fork := by
  rw [shape, getElem?_map, map_eq_some_iff]
  constructor
  · rintro ⟨entry, found, holds⟩
    obtain ⟨fork, rfl⟩ := isSome_iff_exists.mp holds
    exact ⟨fork, getFork_eq_some.mpr found⟩
  · rintro ⟨fork, found⟩
    exact ⟨some fork, getFork_eq_some.mp found, rfl⟩

theorem setFork_shape : (inner.setFork idx fork).shape = inner.shape.set idx true := map_set ..

theorem takeFork_shape : (inner.takeFork idx).shape = inner.shape.set idx false := map_set ..

theorem set_of_getElem? {Value : Type*} {value : Value} {list : List Value}
    (found : list[idx]? = some value) :
    list.set idx value = list := by
  obtain ⟨bound, rfl⟩ := List.getElem?_eq_some_iff.mp found
  exact List.set_getElem_self bound

theorem keeps_setFork (found : inner.getFork idx = some fork)
    (other : Fork) : Keeps inner (inner.setFork idx other) :=
  { Keeps.refl inner with
    shape := by
      rw [setFork_shape]
      exact set_of_getElem? (shape_eq_true.mpr ⟨fork, found⟩) }

theorem getFork_setFork (bound : idx < inner.forks.length) (fork : Fork) :
    (inner.setFork idx fork).getFork idx = some fork := by
  rw [getFork_eq_some]
  exact getElem?_set_self bound

theorem getFork_setFork_ne {other : ℕ} (different : other ≠ idx) (fork : Fork) :
    (inner.setFork idx fork).getFork other = inner.getFork other := by
  unfold getFork setFork
  rw [getElem?_set_ne (Ne.symm different)]

theorem getFork_takeFork_ne {other : ℕ} (different : other ≠ idx) :
    (inner.takeFork idx).getFork other = inner.getFork other := by
  unfold getFork takeFork
  rw [getElem?_set_ne (Ne.symm different)]

theorem getFork_takeFork_self (inner : BackendInner) (idx : ℕ) :
    (inner.takeFork idx).getFork idx = none := by
  unfold getFork takeFork
  rw [getElem?_set]
  split
  · split
    · rfl
    · rfl
  · contradiction

theorem lt_length_of_getFork (found : inner.getFork idx = some fork) : idx < inner.forks.length :=
  (List.getElem?_eq_some_iff.mp (getFork_eq_some.mp found)).1

end Forks

variable {inner : BackendInner} {id : LocalForkId}

theorem ensureForkId_eq_ok {forkId : ForkId} :
    inner.ensureForkId id = .ok forkId ↔ inner.issuedLocalForkIds.lookup id = some forkId := by
  unfold ensureForkId
  split <;> simp [*]

theorem ensureForkIndex_eq_ok {forkId : ForkId} : inner.ensureForkIndex forkId = .ok idx ↔
      inner.createdForks.lookup forkId = some idx := by
  unfold ensureForkIndex
  split <;> simp [*]

theorem rollFork_eq_ok {after : BackendInner} {reply : ForkReply}
    (rolled : inner.rollFork id reply = .ok after) :
    ∃ forkId idx fork, inner.issuedLocalForkIds.lookup id = some forkId ∧
      inner.createdForks.lookup forkId = some idx ∧
      inner.forks[idx]? = some fork ∧
      after =
        { inner with
          forks := inner.forks.set idx (fork.map fun active =>
            { active with
              db := inner.persistentAccounts.foldl
                (fun db address => mergeDbAccountData address active.db db)
                (.new reply.remote) })
          issuedLocalForkIds := inner.issuedLocalForkIds.insert id reply.forkId
          createdForks := inner.createdForks.insert reply.forkId idx } := by
  obtain ⟨forkId, ensured, rolled⟩ := bind_eq_ok_iff.mp rolled
  obtain ⟨idx, indexed, rolled⟩ := bind_eq_ok_iff.mp rolled
  cases held : inner.forks[idx]? with
  | none => simp [held] at rolled
  | some fork =>
    rw [held] at rolled
    cases rolled
    exact ⟨forkId, idx, fork, ensureForkId_eq_ok.mp ensured,
      ensureForkIndex_eq_ok.mp indexed, held, rfl⟩

theorem resolve_eq_ok {evmEnv : EvmEnv} {backend : Backend}
    (resolved : backend.resolve id = .ok (idx, evmEnv)) :
    ∃ forkId, backend.inner.issuedLocalForkIds.lookup id = some forkId ∧
      backend.inner.createdForks.lookup forkId = some idx := by
  obtain ⟨forkId, ensured, resolved⟩ := bind_eq_ok_iff.mp resolved
  obtain ⟨found, indexed, resolved⟩ := bind_eq_ok_iff.mp resolved
  split at resolved
  · cases resolved
  · cases resolved
    exact ⟨forkId, ensureForkId_eq_ok.mp ensured, ensureForkIndex_eq_ok.mp indexed⟩

theorem prepareForks_shape (loaded : List Address) (init : JournaledState)
    (forks : List (Option Fork)) :
    (prepareForks loaded init forks).1.map isSome = forks.map isSome := by
  induction forks with
  | nil => rfl
  | cons fork forks ih =>
    cases fork with
    | none => rw [prepareForks, map_cons, map_cons, ih]
    | some fork =>
      rw [prepareForks]
      split
      · rfl
      · simp [map_cons, ih]

theorem updateActiveBlock_inner {evmEnv : EvmEnv} {backend after : Backend}
    (updated : backend.updateActiveBlock evmEnv = .ok after) :
    after.inner = backend.inner ∧ after.activeForkIds = backend.activeForkIds ∧
      after.memDb = backend.memDb ∧
      after.forkInitJournaledState = backend.forkInitJournaledState := by
  unfold Backend.updateActiveBlock at updated
  split at updated
  · cases updated
    exact ⟨rfl, rfl, rfl, rfl⟩
  rename_i active _
  cases found : backend.inner.ensureForkId active with
  | error error =>
    rw [found] at updated
    cases updated
  | ok forkId =>
    rw [found] at updated
    cases updated
    exact ⟨rfl, rfl, rfl, rfl⟩

theorem leave_keeps (precompiles : List Address) (session : Session) (idx : ℕ) :
    Keeps session.backend.inner (session.leave precompiles idx).1.inner ∧
      (session.leave precompiles idx).1.activeForkIds = session.backend.activeForkIds := by
  unfold Session.leave
  dsimp only
  split
  · rename_i activeIdx active
    split
    · exact ⟨.refl _, rfl⟩
    rename_i fork found
    have first := keeps_setFork found { fork with journaledState := session.journaledState }
    split
    · exact ⟨first, rfl⟩
    · rename_i target targetFound
      exact ⟨first.trans (keeps_setFork targetFound _), rfl⟩
  have prepared : Keeps session.backend.inner
      ({ session.backend with
        forkInitJournaledState :=
          session.journaledState }.prepareInitJournalState precompiles).1.inner :=
    { Keeps.refl session.backend.inner with shape := prepareForks_shape _ _ _ }
  split
  all_goals
    rename_i same
    rw [same] at prepared
    exact ⟨prepared, (congrArg (·.1.activeForkIds) same).symm⟩

theorem handOver_keeps {keccak : Bytes → B256} {session after : Session}
    (handed : session.handOver keccak idx = .ok after) :
    Keeps session.backend.inner after.backend.inner := by
  unfold Session.handOver at handed
  dsimp only at handed
  split at handed
  · cases handed
  rename_i fork found
  have held := shape_eq_true.mpr ⟨fork, found⟩
  have restored : ∀ other, Keeps session.backend.inner
      ((session.backend.inner.takeFork idx).setFork idx other) := by
    intro other
    refine { Keeps.refl session.backend.inner with shape := ?_ }
    rw [setFork_shape, takeFork_shape, set_set]
    exact set_of_getElem? held
  split at handed
  · cases handed
    exact restored _
  split at handed
  · cases handed
  rename_i activeIdx _ _ active activeFound
  have activeHeld := shape_eq_true.mpr ⟨active, activeFound⟩
  cases handed
  refine { Keeps.refl session.backend.inner with shape := ?_ }
  rw [setFork_shape, setFork_shape, set_of_getElem? activeHeld, takeFork_shape, set_set]
  exact set_of_getElem? held

theorem selectFork_keeps (keccak : Bytes → B256)
    (precompiles : List Address) (session : Session) (id : LocalForkId) :
    Keeps session.backend.inner (session.selectFork keccak precompiles id).1.backend.inner := by
  unfold Session.selectFork
  split
  · exact .refl _
  split
  · exact .refl _
  rename_i backend updated
  obtain ⟨same, _⟩ := updateActiveBlock_inner updated
  dsimp only
  split
  · rw [same]
    exact .refl _
  rename_i idx forkEvmEnv _
  obtain ⟨left, _⟩ := leave_keeps precompiles { session with backend := backend } idx
  rw [same] at left
  split
  · rename_i failed error outcome
    rw [outcome] at left
    exact left
  rename_i prepared outcome
  rw [outcome] at left
  split
  · exact left
  · rename_i final handed
    exact left.trans (handOver_keeps handed)

end SwissledgerFoundry.Forking
