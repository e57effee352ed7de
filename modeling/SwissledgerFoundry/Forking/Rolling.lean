import SwissledgerFoundry.Forking.Persistent

/-!
# Rolling a fork and selecting it

Rolling a fork gives it a database over the remote state of another block.  A
fork that is rolled while it is inactive is entered with the journal it was left
with.
-/

namespace SwissledgerFoundry.Forking

open List AList

/-- The account is read from the remote side. -/
structure ReadsRemote (remote : DatabaseRef) (address : Address)
    (journal : JournaledState) (db : CacheDb) : Prop where
  info : journal.info db address = (remote.basic address).getD default
  slot : ∀ key, journal.slot db address key = remote.storage address key

/-- A journaled account reads as on the remote side. -/
structure Matches (remote : DatabaseRef) (address : Address) (account : Account) : Prop where
  info : account.info = (remote.basic address).getD default
  slot : ∀ key, (account.storage.lookup key).elim
    (if account.isCreated then 0 else remote.storage address key) (·.presentValue) =
      remote.storage address key

/-- No layer holds the account. -/
structure Unloaded (remote : DatabaseRef) (address : Address)
    (journal : JournaledState) (db : CacheDb) : Prop where
  journal : journal.state.lookup address = none
  cache : db.accounts.lookup address = none
  remote : db.db = remote

section Read

variable {remote : DatabaseRef} {address : Address}
  {journal : JournaledState} {db : CacheDb}

theorem readsRemote_iff (uncached : db.accounts.lookup address = none)
    (overRemote : db.db = remote) :
    ReadsRemote remote address journal db ↔
      ∀ account ∈ journal.state.lookup address, Matches remote address account := by
  have stored : ∀ key, db.storage address key = remote.storage address key := by
    intro key
    rw [CacheDb.storage, uncached, overRemote]
  cases held : journal.state.lookup address with
  | none =>
    refine iff_of_true ⟨?_, fun key => ?_⟩ nofun
    · rw [info_of_unjournaled held, CacheDb.basic, uncached, overRemote]
    · rw [JournaledState.slot, held, stored]
  | some account =>
    have slot : ∀ key, journal.slot db address key = (account.storage.lookup key).elim
        (if account.isCreated then 0 else remote.storage address key) (·.presentValue) := by
      intro key
      rw [JournaledState.slot, held, ← stored]
      dsimp only
      cases account.storage.lookup key <;> rfl
    constructor
    · rintro reads _ ⟨⟩
      exact ⟨info_of_journaled held db ▸ reads.info, fun key => slot key ▸ reads.slot key⟩
    · intro matching
      obtain ⟨info, slots⟩ := matching account rfl
      exact ⟨(info_of_journaled held db).trans info, fun key => (slot key).trans (slots key)⟩

theorem Unloaded.readsRemote (unloaded : Unloaded remote address journal db) :
    ReadsRemote remote address journal db := by
  rw [readsRemote_iff unloaded.cache unloaded.remote, unloaded.journal]
  nofun

/-- The account was loaded and not changed. -/
structure JustLoaded (remote : DatabaseRef) (address : Address)
    (info : AccountInfo) (journal : JournaledState) (db : CacheDb) :
    Prop where
  journal : journal.state.lookup address = some (.ofInfo info)
  cache : db.accounts.lookup address = some (.ofInfo info)
  remote : db.db = remote

theorem JustLoaded.readsRemote {info : AccountInfo} (answers : remote.basic address = some info)
    (loaded : JustLoaded remote address info journal db) :
    ReadsRemote remote address journal db where
  info := by
    rw [info_of_journaled loaded.journal, answers]
    rfl
  slot key := by
    rw [JournaledState.slot, loaded.journal]
    dsimp only
    have empty : (Account.ofInfo info).storage.lookup key = none := lookup_empty key
    have uncached : (DbAccount.ofInfo info).storage.lookup key = none := lookup_empty key
    rw [CacheDb.storage, loaded.cache]
    dsimp only
    rw [loaded.remote]
    rfl

end Read

section Merge

variable {persistent : List Address}

theorem mergeDbAccountData_db {item : Address} {active forkDb : CacheDb} :
    (mergeDbAccountData item active forkDb).db = forkDb.db := by
  unfold mergeDbAccountData
  split <;> rfl

/-- The database of a rolled fork holds persistent accounts only. -/
theorem rolledDb_lookup {address : Address} {active : CacheDb} {remote : DatabaseRef}
    (other : address ∉ persistent) :
    (persistent.foldl (fun db item => mergeDbAccountData item active db)
        (.new remote)).accounts.lookup address = none ∧
      (persistent.foldl (fun db item => mergeDbAccountData item active db)
        (.new remote)).db = remote := by
  apply foldlRecOn (motive := fun db : CacheDb =>
    db.accounts.lookup address = none ∧ db.db = remote)
  · exact ⟨lookup_empty address, rfl⟩
  intro db holds item member
  have different : address ≠ item := fun same => other (same ▸ member)
  rw [mergeDbAccountData_lookup_ne different, mergeDbAccountData_db]
  exact holds

end Merge

variable {target : Fork}

theorem entered_sameAt {address : Address} (keccak : Bytes → B256) {session : Session} (old : Fork)
    (other : address ∉ session.backend.inner.persistentAccounts)
    (notCaller : address ≠ session.txEnv.caller) :
    SameAt address target (session.entered keccak old target) := by
  have different : ∀ item ∈ session.backend.inner.persistentAccounts, address ≠ item :=
    fun item member same => other (same ▸ member)
  have refreshed : (session.backend.inner.persistentAccounts.foldl refreshAccount
      (old.db, target.journaledState)).2.state.lookup address =
        target.journaledState.state.lookup address := by
    apply foldlRecOn (motive := fun state : CacheDb × JournaledState =>
      state.2.state.lookup address = target.journaledState.state.lookup address)
    · rfl
    · intro state same item member
      exact (refreshAccount_lookup_ne (different item member)).trans same
  apply foldlRecOn (motive := SameAt address target)
  · refine .trans ?_ (insertCaller_sameAt notCaller)
    exact ⟨refreshed, rfl, rfl⟩
  intro state same item member
  exact same.trans
    { journal := mergeJournaledStateData_lookup_ne (different item member)
      cache := mergeDbAccountData_lookup_ne (different item member)
      remote := mergeDbAccountData_db }

section Roll

variable {session after : Session} {id : LocalForkId} {reply : ForkReply}

theorem ensureFork_eq_ok {found : LocalForkId} {backend : Backend}
    (ensured : backend.ensureFork (some id) = .ok found) : id = found := by
  unfold Backend.ensureFork at ensured
  dsimp only at ensured
  split at ensured
  · cases ensured
    rfl
  · cases ensured

/-- Rolling a fork writes it back, and rebuilds it if it is the active one. -/
theorem session_rollFork_eq_ok {activeId : LocalForkId} {activeIdx : ℕ}
    (active : session.backend.activeForkIds = some (activeId, activeIdx))
    (rolled : session.rollFork (some id) reply = (after, .ok ())) :
    ∃ inner, session.backend.inner.rollFork id reply = .ok inner ∧
      (id ≠ activeId → inner = after.backend.inner ∧
        after.backend.activeForkIds = some (activeId, activeIdx) ∧ after.txEnv = session.txEnv) ∧
      (id = activeId → ∃ fork, inner.getFork activeIdx = some fork ∧
        ∃ backend : Backend, backend.inner = inner ∧
          backend.forkInitJournaledState = session.backend.forkInitJournaledState ∧
          after.journaledState =
            (rolledFork backend session.journaledState fork.db).journaledState ∧
          after.backend.database =
            some (rolledFork backend session.journaledState fork.db).db) := by
  unfold Session.rollFork at rolled
  split at rolled
  · cases rolled
  rename_i found ensured
  obtain rfl := ensureFork_eq_ok ensured
  split at rolled
  · cases rolled
  dsimp only at rolled
  split at rolled
  · cases rolled
  rename_i inner rolledInner
  rw [active] at rolled
  refine ⟨inner, rolledInner, ?_, ?_⟩
  · intro inactive
    dsimp only at rolled
    rw [if_neg (Ne.symm inactive)] at rolled
    cases rolled
    exact ⟨rfl, rfl, rfl⟩
  rintro rfl
  dsimp only at rolled
  rw [if_pos rfl] at rolled
  split at rolled
  · cases rolled
  rename_i fork held
  cases rolled
  refine ⟨fork, held,
    { session.backend with
      envs := session.backend.envs.insert reply.forkId reply.evmEnv
      activeForkIds := some (id, activeIdx)
      inner := inner }, rfl, rfl, rfl, ?_⟩
  exact congrArg (Option.map Fork.db) (getFork_setFork (lt_length_of_getFork held) _)

theorem rollFork_getFork {forkId : ForkId} {idx : ℕ} {inner after : BackendInner}
    (issued : inner.issuedLocalForkIds.lookup id = some forkId)
    (created : inner.createdForks.lookup forkId = some idx)
    (held : inner.getFork idx = some target)
    (rolled : inner.rollFork id reply = .ok after) :
    after.issuedLocalForkIds.lookup id = some reply.forkId ∧
      after.createdForks.lookup reply.forkId = some idx ∧
      after.persistentAccounts = inner.persistentAccounts ∧
      after.caller = inner.caller ∧
      after.getFork idx = some
        { target with
          db := inner.persistentAccounts.foldl
            (fun db address => mergeDbAccountData address target.db db)
            (.new reply.remote) } := by
  obtain ⟨_, _, fork, sameIssued, sameCreated, sameHeld, rfl⟩ := rollFork_eq_ok rolled
  cases issued.symm.trans sameIssued
  cases created.symm.trans sameCreated
  cases (getFork_eq_some.mp held).symm.trans sameHeld
  refine ⟨lookup_insert _, lookup_insert _, rfl, rfl, ?_⟩
  rw [getFork_eq_some]
  exact getElem?_set_self (lt_length_of_getFork held)

end Roll

section Reload

variable {remote : DatabaseRef} {address : Address} {info : AccountInfo}
  {state : JournaledState × CacheDb}

/-- The account is not loaded, or loaded from the remote side. -/
def AtRemote (remote : DatabaseRef) (address : Address) (info : AccountInfo)
    (state : JournaledState × CacheDb) : Prop :=
  Unloaded remote address state.1 state.2 ∨ JustLoaded remote address info state.1 state.2

variable {journaledState : JournaledState}

section

variable (holds : AtRemote remote address info state)

include holds

theorem AtRemote.frame {journal : JournaledState} {db : CacheDb}
    (sameJournal : journal.state.lookup address = state.1.state.lookup address)
    (sameCache : db.accounts.lookup address = state.2.accounts.lookup address)
    (sameRemote : db.db = state.2.db) :
    AtRemote remote address info (journal, db) := by
  rcases holds with unloaded | loaded
  · left
    exact
      { journal := sameJournal.trans unloaded.journal
        cache := sameCache.trans unloaded.cache
        remote := sameRemote.trans unloaded.remote }
  right
  exact
    { journal := sameJournal.trans loaded.journal
      cache := sameCache.trans loaded.cache
      remote := sameRemote.trans loaded.remote }

variable (answers : remote.basic address = some info)

include answers

theorem AtRemote.loadAccount (item : Address) :
    AtRemote remote address info (state.1.loadAccount state.2 item) := by
  unfold JournaledState.loadAccount
  split
  · exact holds
  rename_i missing
  by_cases same : address = item
  · subst same
    right
    have unloaded : Unloaded remote address state.1 state.2 := by
      rcases holds with unloaded | loaded
      · exact unloaded
      · cases missing.symm.trans loaded.journal
    have account : state.2.loadAccount address =
        ({ state.2 with
          accounts := state.2.accounts.insert address (.ofInfo info) }, .ofInfo info) := by
      have basic : state.2.db.basic address = some info := by
        rw [unloaded.remote]
        exact answers
      unfold CacheDb.loadAccount
      simp only [unloaded.cache, basic]
    rw [account]
    exact { journal := lookup_insert _, cache := lookup_insert _, remote := unloaded.remote }
  · exact holds.frame (lookup_insert_ne same) (loadAccount_lookup_ne same) (loadAccount_db _ _)

theorem AtRemote.reloadAccount {entry : Σ _ : Address, Account}
    (notCreated : entry.1 = address → entry.2.isCreated = false) :
    AtRemote remote address info (reloadAccount journaledState state entry) := by
  unfold Forking.reloadAccount
  split
  · rename_i created
    have different : address ≠ entry.1 := by
      intro same
      simp [notCreated same.symm] at created
    split
    · exact holds.frame (mergeJournaledStateData_lookup_ne different) rfl rfl
    · exact holds
  · exact holds.loadAccount answers entry.1

end

theorem reloadAccount_held {entry : Σ _ : Address, Account} {account : Account}
    (held : state.1.state.lookup address = some account ∧
      state.2.accounts.lookup address = none ∧ state.2.db = remote)
    (notCreated : entry.1 = address → entry.2.isCreated = false) :
    (reloadAccount journaledState state entry).1.state.lookup address = some account ∧
      (reloadAccount journaledState state entry).2.accounts.lookup address = none ∧
      (reloadAccount journaledState state entry).2.db = remote := by
  unfold reloadAccount
  split
  · rename_i created
    have different : address ≠ entry.1 := by
      intro same
      simp [notCreated same.symm] at created
    split
    · exact ⟨(mergeJournaledStateData_lookup_ne different).trans held.1, held.2⟩
    · exact held
  unfold JournaledState.loadAccount
  split
  · exact held
  rename_i missing
  have different : address ≠ entry.1 := by
    rintro rfl
    cases missing.symm.trans held.1
  exact ⟨(lookup_insert_ne different).trans held.1,
    (loadAccount_lookup_ne different).trans held.2.1, (loadAccount_db _ _).trans held.2.2⟩

theorem mergeJournaledStateData_foldl_lookup {accounts : List Address} {journal : JournaledState}
    (other : address ∉ accounts) :
    (accounts.foldl (fun journal item => mergeJournaledStateData item journaledState journal)
      journal).state.lookup address = journal.state.lookup address := by
  apply foldlRecOn (motive := fun after : JournaledState =>
    after.state.lookup address = journal.state.lookup address)
  · rfl
  intro middle same item member
  have different : address ≠ item := fun equal => other (equal ▸ member)
  exact (mergeJournaledStateData_lookup_ne different).trans same

/-- An account that the journal for new forks holds is not loaded again. -/
theorem rolledFork_readsRemote_iff {backend : Backend} {db : CacheDb}
    (answers : remote.basic address = some info)
    (other : address ∉ backend.inner.persistentAccounts)
    (notCaller : backend.inner.caller ≠ some address)
    (notCreated : ∀ account ∈ journaledState.state.lookup address, account.isCreated = false)
    (uncached : db.accounts.lookup address = none)
    (overRemote : db.db = remote) :
    ReadsRemote remote address (rolledFork backend journaledState db).journaledState
        (rolledFork backend journaledState db).db ↔
      ∀ account ∈ backend.forkInitJournaledState.state.lookup address,
        Matches remote address account := by
  have apart : address ∉ backend.inner.persistentAccounts ++ backend.inner.caller.toList := by
    rw [mem_append, Option.mem_toList, not_or]
    exact ⟨other, notCaller⟩
  have merged := @mergeJournaledStateData_foldl_lookup address journaledState _
    { backend.forkInitJournaledState with depth := journaledState.depth } apart
  change _ = backend.forkInitJournaledState.state.lookup address at merged
  have unaffected : ∀ entry ∈ journaledState.state.entries, entry.1 = address →
      entry.2.isCreated = false := by
    rintro entry member rfl
    exact notCreated entry.2 (mem_lookup_iff.mpr member)
  cases held : backend.forkInitJournaledState.state.lookup address with
  | none =>
    have reloaded : AtRemote remote address info
        ((rolledFork backend journaledState db).journaledState,
          (rolledFork backend journaledState db).db) := by
      apply foldlRecOn (motive := AtRemote remote address info)
      · exact .inl ⟨merged.trans held, uncached, overRemote⟩
      intro state holds entry member
      exact holds.reloadAccount answers (unaffected entry member)
    refine iff_of_true ?_ nofun
    rcases reloaded with unloaded | loaded
    · exact unloaded.readsRemote
    · exact loaded.readsRemote answers
  | some account =>
    obtain ⟨kept, stillUncached, stillRemote⟩ :
        (rolledFork backend journaledState db).journaledState.state.lookup address =
            some account ∧
          (rolledFork backend journaledState db).db.accounts.lookup address = none ∧
          (rolledFork backend journaledState db).db.db = remote := by
      apply foldlRecOn (motive := fun state : JournaledState × CacheDb =>
        state.1.state.lookup address = some account ∧
          state.2.accounts.lookup address = none ∧ state.2.db = remote)
      · exact ⟨merged.trans held, uncached, overRemote⟩
      intro state holds entry member
      exact reloadAccount_held holds (unaffected entry member)
    rw [readsRemote_iff stillUncached stillRemote, kept]

end Reload

/-- Rolling an inactive fork and then selecting it makes an ordinary account read
as in the remote state at the new block exactly if the journal with which the fork
was left does not hold the account or holds it so; selecting it and then rolling
it, exactly if this is so of the journal for new forks. -/
theorem rollFork_selectFork (keccak : Bytes → B256) (precompiles : List Address) (session : Session)
    (id activeId : LocalForkId) (idx activeIdx : ℕ) (forkId : ForkId)
    (target : Fork) (remote : DatabaseRef) (address : Address)
    (active : session.backend.activeForkIds = some (activeId, activeIdx))
    (inactive : id ≠ activeId)
    (issued : session.backend.inner.issuedLocalForkIds.lookup id = some forkId)
    (created : session.backend.inner.createdForks.lookup forkId = some idx)
    (held : session.backend.inner.getFork idx = some target)
    (answers : (remote.basic address).isSome)
    (other : address ∉ session.backend.inner.persistentAccounts)
    (notCaller : address ≠ session.txEnv.caller)
    (notTestCaller : session.backend.inner.caller ≠ some address)
    (notCreated : ∀ account ∈ target.journaledState.state.lookup address,
      account.isCreated = false) :
    (∀ (reply : ForkReply) (rolled selected : Session), reply.remote = remote →
      session.rollFork (some id) reply = (rolled, .ok ()) →
      rolled.selectFork keccak precompiles id = (selected, .ok ()) →
      ∃ db, selected.backend.database = some db ∧
        (ReadsRemote remote address selected.journaledState db ↔
          ∀ account ∈ target.journaledState.state.lookup address,
            Matches remote address account)) ∧
    ∀ (reply : ForkReply) (selected rolled : Session), reply.remote = remote →
      session.selectFork keccak precompiles id = (selected, .ok ()) →
      selected.rollFork (some id) reply = (rolled, .ok ()) →
      ∃ db, rolled.backend.database = some db ∧
        (ReadsRemote remote address rolled.journaledState db ↔
          ∀ account ∈ session.backend.forkInitJournaledState.state.lookup address,
            Matches remote address account) := by
  constructor
  · intro reply rolled selected remoteSame rolls selects
    obtain ⟨_, rolledInner, unselected, _⟩ := session_rollFork_eq_ok active rolls
    obtain ⟨rfl, stillActive, txEnv⟩ := unselected inactive
    obtain ⟨issuedAfter, createdAfter, persistentSame, _, heldAfter⟩ :=
      rollFork_getFork issued created held rolledInner
    obtain ⟨_, old, _, prepared, switches⟩ := selectFork_eq_ok stillActive inactive selects
    obtain ⟨_, issuedAgain, createdAgain⟩ := switches.index
    cases issuedAfter.symm.trans issuedAgain
    cases createdAfter.symm.trans createdAgain
    cases heldAfter.symm.trans switches.enters
    have notCallerAfter : address ≠ rolled.txEnv.caller := txEnv ▸ notCaller
    have initialized := initializeCaller_sameAt notCallerAfter switches.initialized
    obtain ⟨uncached, overRemote⟩ := rolledDb_lookup other
    have otherAfter : address ∉ rolled.backend.inner.persistentAccounts := by
      rw [persistentSame]
      exact other
    have same := initialized.trans (entered_sameAt keccak old otherAfter notCallerAfter)
    refine ⟨_, switches.database, ?_⟩
    rw [switches.journaledState, readsRemote_iff (same.cache.trans uncached)
      ((same.remote.trans overRemote).trans remoteSame), same.journal]
  intro reply selected rolled remoteSame selects rolls
  obtain ⟨_, old, _, prepared, switches⟩ := selectFork_eq_ok active inactive selects
  obtain ⟨_, issuedAgain, createdAgain⟩ := switches.index
  cases issued.symm.trans issuedAgain
  cases created.symm.trans createdAgain
  cases held.symm.trans switches.enters
  have keeps := selectFork_keeps keccak precompiles session id
  rw [selects] at keeps
  obtain ⟨inner, rolledInner, _, rebuilt⟩ := session_rollFork_eq_ok switches.activeForkIds rolls
  obtain ⟨fork, heldRolled, backend, sameInner, initSame, journal, database⟩ := rebuilt rfl
  obtain ⟨_, _, persistentSame, callerSame, heldAfter⟩ :=
    rollFork_getFork ((congrArg (·.lookup id) keeps.issuedLocalForkIds).trans issued)
      ((congrArg (·.lookup forkId) keeps.createdForks).trans created)
      switches.fork rolledInner
  cases heldAfter.symm.trans heldRolled
  have otherSelected : address ∉ selected.backend.inner.persistentAccounts := by
    rw [keeps.persistentAccounts]
    exact other
  obtain ⟨uncached, overRemote⟩ := rolledDb_lookup otherSelected
  obtain ⟨info, answered⟩ := Option.isSome_iff_exists.mp answers
  refine ⟨_, database, ?_⟩
  rw [journal, ← switches.forkInitJournaledState, ← initSame]
  apply rolledFork_readsRemote_iff answered
  · rw [sameInner, persistentSame]
    exact otherSelected
  · rw [sameInner, callerSame, keeps.caller]
    exact notTestCaller
  · intro account found
    have same := (initializeCaller_sameAt notCaller switches.initialized).trans
      (entered_sameAt keccak old other notCaller)
    rw [switches.journaledState, same.journal] at found
    exact notCreated account found
  · exact uncached
  · exact overRemote.trans remoteSame

section Examples

open Watched

/-- The second fork is not active and was never active: either order reads
its remote balance at the new block. -/
theorem rollFork_selectFork_second_fork : (∃ db,
      ((twoForks.rollFork (some 1) (plainReply 'c' 20)).1.selectFork
        (fun _ => 0) [] 1).1.backend.database = some db ∧
      ReadsRemote (plainReply 'c' 20).remote 9
        ((twoForks.rollFork (some 1) (plainReply 'c' 20)).1.selectFork
          (fun _ => 0) [] 1).1.journaledState db) ∧
    ∃ db, ((twoForks.selectFork (fun _ => 0) [] 1).1.rollFork (some 1)
        (plainReply 'c' 20)).1.backend.database = some db ∧
      ReadsRemote (plainReply 'c' 20).remote 9
        ((twoForks.selectFork (fun _ => 0) [] 1).1.rollFork (some 1)
          (plainReply 'c' 20)).1.journaledState db := by
  obtain ⟨rolls, selects⟩ := rollFork_selectFork (fun _ => 0) [] twoForks 1 0
    1 0 ['b'] _ (plainReply 'c' 20).remote 9 (by decide +kernel) (by decide)
    (by decide +kernel) (by decide +kernel) rfl rfl (by decide +kernel)
    (by decide +kernel) (by decide +kernel) (by decide +kernel)
  constructor
  · obtain ⟨db, database, reads⟩ := rolls (plainReply 'c' 20) _ _ rfl
      (Prod.ext rfl (by decide +kernel)) (Prod.ext rfl (by decide +kernel))
    exact ⟨db, database, reads.mpr (by rintro account ⟨⟩)⟩
  · obtain ⟨db, database, reads⟩ := selects (plainReply 'c' 20) _ _ rfl
      (Prod.ext rfl (by decide +kernel)) (Prod.ext rfl (by decide +kernel))
    exact ⟨db, database, reads.mpr (by rintro account ⟨⟩)⟩

/-- Execution loads an account and changes its balance. -/
def Session.touchBalance (session : Session) (address : Address) (balance : U256) : Session :=
  { session with
    journaledState :=
      { session.journaledState with
        state := session.journaledState.state.insert address
          { Account.ofInfo { (default : AccountInfo) with
              balance := balance } with isTouched := true } } }

/-- The second fork with a changed account, left for the first one. -/
def touchedFork : Session :=
  (((twoForks.selectFork (fun _ => 0) [] 1).1.touchBalance 9 7).selectFork (fun _ => 0) [] 0).1

/-- The changed account survives a roll of its inactive fork, and does not
survive a roll after the fork was selected. -/
theorem rollFork_selectFork_keeps_touched_balance :
    ∃ rolled selected selectedFirst rolledAfter db dbAfter,
      touchedFork.rollFork (some 1) (plainReply 'c' 20) = (rolled, .ok ()) ∧
      rolled.selectFork (fun _ => 0) [] 1 = (selected, .ok ()) ∧
      touchedFork.selectFork (fun _ => 0) [] 1 = (selectedFirst, .ok ()) ∧
      selectedFirst.rollFork (some 1) (plainReply 'c' 20) = (rolledAfter, .ok ()) ∧
      touchedFork.backend.activeForkIds = some (0, 0) ∧
      9 ∉ touchedFork.backend.inner.persistentAccounts ∧
      touchedFork.txEnv.caller ≠ 9 ∧
      touchedFork.backend.inner.caller = none ∧
      selected.backend.database = some db ∧
      rolledAfter.backend.database = some dbAfter ∧
      (selected.journaledState.info db 9).balance = 7 ∧
      (rolledAfter.journaledState.info dbAfter 9).balance = 20 := by
  refine ⟨_, _, _, _, _, _, Prod.ext rfl ?_, Prod.ext rfl ?_,
    Prod.ext rfl ?_, Prod.ext rfl ?_, ?_, ?_, ?_, ?_, rfl, rfl, ?_, ?_⟩
  · decide +kernel
  · decide +kernel
  · decide +kernel
  · decide +kernel
  · decide +kernel
  · decide +kernel
  · decide +kernel
  · decide +kernel
  · decide +kernel
  · decide +kernel

end Examples

end SwissledgerFoundry.Forking
