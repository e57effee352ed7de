import SwissledgerFoundry.Forking.Snapshots

/-!
# Persistent accounts across a fork switch

The storage of a persistent account is copied from both layers of the old fork
over those of the new one.  Its balance, nonce and code hash are copied only
with a journaled account or into a fork that does not hold the account yet.
-/

namespace SwissledgerFoundry.Forking

open Option List AList CacheDb Session

/-- The value of a slot in the journal, or else in the cache of the
database. -/
def cachedSlot (journal : JournaledState) (db : CacheDb) (address : Address)
    (key : U256) : Option U256 :=
  match (journal.state.lookup address).bind (·.storage.lookup key) with
  | some slot => some slot.presentValue
  | none => (db.accounts.lookup address).bind (·.storage.lookup key)

/-- The copy of an account that a fork holds: the one in its journal, or else
the one in the cache of its database.  A caller that is not in the journal enters
it with default data. -/
def Fork.copyOf (fork : Fork) (caller address : Address) : Option AccountInfo :=
  match fork.journaledState.state.lookup address with
  | some account => some account.info
  | none =>
    if address = caller then some default
    else (fork.db.accounts.lookup address).map fun account => account.info?.getD default

variable {address : Address}

section Load

variable {db : CacheDb}

theorem loadAccount_lookup :
    (db.loadAccount address).1.accounts.lookup address = some (db.loadAccount address).2 := by
  unfold loadAccount
  split
  · rename_i account found
    exact found
  · exact lookup_insert _

theorem loadAccount_lookup_ne {other : Address} (different : other ≠ address) :
    (db.loadAccount address).1.accounts.lookup other = db.accounts.lookup other := by
  unfold loadAccount
  split
  · rfl
  · exact lookup_insert_ne different

theorem loadAccount_db (db : CacheDb) (address : Address) :
    (db.loadAccount address).1.db = db.db := by
  unfold loadAccount
  split <;> rfl

theorem loadAccount_of_lookup {account : DbAccount}
    (found : db.accounts.lookup address = some account) :
    db.loadAccount address = (db, account) := by
  unfold loadAccount
  rw [found]

theorem loadAccount_congr {other : CacheDb}
    (entry : other.accounts.lookup address = db.accounts.lookup address)
    (remote : other.db = db.db) :
    (other.loadAccount address).2 = (db.loadAccount address).2 := by
  unfold loadAccount
  rw [entry, remote]
  cases db.accounts.lookup address <;> rfl

theorem loadAccount_info :
    ((db.loadAccount address).2.info?).getD default = (db.basic address).getD default := by
  unfold loadAccount basic
  cases db.accounts.lookup address with
  | some account => rfl
  | none => cases db.db.basic address <;> rfl

end Load

theorem lookup_refreshSlots {values : List (Σ _ : U256, U256)}
    (nodup : values.NodupKeys) (storage : HashMap U256 StorageSlot)
    (key : U256) :
    (refreshSlots values storage).lookup key = (storage.lookup key).map fun slot =>
        { slot with
          presentValue := (values.dlookup key).getD slot.presentValue } := by
  induction values generalizing storage with
  | nil =>
    change storage.lookup key = _
    cases storage.lookup key <;> rfl
  | cons entry values ih =>
    obtain ⟨absent, nodup⟩ := nodupKeys_cons.mp nodup
    rw [refreshSlots, foldl_cons, ← refreshSlots, ih nodup]
    by_cases same : key = entry.1
    · subst same
      rw [dlookup_eq_none.mpr absent, dlookup_cons_eq]
      cases found : storage.lookup entry.1 with
      | none => simp only [found, map_none]
      | some slot => simp only [lookup_insert, map_some, getD_none, getD_some]
    rw [dlookup_cons_ne _ _ same]
    cases found : storage.lookup entry.1 with
    | none => rfl
    | some slot => rw [lookup_insert_ne same]

section Refresh

/-- The journal agrees with the database on the slots of an account that both
hold. -/
def Fresh (account : DbAccount) (journal : JournaledState) (address : Address) : Prop :=
  ∀ journaled ∈ journal.state.lookup address, ∀ key value slot,
    account.storage.lookup key = some value →
      journaled.storage.lookup key = some slot → slot.presentValue = value

/-- The database of the old fork in the loop over the persistent accounts:
the account is loaded or still as it was. -/
def Loaded (base : CacheDb) (address : Address) (state : CacheDb × JournaledState) : Prop :=
  state.1.db = base.db ∧ (state.1.accounts.lookup address = base.accounts.lookup address ∨
      state.1.accounts.lookup address = some (base.loadAccount address).2)

variable {base : CacheDb} {address : Address}
  {state : CacheDb × JournaledState}

theorem Loaded.loadAccount (loaded : Loaded base address state) :
    (state.1.loadAccount address).2 = (base.loadAccount address).2 := by
  obtain ⟨remote, same | done⟩ := loaded
  · exact loadAccount_congr same remote
  · rw [loadAccount_of_lookup done]

theorem refreshAccount_fst {item : Address} :
    (refreshAccount state item).1 = (state.1.loadAccount item).1 := by
  unfold refreshAccount
  dsimp only
  split <;> rfl

theorem Loaded.refreshAccount (loaded : Loaded base address state) (item : Address) :
    Loaded base address (refreshAccount state item) := by
  rw [Loaded, refreshAccount_fst]
  constructor
  · rw [loadAccount_db]
    exact loaded.1
  by_cases same : address = item
  · subst same
    right
    rw [loadAccount_lookup, loaded.loadAccount]
  · rw [loadAccount_lookup_ne same]
    exact loaded.2

theorem refreshAccount_lookup_ne {item : Address} (different : address ≠ item) :
    (refreshAccount state item).2.state.lookup address = state.2.state.lookup address := by
  unfold refreshAccount
  dsimp only
  split
  · rfl
  · exact lookup_insert_ne different

theorem Loaded.refreshed (loaded : Loaded base address state) :
    Fresh (base.loadAccount address).2 (Forking.refreshAccount state address).2 address := by
  have own := loaded.loadAccount
  intro journaled found key value slot stored held
  unfold Forking.refreshAccount at found
  dsimp only at found
  split at found
  · rename_i missing
    simp [missing] at found
  rename_i account _
  rw [lookup_insert] at found
  cases found
  rw [lookup_refreshSlots (nodupKeys _), own, map_eq_some_iff] at held
  obtain ⟨old, _, rfl⟩ := held
  have value_eq : (base.loadAccount address).2.storage.entries.dlookup key = some value := stored
  simp [value_eq]

/-- The account is loaded in the old database, and the journal agrees. -/
def Refreshed (base : CacheDb) (address : Address) (state : CacheDb × JournaledState) : Prop :=
  state.1.accounts.lookup address = some (base.loadAccount address).2 ∧
    Fresh (base.loadAccount address).2 state.2 address

theorem Loaded.refreshes (loaded : Loaded base address state) :
    Refreshed base address (Forking.refreshAccount state address) := by
  refine ⟨?_, loaded.refreshed⟩
  rw [refreshAccount_fst, loadAccount_lookup, loaded.loadAccount]

variable {persistent : List Address}

theorem foldl_refreshAccount {journal : JournaledState} (member : address ∈ persistent) :
    Refreshed base address (persistent.foldl refreshAccount (base, journal)) := by
  have initial : Loaded base address (base, journal) := ⟨rfl, .inl rfl⟩
  apply foldl_establishes (Loaded base address) member initial
  · intro state item loaded
    exact loaded.refreshAccount item
  · intro state loaded
    exact loaded.refreshes
  intro state item loaded done
  by_cases same : address = item
  · subst same
    exact loaded.refreshes
  constructor
  · rw [refreshAccount_fst, loadAccount_lookup_ne same]
    exact done.1
  · rw [Fresh, refreshAccount_lookup_ne same]
    exact done.2

/-- Only the storage of a journaled account is refreshed. -/
theorem foldl_refreshAccount_info :
    ((persistent.foldl refreshAccount state).2.state.lookup address).map (·.info) =
      (state.2.state.lookup address).map (·.info) := by
  apply foldlRecOn (motive := fun after : CacheDb × JournaledState =>
    (after.2.state.lookup address).map (·.info) = (state.2.state.lookup address).map (·.info))
  · rfl
  intro middle same item _
  rw [← same]
  by_cases own : address = item
  · subst own
    unfold refreshAccount
    dsimp only
    split
    · rfl
    · rename_i account found
      rw [found, lookup_insert]
      rfl
  · rw [refreshAccount_lookup_ne own]

end Refresh

section Merge

variable {address item : Address} {active : CacheDb} {account : DbAccount}

variable {forkDb : CacheDb}

theorem mergeDbAccountData_lookup_ne (different : address ≠ item) :
    (mergeDbAccountData item active forkDb).accounts.lookup address =
      forkDb.accounts.lookup address := by
  unfold mergeDbAccountData
  split
  · rfl
  · exact lookup_insert_ne different

theorem mergeDbAccountData_lookup (found : active.accounts.lookup address = some account) :
    (mergeDbAccountData address active forkDb).accounts.lookup address =
      some (match forkDb.accounts.lookup address with
        | none => account
        | some forkAccount =>
          { forkAccount with
            storage := forkAccount.storage.extend account.storage.entries }) := by
  unfold mergeDbAccountData
  rw [found]
  exact lookup_insert _

/-- The fork has the values of all slots of the account. -/
def Covers (account : DbAccount) (db : CacheDb) (address : Address) : Prop :=
  ∃ merged, db.accounts.lookup address = some merged ∧
    ∀ key value, account.storage.lookup key = some value → merged.storage.lookup key = some value

theorem covers_merge (found : active.accounts.lookup address = some account) :
    Covers account (mergeDbAccountData address active forkDb) address := by
  refine ⟨_, mergeDbAccountData_lookup found, ?_⟩
  intro key value stored
  cases forkDb.accounts.lookup address with
  | none => exact stored
  | some forkAccount =>
    rw [lookup_extend (nodupKeys _)]
    change (account.storage.lookup key).or _ = _
    simp [stored]

variable {activeJournal journal : JournaledState} {journaled : Account}

theorem mergeJournaledStateData_lookup_ne (different : address ≠ item) :
    (mergeJournaledStateData item activeJournal journal).state.lookup address =
      journal.state.lookup address := by
  unfold mergeJournaledStateData
  split
  · rfl
  · exact lookup_insert_ne different

theorem mergeJournaledStateData_of_none (missing : activeJournal.state.lookup address = none) :
    mergeJournaledStateData address activeJournal journal = journal := by
  unfold mergeJournaledStateData
  rw [missing]

theorem mergeJournaledStateData_lookup
    (found : activeJournal.state.lookup address = some journaled) :
    (mergeJournaledStateData address activeJournal journal).state.lookup address =
      some (match journal.state.lookup address with
        | none => journaled
        | some forkAccount =>
          { journaled with
            storage := forkAccount.storage.extend journaled.storage.entries }) := by
  unfold mergeJournaledStateData
  rw [found]
  exact lookup_insert _

/-- One round of `merge_account_data`. -/
def mergeRound (active : CacheDb) (activeJournal : JournaledState)
    (fork : Fork) (item : Address) : Fork where
  db := mergeDbAccountData item active fork.db
  journaledState := mergeJournaledStateData item activeJournal fork.journaledState

/-- Slots that the old journal does not hold have the values of the old
database. -/
def Agrees (account : DbAccount) (activeJournal : JournaledState)
    (address : Address) (fork : Fork) : Prop :=
  ∀ merged ∈ fork.journaledState.state.lookup address,
    ∀ key value slot, account.storage.lookup key = some value →
      (activeJournal.state.lookup address).bind (·.storage.lookup key) = none →
      merged.storage.lookup key = some slot → slot.presentValue = value

/-- The fork took over the account from both layers. -/
structure TakenOver (account : DbAccount) (activeJournal : JournaledState)
    (address : Address) (fork : Fork) : Prop where
  covers : Covers account fork.db address
  journaled : ∀ journaled ∈ activeJournal.state.lookup address,
    ∃ merged, fork.journaledState.state.lookup address = some merged ∧
      merged.info = journaled.info ∧
      ∀ key slot, journaled.storage.lookup key = some slot → merged.storage.lookup key = some slot

variable {fork : Fork}

theorem Agrees.merge (agrees : Agrees account activeJournal address fork) (item : Address) :
    Agrees account activeJournal address (mergeRound active activeJournal fork item) := by
  intro merged found key value slot stored unheld held
  change (mergeJournaledStateData item activeJournal
    fork.journaledState).state.lookup address = some merged at found
  by_cases same : address = item
  · subst same
    cases journaled : activeJournal.state.lookup address with
    | none =>
      rw [mergeJournaledStateData_of_none journaled] at found
      exact agrees merged found key value slot stored unheld held
    | some source =>
      rw [mergeJournaledStateData_lookup journaled] at found
      have missing : source.storage.lookup key = none := by
        rw [journaled] at unheld
        exact unheld
      cases old : fork.journaledState.state.lookup address with
      | none =>
        rw [old] at found
        cases found
        simp [missing] at held
      | some forkAccount =>
        rw [old] at found
        cases found
        rw [lookup_extend (nodupKeys _)] at held
        change (source.storage.lookup key).or _ = _ at held
        rw [missing] at held
        exact agrees forkAccount old key value slot stored unheld held
  · rw [mergeJournaledStateData_lookup_ne same] at found
    exact agrees merged found key value slot stored unheld held

theorem takenOver_mergeRound (found : active.accounts.lookup address = some account) :
    TakenOver account activeJournal address (mergeRound active activeJournal fork address) where
  covers := covers_merge found
  journaled := by
    intro source journaled
    refine ⟨_, mergeJournaledStateData_lookup journaled, ?_, ?_⟩
    · cases fork.journaledState.state.lookup address <;> rfl
    intro key slot held
    cases fork.journaledState.state.lookup address with
    | none => exact held
    | some forkAccount =>
      rw [lookup_extend (nodupKeys _)]
      change (source.storage.lookup key).or _ = _
      simp [held]

theorem TakenOver.merge (taken : TakenOver account activeJournal address fork)
    (different : address ≠ item) :
    TakenOver account activeJournal address (mergeRound active activeJournal fork item) where
  covers := by
    unfold Covers mergeRound
    rw [mergeDbAccountData_lookup_ne different]
    exact taken.covers
  journaled := by
    unfold mergeRound
    rw [mergeJournaledStateData_lookup_ne different]
    exact taken.journaled

variable {accounts : List Address}

theorem mergeAccountData_takenOver (member : address ∈ accounts)
    (found : active.accounts.lookup address = some account)
    (agrees : Agrees account activeJournal address fork) :
    TakenOver account activeJournal address (mergeAccountData accounts active activeJournal fork) ∧
      Agrees account activeJournal address
        (mergeAccountData accounts active activeJournal fork) := by
  constructor
  · apply foldl_establishes (fun _ => True) member trivial
    · intro state other _
      trivial
    · intro state _
      exact takenOver_mergeRound found
    · intro state other _ taken
      by_cases same : address = other
      · subst same
        exact takenOver_mergeRound found
      · exact taken.merge same
  apply foldlRecOn (motive := Agrees account activeJournal address)
  · exact agrees
  · intro state holds other _
    exact holds.merge other

/-- The data with which both layers of the fork hold the account; what the cache
does not hold is taken from the given account. -/
structure HeldWith (account : DbAccount) (address : Address)
    (cached journaled : Option AccountInfo) (fork : Fork) : Prop where
  cache : ((fork.db.accounts.lookup address).getD account).info? = cached
  journal : (fork.journaledState.state.lookup address).map (·.info) = journaled

theorem mergeAccountData_heldWith {cached entered : Option AccountInfo}
    (found : active.accounts.lookup address = some account)
    (unjournaled : activeJournal.state.lookup address = none)
    (heldWith : HeldWith account address cached entered fork) :
    HeldWith account address cached entered
      (mergeAccountData accounts active activeJournal fork) := by
  have rounds : mergeAccountData accounts active activeJournal fork =
      accounts.foldl (mergeRound active activeJournal) fork := rfl
  rw [rounds]
  apply foldlRecOn (motive := HeldWith account address cached entered)
  · exact heldWith
  intro state holds other _
  unfold mergeRound
  by_cases same : address = other
  · subst same
    constructor
    · rw [mergeDbAccountData_lookup found, ← holds.cache]
      cases state.db.accounts.lookup address <;> rfl
    · rw [mergeJournaledStateData_of_none unjournaled]
      exact holds.journal
  constructor
  · rw [mergeDbAccountData_lookup_ne same]
    exact holds.cache
  · rw [mergeJournaledStateData_lookup_ne same]
    exact holds.journal

end Merge

variable {caller : Address}

section Caller

variable {fork : Fork}

/-- No layer of the fork changed for the account. -/
structure SameAt (address : Address) (before after : Fork) : Prop where
  journal : after.journaledState.state.lookup address = before.journaledState.state.lookup address
  cache : after.db.accounts.lookup address = before.db.accounts.lookup address
  remote : after.db.db = before.db.db

theorem SameAt.trans {first second third : Fork} (left : SameAt address first second)
    (right : SameAt address second third) :
    SameAt address first third :=
  ⟨right.journal.trans left.journal, right.cache.trans left.cache, right.remote.trans left.remote⟩

variable {keccak : Bytes → B256} {current : JournaledState}

theorem insertCaller_sameAt (different : address ≠ caller) :
    SameAt address fork (insertCaller keccak caller current fork) := by
  unfold insertCaller
  split
  · exact ⟨rfl, rfl, rfl⟩
  refine ⟨lookup_insert_ne different, ?_, ?_⟩
  all_goals
    dsimp only
    split
    · rfl
  · rw [insertAccountInfo_accounts, lookup_insert_ne different]
  · exact (insertContract_frame ..).2

theorem insertCaller_info (unheld : current.state.lookup address = none) :
    ((insertCaller keccak caller current fork).journaledState.state.lookup address).map (·.info) =
      ((fork.journaledState.state.lookup address).map (·.info)).or
        (if address = caller then some default else none) := by
  by_cases same : address = caller
  · subst same
    unfold insertCaller
    cases held : fork.journaledState.state.lookup address with
    | some account =>
      rw [held]
      rfl
    | none =>
      dsimp only
      rw [lookup_insert, unheld, if_pos rfl]
      rfl
  · rw [(insertCaller_sameAt same).journal, if_neg same, Option.or_none]

theorem insertCaller_agrees {activeJournal : JournaledState} {account : DbAccount}
    (agrees : Agrees account activeJournal address fork) :
    Agrees account activeJournal address (insertCaller keccak caller current fork) := by
  by_cases same : address = caller
  · subst same
    intro merged found key value slot stored unheld held
    unfold insertCaller at found
    split at found
    · exact agrees merged found key value slot stored unheld held
    rw [lookup_insert] at found
    cases found
    cases (lookup_empty key).symm.trans held
  intro merged found
  rw [(insertCaller_sameAt same).journal] at found
  exact agrees merged found

theorem initializeCaller_sameAt {callerAccount : Option Account} {prepared : Fork}
    (different : address ≠ caller)
    (initialized : initializeCaller caller callerAccount fork = (prepared, .ok ())) :
    SameAt address fork prepared := by
  unfold initializeCaller at initialized
  split at initialized
  · split at initialized
    · cases initialized
      exact ⟨rfl, rfl, rfl⟩
    · dsimp only at initialized
      split at initialized
      · cases initialized
      · cases initialized
        exact ⟨lookup_insert_ne different, loadAccount_lookup_ne different, loadAccount_db _ _⟩
  · cases initialized
    exact ⟨rfl, rfl, rfl⟩

end Caller

section Select

def Session.entered (keccak : Bytes → B256) (session : Session) (old target : Fork) : Fork :=
  let refreshed := session.backend.inner.persistentAccounts.foldl
    refreshAccount (old.db, target.journaledState)
  mergeAccountData session.backend.inner.persistentAccounts refreshed.1 session.journaledState
    (insertCaller keccak session.txEnv.caller session.journaledState
      { target with journaledState := { refreshed.2 with depth := session.journaledState.depth } })

structure Switches (keccak : Bytes → B256) (session : Session)
    (id : LocalForkId) (idx activeIdx : ℕ) (old target prepared : Fork)
    (after : Session) : Prop where
  index : ∃ forkId, session.backend.inner.issuedLocalForkIds.lookup id = some forkId ∧
      session.backend.inner.createdForks.lookup forkId = some idx
  different : idx ≠ activeIdx
  leaves : session.backend.inner.getFork activeIdx = some old
  enters : session.backend.inner.getFork idx = some target
  initialized : initializeCaller session.txEnv.caller
    (session.journaledState.state.lookup session.txEnv.caller) target = (prepared, .ok ())
  fork : after.backend.inner.getFork idx = some (session.entered keccak old prepared)
  activeForkIds : after.backend.activeForkIds = some (id, idx)
  journaledState : after.journaledState = (session.entered keccak old prepared).journaledState
  caller : after.txEnv.caller = session.txEnv.caller
  forkInitJournaledState : after.backend.forkInitJournaledState =
    session.backend.forkInitJournaledState

variable {keccak : Bytes → B256} {session after : Session} {activeIdx idx : ℕ}

theorem handOver_eq_ok {activeId : LocalForkId}
    (active : session.backend.activeForkIds = some (activeId, activeIdx))
    (handed : session.handOver keccak idx = .ok after) :
    ∃ old target, idx ≠ activeIdx ∧ session.backend.inner.getFork activeIdx = some old ∧
      session.backend.inner.getFork idx = some target ∧
      after.backend.inner.getFork idx = some (session.entered keccak old target) ∧
      after.journaledState = (session.entered keccak old target).journaledState ∧
      after.txEnv = session.txEnv ∧
      after.backend.forkInitJournaledState = session.backend.forkInitJournaledState := by
  unfold handOver at handed
  dsimp only at handed
  split at handed
  · cases handed
  rename_i target found
  rw [active] at handed
  dsimp only at handed
  split at handed
  · cases handed
  rename_i old oldFound
  have different : activeIdx ≠ idx := by
    rintro rfl
    simp [getFork_takeFork_self] at oldFound
  rw [getFork_takeFork_ne different] at oldFound
  cases handed
  refine ⟨old, target, Ne.symm different, oldFound, found, ?_, rfl, rfl, rfl⟩
  apply getFork_setFork
  have bound := lt_length_of_getFork found
  change idx < ((session.backend.inner.forks.set idx none).set activeIdx _).length
  rw [length_set, length_set]
  exact bound

variable {id : LocalForkId}

theorem selectFork_eq_ok {activeId : LocalForkId} {precompiles : List Address}
    (active : session.backend.activeForkIds = some (activeId, activeIdx))
    (inactive : id ≠ activeId)
    (selected : session.selectFork keccak precompiles id = (after, .ok ())) :
    ∃ idx old target prepared,
      Switches keccak session id idx activeIdx old target prepared after := by
  have other : ¬ session.backend.isActiveFork id := by
    unfold Backend.isActiveFork Backend.activeForkId
    rw [active]
    simpa using fun same => inactive (Eq.symm same)
  unfold selectFork at selected
  rw [if_neg other] at selected
  split at selected
  · cases selected
  rename_i backend updated
  obtain ⟨inner, activeSame, _, initSame⟩ := updateActiveBlock_inner updated
  dsimp only at selected
  split at selected
  · cases selected
  rename_i idx forkEvmEnv resolved
  obtain ⟨forkId, issued, created⟩ := resolve_eq_ok resolved
  rw [inner] at issued created
  split at selected
  · cases selected
  rename_i left leaves
  unfold leave at leaves
  dsimp only at leaves
  rw [activeSame, active, inner] at leaves
  dsimp only at leaves
  split at leaves
  · cases leaves
  rename_i old oldFound
  split at leaves
  · cases leaves
  rename_i target targetFound
  obtain ⟨rfl, initialized⟩ := Prod.mk.inj leaves
  split at selected
  · cases selected
  rename_i final handed
  obtain ⟨left, prepared, different, foundLeft, foundPrepared,
    entered, journal, txEnv, init⟩ := handOver_eq_ok rfl handed
  cases selected
  rw [getFork_setFork_ne different] at targetFound
  rw [getFork_setFork_ne (Ne.symm different),
    getFork_setFork (lt_length_of_getFork oldFound)] at foundLeft
  have bound : idx < (session.backend.inner.setFork activeIdx
      { old with
        journaledState :=
          session.journaledState }).forks.length := by
    change idx < (set _ _ _).length
    rw [length_set]
    exact lt_length_of_getFork targetFound
  rw [getFork_setFork bound] at foundPrepared
  cases foundLeft
  cases foundPrepared
  have callerSame : final.txEnv.caller = session.txEnv.caller := congrArg TxEnv.caller txEnv
  exact ⟨idx, old, target, _,
    { index := ⟨forkId, issued, created⟩
      different := different
      leaves := oldFound
      enters := targetFound
      initialized := Prod.ext rfl initialized
      fork := entered
      activeForkIds := rfl
      journaledState := journal
      caller := callerSame
      forkInitJournaledState := init.trans initSame }⟩

theorem Switches.database {old target prepared : Fork}
    (switches : Switches keccak session id idx activeIdx old target prepared after) :
    after.backend.database = some (session.entered keccak old prepared).db := by
  rw [Backend.database, switches.activeForkIds]
  exact congrArg (Option.map Fork.db) switches.fork

end Select

section Survive

variable {session : Session} {old : Fork} (keccak : Bytes → B256)

section

variable {address : Address}
  (target : Fork) (persistent : address ∈ session.backend.inner.persistentAccounts)

include persistent

theorem entered_takenOver : TakenOver (old.db.loadAccount address).2 session.journaledState address
        (session.entered keccak old target) ∧
      Agrees (old.db.loadAccount address).2 session.journaledState address
        (session.entered keccak old target) := by
  obtain ⟨loaded, fresh⟩ := foldl_refreshAccount persistent
  apply mergeAccountData_takenOver persistent loaded
  apply insertCaller_agrees
  intro merged found key value slot stored _ held
  exact fresh merged found key value slot stored held

theorem entered_cachedSlot {value : U256} {key : U256}
    (seen : cachedSlot session.journaledState old.db address key = some value) :
    cachedSlot (session.entered keccak old target).journaledState
      (session.entered keccak old target).db address key = some value := by
  obtain ⟨⟨⟨merged, stored, covered⟩, journaled⟩, agrees⟩ :=
    entered_takenOver keccak target persistent
  unfold cachedSlot at seen
  cases held : (session.journaledState.state.lookup address).bind (·.storage.lookup key) with
  | some slot =>
    rw [held] at seen
    cases seen
    obtain ⟨source, found, slotFound⟩ := bind_eq_some_iff.mp held
    obtain ⟨copy, copied, _, slots⟩ := journaled source found
    unfold cachedSlot
    rw [copied, bind_some, slots key slot slotFound]
  | none =>
    rw [held] at seen
    obtain ⟨account, found, valueFound⟩ := bind_eq_some_iff.mp seen
    have loaded : (old.db.loadAccount address).2.storage.lookup key = some value := by
      rw [loadAccount_of_lookup found]
      exact valueFound
    unfold cachedSlot
    cases after : ((session.entered keccak old
        target).journaledState.state.lookup address).bind (·.storage.lookup key) with
    | some slot =>
      obtain ⟨copy, copied, slotFound⟩ := bind_eq_some_iff.mp after
      exact congrArg some (agrees copy copied key value slot loaded held slotFound)
    | none =>
      rw [stored]
      exact covered key value loaded

end

variable {journal : JournaledState}

theorem info_of_journaled {account : Account}
    (found : journal.state.lookup address = some account) (db : CacheDb) :
    journal.info db address = account.info := by
  rw [JournaledState.info, found]

theorem info_of_unjournaled (missing : journal.state.lookup address = none) (db : CacheDb) :
    journal.info db address = (db.basic address).getD default := by
  rw [JournaledState.info, missing]

theorem HeldWith.info {account merged : DbAccount} {cached entered : Option AccountInfo}
    {fork : Fork} (heldWith : HeldWith account address cached entered fork)
    (stored : fork.db.accounts.lookup address = some merged) :
    fork.journaledState.info fork.db address = entered.getD (cached.getD default) := by
  rw [← heldWith.journal, ← heldWith.cache, stored]
  cases found : fork.journaledState.state.lookup address with
  | some account => rw [info_of_journaled found]; rfl
  | none =>
    rw [info_of_unjournaled found, basic, stored]
    rfl

theorem entered_info_of_journaled {source : Account} (target : Fork)
    (persistent : address ∈ session.backend.inner.persistentAccounts)
    (held : session.journaledState.state.lookup address = some source) :
    (session.entered keccak old target).journaledState.info
        (session.entered keccak old target).db address = source.info := by
  obtain ⟨copy, copied, same, _⟩ :=
    (entered_takenOver keccak target persistent).1.journaled source held
  rw [info_of_journaled copied, same]

/-- The data of an account that is not journaled is that of the copy in the new
fork, if there is one. -/
theorem entered_info_of_unjournaled (target : Fork)
    (persistent : address ∈ session.backend.inner.persistentAccounts)
    (held : session.journaledState.state.lookup address = none) :
    (session.entered keccak old target).journaledState.info
        (session.entered keccak old target).db address =
      (target.copyOf session.txEnv.caller address).getD
        (session.journaledState.info old.db address) := by
  obtain ⟨⟨merged, stored, _⟩, _⟩ := (@entered_takenOver session old keccak _ target persistent).1
  obtain ⟨loaded, _⟩ := @foldl_refreshAccount old.db address _ target.journaledState persistent
  obtain ⟨cached, fromTarget, heldWith⟩ : ∃ cached,
      (address ≠ session.txEnv.caller → cached =
        ((target.db.accounts.lookup address).getD (old.db.loadAccount address).2).info?) ∧
      HeldWith (old.db.loadAccount address).2 address cached
        (((target.journaledState.state.lookup address).map (·.info)).or
          (if address = session.txEnv.caller then some default else none))
        (session.entered keccak old target) := by
    refine ⟨_, ?_, mergeAccountData_heldWith loaded held ⟨rfl, ?_⟩⟩
    · intro notCaller
      rw [(insertCaller_sameAt notCaller).cache]
    · rw [insertCaller_info held]
      exact congrArg (Option.or · _) foldl_refreshAccount_info
  rw [heldWith.info stored, Fork.copyOf]
  cases target.journaledState.state.lookup address with
  | some account => rfl
  | none =>
    by_cases isCaller : address = session.txEnv.caller
    · rw [if_pos isCaller, if_pos isCaller]
      rfl
    rw [if_neg isCaller, if_neg isCaller, fromTarget isCaller]
    cases target.db.accounts.lookup address with
    | some account => rfl
    | none =>
      rw [info_of_unjournaled held, ← loadAccount_info]
      rfl

end Survive

/-- Balance, nonce and code hash. -/
def accountData (info : AccountInfo) : U256 × UInt64 × B256 :=
  (info.balance, info.nonce, info.codeHash)

theorem copyOf_initializeCaller {target prepared : Fork} {current : JournaledState}
    (unheld : current.state.lookup address = none)
    (initialized : initializeCaller caller (current.state.lookup caller) target =
      (prepared, .ok ())) :
    prepared.copyOf caller address = target.copyOf caller address := by
  by_cases isCaller : address = caller
  · subst isCaller
    rw [unheld] at initialized
    unfold initializeCaller at initialized
    split at initialized <;> cases initialized <;> rfl
  · have same := initializeCaller_sameAt isCaller initialized
    rw [Fork.copyOf, Fork.copyOf, same.journal, same.cache]

/-- After a switch from an active fork to another one, each slot of a
persistent account that the journal or the cache of the old fork held has its
value in the journal or the cache of the new fork.  Balance, nonce and code hash
are the same exactly if the account was in the journal, or the copy that the new
fork holds, if any, has them already. -/
theorem selectFork_persistent (keccak : Bytes → B256)
    (precompiles : List Address) (session after : Session)
    (id activeId : LocalForkId) (activeIdx : ℕ)
    (active : session.backend.activeForkIds = some (activeId, activeIdx))
    (inactive : id ≠ activeId)
    (selected : session.selectFork keccak precompiles id = (after, .ok ()))
    (address : Address)
    (persistent : address ∈ session.backend.inner.persistentAccounts) :
    ∃ idx old target db, session.backend.inner.getFork activeIdx = some old ∧
      session.backend.inner.getFork idx = some target ∧
      after.backend.activeForkIds = some (id, idx) ∧
      after.backend.database = some db ∧
      (∀ key value, cachedSlot session.journaledState old.db address key = some value →
        cachedSlot after.journaledState db address key = some value) ∧
      (accountData (after.journaledState.info db address) =
          accountData (session.journaledState.info old.db address) ↔
        address ∈ session.journaledState.state ∨
          ∀ copy ∈ target.copyOf session.txEnv.caller address,
            accountData copy = accountData (session.journaledState.info old.db address)) := by
  obtain ⟨idx, old, target, prepared, switches⟩ := selectFork_eq_ok active inactive selected
  refine ⟨idx, old, target, _, switches.leaves, switches.enters,
    switches.activeForkIds, switches.database, ?_, ?_⟩
  · intro key value seen
    rw [switches.journaledState]
    exact entered_cachedSlot keccak prepared persistent seen
  rw [switches.journaledState]
  cases held : session.journaledState.state.lookup address with
  | some source =>
    rw [entered_info_of_journaled keccak prepared persistent held, info_of_journaled held]
    exact iff_of_true rfl (.inl (mem_of_lookup held))
  | none =>
    rw [entered_info_of_unjournaled keccak prepared persistent held,
      copyOf_initializeCaller held switches.initialized, or_iff_right (lookup_eq_none.mp held)]
    cases target.copyOf session.txEnv.caller address with
    | none => simp
    | some copy => simp

section Examples

open Watched

def twoForks : Session :=
  (Transition.run (step (fun _ => 0) []) (start (fun _ => 0) plainEnv plainTx .new).session
    [.createFork (plainReply 'a' 1), .createFork (plainReply 'b' 2), .selectFork 0])

/-- The first switch copies the cheatcode account into the second fork, which
does not hold it before. -/
theorem selectFork_persistent_first_switch :
    ∃ old db, twoForks.backend.inner.getFork 0 = some old ∧
      (twoForks.selectFork (fun _ => 0) [] 1).1.backend.database = some db ∧
      (∀ key value, cachedSlot twoForks.journaledState old.db cheatcodeAddress key = some value →
          cachedSlot (twoForks.selectFork (fun _ => 0) [] 1).1.journaledState db
            cheatcodeAddress key = some value) ∧
      accountData ((twoForks.selectFork (fun _ => 0) [] 1).1.journaledState.info db
          cheatcodeAddress) =
        accountData (twoForks.journaledState.info old.db cheatcodeAddress) := by
  obtain ⟨idx, old, target, db, leaves, enters, entered, database, slots, data⟩ :=
    selectFork_persistent (fun _ => 0) [] twoForks _ 1 0 0 (by decide +kernel) (by decide)
      (Prod.ext rfl (by decide +kernel)) cheatcodeAddress (by decide +kernel)
  have second : idx = 1 := by
    have evaluated : (twoForks.selectFork (fun _ => 0) [] 1).1.backend.activeForkIds =
        some (1, 1) := by
      decide +kernel
    cases entered.symm.trans evaluated
    rfl
  subst second
  have uncopied : (twoForks.backend.inner.getFork 1).bind (fun target =>
      target.copyOf twoForks.txEnv.caller cheatcodeAddress) = none := by
    decide +kernel
  rw [enters] at uncopied
  refine ⟨old, db, leaves, database, slots, data.mpr (.inr ?_)⟩
  intro copy copied
  cases uncopied.symm.trans copied

/-- Writes a balance into the active database, as the end of a transaction
does. -/
def Session.commitBalance (session : Session) (address : Address) (balance : U256) : Session :=
  { session with
    backend := session.backend.setDatabase
      ((session.backend.database.getD session.backend.memDb).insertAccountInfo
        (fun _ => 0) address { (default : AccountInfo) with balance := balance }) }

/-- The second fork was active before and holds an older copy.  The account is
not in the journal when the fork is selected again: its new balance is lost. -/
theorem selectFork_keeps_stale_balance : ∃ session after old db,
      (Transition.run (Session.step (fun _ => 0) []) twoForks
        [.selectFork 1, .selectFork 0]).commitBalance cheatcodeAddress 7 = session ∧
      session.selectFork (fun _ => 0) [] 1 = (after, .ok ()) ∧
      cheatcodeAddress ∈ session.backend.inner.persistentAccounts ∧
      session.backend.database = some old ∧
      after.backend.database = some db ∧
      (session.journaledState.info old cheatcodeAddress).balance = 7 ∧
      (after.journaledState.info db cheatcodeAddress).balance = 1 := by
  refine ⟨_, _, _, _, rfl, Prod.ext rfl ?_, ?_, rfl, rfl, ?_, ?_⟩ <;> decide +kernel

end Examples

end SwissledgerFoundry.Forking
