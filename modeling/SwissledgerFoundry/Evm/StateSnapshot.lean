import SwissledgerFoundry.Evm.CacheDb

/-!
# Moving a database into a snapshot and back

Clearing a database takes the code of an account out of the contracts; of
several accounts with one code hash only the first gets the code.  Filling the
database again puts the code back under its hash.
-/

namespace SwissledgerFoundry

open List AList

structure StateSnapshot where
  accounts : HashMap Address AccountInfo
  storage : HashMap Address (HashMap U256 U256)
  blockHashes : HashMap U256 B256

namespace CacheDb

/-- One round of `clear_into_state_snapshot`. -/
def moveAccount (moved : StateSnapshot × HashMap B256 Bytes) (entry : Σ _ : Address, DbAccount) :
    StateSnapshot × HashMap B256 Bytes :=
  let (snapshot, contracts) := moved
  let info := { entry.2.info with code := contracts.lookup entry.2.info.codeHash }
  ({ snapshot with
     storage := snapshot.storage.insert entry.1 entry.2.storage
     accounts := snapshot.accounts.insert entry.1 info },
    contracts.erase entry.2.info.codeHash)

section

variable (iteration : IterationOrder) (db : CacheDb)

def clearIntoStateSnapshot : StateSnapshot × CacheDb :=
  let (snapshot, contracts) :=
    (iteration.order db.accounts).foldl moveAccount
      ({ accounts := ∅, storage := ∅, blockHashes := db.blockHashes }, db.contracts)
  (snapshot,
    { db with accounts := ∅, contracts := contracts, blockHashes := ∅ })

def clear : CacheDb :=
  (db.clearIntoStateSnapshot iteration).2

end

/-- One round of `init_from_state_snapshot`. -/
def fillAccount (storage : HashMap Address (HashMap U256 U256))
    (db : CacheDb) (entry : Σ _ : Address, AccountInfo) : CacheDb :=
  { db with
    contracts :=
      match entry.2.code with
      | some code => db.contracts.insert entry.2.codeHash code
      | none => db.contracts
    accounts := db.accounts.insert entry.1
      { info := { entry.2 with code := none }
        accountState := .none
        storage := (storage.lookup entry.1).getD ∅ } }

def initFromStateSnapshot (iteration : IterationOrder) (db : CacheDb)
    (snapshot : StateSnapshot) : CacheDb :=
  { (iteration.order snapshot.accounts).foldl
      (fillAccount snapshot.storage) db with
    blockHashes := snapshot.blockHashes }

/-- A snapshot holds the accounts of a database, and together with what is left
of the database it holds the contracts. -/
structure Splits (db : CacheDb) (snapshot : StateSnapshot) (rest : CacheDb) : Prop where
  account : ∀ {address account}, db.accounts.lookup address = some account →
      ∃ code, snapshot.accounts.lookup address = some { account.info with code := code }
  storage : ∀ {address account}, db.accounts.lookup address = some account →
      snapshot.storage.lookup address = some account.storage
  absent : ∀ {address}, db.accounts.lookup address = none →
    snapshot.accounts.lookup address = none ∧ rest.accounts.lookup address = none
  code : ∀ {address info code}, snapshot.accounts.lookup address = some info →
      info.code = some code → db.contracts.lookup info.codeHash = some code
  contract : ∀ codeHash, rest.contracts.lookup codeHash = db.contracts.lookup codeHash ∨
      ∃ address info code, snapshot.accounts.lookup address = some info ∧
          info.codeHash = codeHash ∧ info.code = some code
  remaining : ∀ {codeHash code},
    rest.contracts.lookup codeHash = some code → db.contracts.lookup codeHash = some code
  remote : rest.db = db.db

section Clear

/-- What the rounds of `clear_into_state_snapshot` have moved. -/
structure Moved (entries : List (Σ _ : Address, DbAccount)) (contracts : HashMap B256 Bytes)
    (moved : StateSnapshot × HashMap B256 Bytes) : Prop where
  account : ∀ entry ∈ entries, ∃ code,
    moved.1.accounts.lookup entry.1 = some { entry.2.info with code := code }
  storage : ∀ entry ∈ entries, moved.1.storage.lookup entry.1 = some entry.2.storage
  absent : ∀ {address}, address ∉ entries.keys → moved.1.accounts.lookup address = none
  code : ∀ {address info code}, moved.1.accounts.lookup address = some info →
      info.code = some code → contracts.lookup info.codeHash = some code
  contract : ∀ codeHash, moved.2.lookup codeHash = contracts.lookup codeHash ∨
      moved.2.lookup codeHash = none ∧ ∃ address info code,
          moved.1.accounts.lookup address = some info ∧
            info.codeHash = codeHash ∧ info.code = some code

theorem Moved.nil (contracts : HashMap B256 Bytes) (blockHashes : HashMap U256 B256) :
    Moved [] contracts
      ({ accounts := ∅, storage := ∅, blockHashes := blockHashes }, contracts) where
  account _ member := absurd member not_mem_nil
  storage _ member := absurd member not_mem_nil
  absent _ := lookup_empty _
  code found := by cases found
  contract _ := .inl rfl

variable {moved : StateSnapshot × HashMap B256 Bytes}
  {entries : List (Σ _ : Address, DbAccount)} {contracts : HashMap B256 Bytes}

theorem Moved.snoc {entry : Σ _ : Address, DbAccount} (before : Moved entries contracts moved)
    (fresh : entry.1 ∉ entries.keys) :
    Moved (entries ++ [entry]) contracts (moveAccount moved entry) := by
  have different : ∀ other ∈ entries, other.1 ≠ entry.1 := by
    intro other member same
    exact fresh (same ▸ mem_keys_of_mem member)
  refine { account := ?_, storage := ?_, absent := ?_, code := ?_, contract := ?_ }
  · intro other member
    change ∃ code, (moved.1.accounts.insert _ _).lookup other.1 = _
    rcases mem_append.mp member with earlier | last
    · rw [lookup_insert_ne (different other earlier)]
      exact before.account other earlier
    · rw [mem_singleton.mp last, lookup_insert]
      exact ⟨_, rfl⟩
  · intro other member
    change (moved.1.storage.insert _ _).lookup other.1 = _
    rcases mem_append.mp member with earlier | last
    · rw [lookup_insert_ne (different other earlier)]
      exact before.storage other earlier
    · rw [mem_singleton.mp last, lookup_insert]
  · intro address absent
    have keys : (entries ++ [entry]).keys = entries.keys ++ [entry.1] := by simp [List.keys]
    rw [keys, mem_append, mem_singleton, not_or] at absent
    change (moved.1.accounts.insert _ _).lookup address = none
    rw [lookup_insert_ne absent.2]
    exact before.absent absent.1
  · intro address info code found inline
    change (moved.1.accounts.insert _ _).lookup address = _ at found
    obtain ⟨_, rfl⟩ | ⟨_, found⟩ := lookup_of_insert found
    · rcases before.contract entry.2.info.codeHash with kept | ⟨gone, _⟩
      · exact kept.symm.trans inline
      · simp [gone] at inline
    · exact before.code found inline
  intro codeHash
  change (moved.2.erase _).lookup codeHash = _ ∨ (moved.2.erase _).lookup codeHash = none ∧
      ∃ address info code, (moved.1.accounts.insert _ _).lookup address = some info ∧ _
  rw [lookup_erase_eq]
  -- an account that was moved before keeps its entry
  have earlier : ∀ {address info}, moved.1.accounts.lookup address = some info →
        (moved.1.accounts.insert entry.1
          { entry.2.info with code := moved.2.lookup entry.2.info.codeHash }).lookup
              address = some info := by
    intro address info found
    rw [lookup_insert_ne, found]
    rintro rfl
    simp [before.absent fresh] at found
  by_cases same : codeHash = entry.2.info.codeHash
  · subst same
    rw [if_pos rfl]
    rcases before.contract entry.2.info.codeHash with kept | taken
    · cases stored : contracts.lookup entry.2.info.codeHash with
      | none => exact .inl rfl
      | some code =>
        refine .inr ⟨rfl, entry.1, _, code, lookup_insert _, rfl, ?_⟩
        exact kept.trans stored
    · obtain ⟨_, address, info, code, found, rest⟩ := taken
      exact .inr ⟨rfl, address, info, code, earlier found, rest⟩
  rw [if_neg same]
  apply (before.contract codeHash).imp_right
  rintro ⟨gone, address, info, code, found, rest⟩
  exact ⟨gone, address, info, code, earlier found, rest⟩

theorem Moved.foldl (before : Moved entries contracts moved)
    (more : List (Σ _ : Address, DbAccount))
    (nodup : (entries ++ more).NodupKeys) :
    Moved (entries ++ more) contracts (more.foldl moveAccount moved) := by
  induction more generalizing entries moved with
  | nil =>
    rw [append_nil]
    exact before
  | cons entry more ih =>
    rw [append_cons] at nodup ⊢
    apply ih _ nodup
    apply before.snoc
    intro member
    rw [List.NodupKeys, List.keys, map_append, map_append] at nodup
    have apart := (nodup_append.mp nodup).1
    have distinct := (nodup_append.mp apart).2.2
    exact distinct _ member _ (by simp) rfl

theorem clearIntoStateSnapshot_splits (iteration : IterationOrder) (db : CacheDb) :
    db.Splits (db.clearIntoStateSnapshot iteration).1 (db.clearIntoStateSnapshot iteration).2 := by
  have moved := (Moved.nil db.contracts db.blockHashes).foldl
    (iteration.order db.accounts) (iteration.nodupKeys db.accounts)
  have visited : ∀ {address account}, db.accounts.lookup address = some account →
        ⟨address, account⟩ ∈ iteration.order db.accounts :=
    fun found => iteration.mem_order.mpr found
  refine
    { account := fun found => moved.account _ (visited found)
      storage := fun found => moved.storage _ (visited found)
      absent := ?_
      code := fun found inline => moved.code found inline
      contract := fun codeHash => (moved.contract codeHash).imp_right And.right
      remaining := ?_
      remote := rfl }
  · intro address absent
    refine ⟨moved.absent ?_, lookup_empty address⟩
    intro member
    obtain ⟨account, entry⟩ := exists_of_mem_keys member
    simp [iteration.mem_order.mp entry] at absent
  intro codeHash code found
  rcases moved.contract codeHash with kept | ⟨gone, _⟩
  · exact kept.symm.trans found
  · cases gone.symm.trans found

end Clear

/-- An account as `init_from_state_snapshot` leaves it. -/
def stripped (account : DbAccount) : DbAccount where
  info := { account.info with code := none }
  accountState := .none
  storage := account.storage

/-- A database that was moved into a snapshot and filled again. -/
structure Restored (db filled : CacheDb) : Prop where
  account : ∀ address, filled.accounts.lookup address = (db.accounts.lookup address).map stripped
  contract : ∀ codeHash, filled.contracts.lookup codeHash = db.contracts.lookup codeHash
  remote : filled.db = db.db

variable {address : Address}

section Fill

variable {storage : HashMap Address (HashMap U256 U256)}

theorem foldl_fillAccount_accounts
    {entries : List (Σ _ : Address, AccountInfo)} (nodup : entries.NodupKeys)
    (db : CacheDb) :
    (entries.foldl (fillAccount storage) db).accounts.lookup address =
      match entries.dlookup address with
      | some info => some
          { info := { info with code := none }
            accountState := .none
            storage := (storage.lookup address).getD ∅ }
      | none => db.accounts.lookup address := by
  induction entries generalizing db with
  | nil => rfl
  | cons entry entries ih =>
    obtain ⟨absent, nodup⟩ := nodupKeys_cons.mp nodup
    have first : (fillAccount storage db entry).accounts = db.accounts.insert entry.1
          { info := { entry.2 with code := none }
            accountState := .none
            storage := (storage.lookup entry.1).getD ∅ } := rfl
    rw [foldl_cons, ih nodup]
    by_cases same : address = entry.1
    · subst same
      rw [dlookup_eq_none.mpr absent, dlookup_cons_eq]
      exact lookup_insert _
    rw [dlookup_cons_ne _ _ same]
    cases entries.dlookup address with
    | none => exact lookup_insert_ne same
    | some info => rfl

theorem foldl_fillAccount_db (entries : List (Σ _ : Address, AccountInfo)) (db : CacheDb) :
    (entries.foldl (fillAccount storage) db).db = db.db := by
  induction entries generalizing db with
  | nil => rfl
  | cons entry entries ih =>
    rw [foldl_cons, ih]
    rfl

/-- A contract comes from an account of the snapshot, or no account brings one
and the old one stays. -/
theorem foldl_fillAccount_contracts (storage : HashMap Address (HashMap U256 U256))
    (entries : List (Σ _ : Address, AccountInfo)) (db : CacheDb)
    (codeHash : B256) :
    (∃ entry ∈ entries, ∃ code, entry.2.codeHash = codeHash ∧ entry.2.code = some code ∧
          (entries.foldl (fillAccount storage) db).contracts.lookup codeHash = some code) ∨
      (∀ entry ∈ entries, entry.2.codeHash = codeHash → entry.2.code = none) ∧
        (entries.foldl (fillAccount storage) db).contracts.lookup codeHash =
          db.contracts.lookup codeHash := by
  induction entries generalizing db with
  | nil =>
    right
    refine ⟨?_, rfl⟩
    nofun
  | cons entry entries ih =>
    rw [foldl_cons]
    rcases ih (fillAccount storage db entry) with later | kept
    · left
      obtain ⟨other, member, code, found⟩ := later
      exact ⟨other, mem_cons_of_mem entry member, code, found⟩
    obtain ⟨none, same⟩ := kept
    rw [same]
    have first : (fillAccount storage db entry).contracts =
        match entry.2.code with
        | some code => db.contracts.insert entry.2.codeHash code
        | .none => db.contracts := rfl
    by_cases here : entry.2.codeHash = codeHash
    · cases inline : entry.2.code with
      | none =>
        right
        rw [first, inline]
        exact ⟨forall_mem_cons.mpr ⟨fun _ => inline, none⟩, rfl⟩
      | some code =>
        left
        refine ⟨entry, mem_cons_self, code, here, inline, ?_⟩
        rw [first, inline, here]
        exact lookup_insert _
    right
    constructor
    · exact forall_mem_cons.mpr ⟨fun same => absurd same here, none⟩
    rw [first]
    cases entry.2.code with
    | none => rfl
    | some code => exact lookup_insert_ne (Ne.symm here)

variable {db rest : CacheDb} {snapshot : StateSnapshot}

section

variable (splits : db.Splits snapshot rest) (iteration : IterationOrder)

include splits

theorem Splits.lookup_initFromStateSnapshot {base : CacheDb}
    (empty : db.accounts.lookup address = none → base.accounts.lookup address = none) :
    (base.initFromStateSnapshot iteration snapshot).accounts.lookup address =
      (db.accounts.lookup address).map stripped := by
  change ((iteration.order snapshot.accounts).foldl _ base).accounts.lookup address = _
  rw [foldl_fillAccount_accounts (iteration.nodupKeys snapshot.accounts), iteration.dlookup_order]
  cases stored : db.accounts.lookup address with
  | none =>
    rw [(splits.absent stored).1]
    exact empty stored
  | some account =>
    obtain ⟨code, listed⟩ := splits.account stored
    rw [listed, splits.storage stored]
    rfl

theorem Splits.restored : db.Restored (rest.initFromStateSnapshot iteration snapshot) := by
  refine
    { account := fun _ =>
        splits.lookup_initFromStateSnapshot iteration fun absent => (splits.absent absent).2
      contract := ?_
      remote := (foldl_fillAccount_db _ rest).trans splits.remote }
  · intro codeHash
    change ((iteration.order snapshot.accounts).foldl _ rest).contracts.lookup codeHash = _
    rcases foldl_fillAccount_contracts snapshot.storage
      (iteration.order snapshot.accounts) rest codeHash with taken | kept
    · obtain ⟨entry, member, code, rfl, inline, found⟩ := taken
      rw [found, splits.code (iteration.mem_order.mp member) inline]
    obtain ⟨none, same⟩ := kept
    rw [same]
    rcases splits.contract codeHash with left | moved
    · exact left
    obtain ⟨address, info, code, found, hash, inline⟩ := moved
    have missing := none ⟨address, info⟩ (iteration.mem_order.mpr found) hash
    cases missing.symm.trans inline

theorem Splits.again : db.Splits snapshot (rest.initFromStateSnapshot iteration snapshot) := by
  have restored := splits.restored iteration
  refine
    { account := splits.account
      storage := splits.storage
      absent := ?_
      code := splits.code
      contract := fun codeHash => .inl (restored.contract codeHash)
      remaining := fun found => (restored.contract _).symm.trans found
      remote := restored.remote }
  intro address absent
  refine ⟨(splits.absent absent).1, ?_⟩
  simp [restored.account, absent]

end

end Fill

section Empty

/-- A cached account has this code hash. -/
def Holds (db : CacheDb) (codeHash : B256) : Prop :=
  ∃ address account, db.accounts.lookup address = some account ∧ account.info.codeHash = codeHash

/-- What a snapshot keeps of a cached account: it exists, its cleared storage is
not in the database below, and its code is found by its hash, among the
contracts or else in a new database. -/
structure Kept (db : CacheDb) (address : Address) (account : DbAccount) : Prop where
  existing : account.accountState ≠ .notExisting
  cleared : account.accountState = .storageCleared →
    ∀ slot ∉ account.storage, db.db.storage address slot = 0
  code : account.info.code.getD (db.codeByHash account.info.codeHash) =
    (db.contracts.lookup account.info.codeHash).getD
      ((new db.db).codeByHash account.info.codeHash)

/-- Of an account that is not cached: its code is inline, among the contracts
with a cached account that has its hash, or the one of a new database. -/
def Reached (db : CacheDb) (info : AccountInfo) : Prop :=
  info.code = none → (db.Holds info.codeHash ∧ info.codeHash ∈ db.contracts) ∨
    db.codeByHash info.codeHash = (new db.db).codeByHash info.codeHash

theorem foldl_moveAccount_contracts {codeHash : B256} {entries : List (Σ _ : Address, DbAccount)}
    (moved : StateSnapshot × HashMap B256 Bytes)
    (visited : moved.2.lookup codeHash = none ∨
      ∃ entry ∈ entries, entry.2.info.codeHash = codeHash) :
    (entries.foldl moveAccount moved).2.lookup codeHash = none := by
  induction entries generalizing moved with
  | nil => exact visited.resolve_right (by simp)
  | cons entry entries ih =>
    apply ih
    change (moved.2.erase _).lookup codeHash = none ∨ _
    rw [lookup_erase_eq]
    split
    · exact .inl rfl
    rename_i other
    rw [exists_mem_cons_iff] at visited
    exact visited.imp_right (Or.resolve_left · (Ne.symm other))

variable {db : CacheDb} (writing reading : IterationOrder)

/-- The empty database, filled from the snapshot of another one. -/
def refilled (db : CacheDb) (writing reading : IterationOrder) : CacheDb :=
  (new db.db).initFromStateSnapshot reading (db.clearIntoStateSnapshot writing).1

theorem refilled_codeByHash (db : CacheDb) (writing reading : IterationOrder) (codeHash : B256) :
    (¬ db.Holds codeHash → (db.refilled writing reading).codeByHash codeHash =
        (new db.db).codeByHash codeHash) ∧
      (db.Holds codeHash → (db.refilled writing reading).codeByHash codeHash =
        (db.contracts.lookup codeHash).getD ((new db.db).codeByHash codeHash)) := by
  have splits := clearIntoStateSnapshot_splits writing db
  have below : (db.refilled writing reading).db = db.db := foldl_fillAccount_db _ _
  rcases foldl_fillAccount_contracts (db.clearIntoStateSnapshot writing).1.storage
    (reading.order (db.clearIntoStateSnapshot writing).1.accounts) (new db.db)
    codeHash with ⟨⟨address, info⟩, member, code, rfl, inline, found⟩ | ⟨unlisted, kept⟩
  · have listed := reading.mem_order.mp member
    have holds : db.Holds info.codeHash := by
      cases cached : db.accounts.lookup address with
      | none => cases (splits.absent cached).1.symm.trans listed
      | some account =>
        obtain ⟨code, moved⟩ := splits.account cached
        obtain rfl := Option.some.inj (moved.symm.trans listed)
        exact ⟨address, account, cached, rfl⟩
    refine ⟨fun missing => absurd holds missing, fun _ => ?_⟩
    change (db.refilled writing reading).contracts.lookup _ = _ at found
    rw [codeByHash, splits.code listed inline, found]
    rfl
  change (db.refilled writing reading).contracts.lookup _ = (new db.db).contracts.lookup _ at kept
  have fresh : (db.refilled writing reading).codeByHash codeHash =
      (new db.db).codeByHash codeHash := by
    rw [codeByHash, codeByHash, kept, below]
    rfl
  refine ⟨fun _ => fresh, ?_⟩
  rintro ⟨address, account, cached, rfl⟩
  have gone : db.contracts.lookup account.info.codeHash = none := by
    rcases splits.contract account.info.codeHash with left | moved
    · rw [← left]
      exact foldl_moveAccount_contracts
        ({ accounts := ∅, storage := ∅, blockHashes := db.blockHashes }, db.contracts)
        (.inr ⟨⟨address, account⟩, writing.mem_order.mpr cached, rfl⟩)
    · obtain ⟨address, info, code, listed, hash, inline⟩ := moved
      cases (unlisted ⟨address, info⟩ (reading.mem_order.mpr listed) hash).symm.trans inline
  rw [fresh, gone]
  rfl

/-- What a reader of an address sees is the same in both databases. -/
structure ReadsAlike (left right : CacheDb) (address : Address) : Prop where
  existence : (left.basic address).isSome = (right.basic address).isSome
  balance : left.balance address = right.balance address
  nonce : left.nonce address = right.nonce address
  code : left.code address = right.code address
  storage : ∀ slot, left.storage address slot = right.storage address slot

theorem refilled_accounts (db : CacheDb) (writing reading : IterationOrder) (address : Address) :
    (db.refilled writing reading).accounts.lookup address =
      (db.accounts.lookup address).map stripped :=
  (clearIntoStateSnapshot_splits writing db).lookup_initFromStateSnapshot reading
    fun _ => lookup_empty address

theorem readsAlike_cached {account : DbAccount}
    (cached : db.accounts.lookup address = some account) :
    ReadsAlike (db.refilled writing reading) db address ↔ db.Kept address account := by
  have codes := (refilled_codeByHash db writing reading account.info.codeHash).2
    ⟨address, account, cached, rfl⟩
  have accounts := refilled_accounts db writing reading address
  rw [cached, Option.map_some] at accounts
  have below : (db.refilled writing reading).db = db.db := foldl_fillAccount_db _ _
  have filled : (db.refilled writing reading).basic address = (stripped account).info := by
    rw [basic, accounts]
    rfl
  have code : (db.refilled writing reading).code address =
      (db.contracts.lookup account.info.codeHash).getD
        ((new db.db).codeByHash account.info.codeHash) := by
    rw [CacheDb.code, filled]
    exact codes
  have own : account.accountState ≠ .notExisting → db.basic address = some account.info ∧
      db.code address = account.info.code.getD (db.codeByHash account.info.codeHash) := by
    intro existing
    have found : db.basic address = some account.info := by
      rw [basic, cached]
      change account.info? = _
      unfold DbAccount.info?
      split
      · exact absurd ‹_› existing
      · rfl
    refine ⟨found, ?_⟩
    rw [CacheDb.code, found, Option.getD_some]
    cases account.info.code <;> rfl
  have slots : ∀ slot, (db.refilled writing reading).storage address slot =
      (account.storage.lookup slot).getD (db.db.storage address slot) := by
    intro slot
    rw [storage, accounts, below]
    cases stored : account.storage.lookup slot <;> simp [stripped, stored]
  constructor
  · intro alike
    have existing : account.accountState ≠ .notExisting := by
      intro missing
      have same := alike.existence
      rw [filled, basic, cached] at same
      simp [DbAccount.info?, missing] at same
    refine ⟨existing, fun cleared slot absent => ?_, ?_⟩
    · have same := alike.storage slot
      rw [slots, storage, cached] at same
      simpa [cleared, lookup_eq_none.mpr absent] using same
    · rw [← (own existing).2, ← code]
      exact alike.code.symm
  rintro ⟨existing, cleared, inline⟩
  obtain ⟨found, ownCode⟩ := own existing
  refine ⟨?_, ?_, ?_, ?_, ?_⟩
  · rw [filled, found]
    rfl
  · rw [balance, balance, filled, found]
    rfl
  · rw [nonce, nonce, filled, found]
    rfl
  · rw [code, ownCode, inline]
  intro slot
  rw [slots, storage, cached]
  cases stored : account.storage.lookup slot with
  | some value => simp [stored]
  | none =>
    cases state : account.accountState with
    | notExisting => exact absurd state existing
    | storageCleared =>
      simpa [stored, state] using cleared state slot (lookup_eq_none.mp stored)
    | _ => simp [stored, state]

theorem readsAlike_uncached (uncached : db.accounts.lookup address = none) :
    ReadsAlike (db.refilled writing reading) db address ↔
      db.Reached ((db.db.basic address).getD default) := by
  have accounts := refilled_accounts db writing reading address
  rw [uncached, Option.map_none] at accounts
  have below : (db.refilled writing reading).db = db.db := foldl_fillAccount_db _ _
  have filled : (db.refilled writing reading).basic address = db.basic address := by
    rw [basic, basic, accounts, uncached, below]
  have found : db.basic address = db.db.basic address := by rw [basic, uncached]
  generalize known : (db.db.basic address).getD default = info
  have codes := refilled_codeByHash db writing reading info.codeHash
  have code : (db.refilled writing reading).code address = db.code address ↔ db.Reached info := by
    rw [CacheDb.code, CacheDb.code, filled, found, known]
    cases inline : info.code with
    | some code => simp [Reached, inline]
    | none =>
      simp only [Reached, inline, true_imp_iff]
      by_cases holds : db.Holds info.codeHash
      · rw [codes.2 holds]
        cases stored : db.contracts.lookup info.codeHash with
        | some code =>
          have member : info.codeHash ∈ db.contracts := lookup_isSome.mp (by rw [stored]; rfl)
          simp [codeByHash, stored, holds, member]
        | none =>
          have absent : info.codeHash ∉ db.contracts := lookup_eq_none.mp stored
          simp [absent, eq_comm]
      · rw [codes.1 holds]
        simp [holds, eq_comm]
  rw [← code]
  refine ⟨ReadsAlike.code, fun same => ⟨?_, ?_, ?_, same, fun slot => ?_⟩⟩
  · rw [filled]
  · rw [balance, balance, filled]
  · rw [nonce, nonce, filled]
  · rw [storage, storage, accounts, uncached, below]

/-- A database and the one that is filled from its snapshot read alike if and
only if the snapshot keeps every account. -/
theorem refilled_reads_alike_iff (db : CacheDb) (writing reading : IterationOrder) :
    (∀ address, ReadsAlike (db.refilled writing reading) db address) ↔
      (∀ address account, db.accounts.lookup address = some account → db.Kept address account) ∧
        ∀ address, db.accounts.lookup address = none →
          db.Reached ((db.db.basic address).getD default) := by
  constructor
  · intro alike
    exact ⟨fun address account cached =>
      (readsAlike_cached writing reading cached).mp (alike address), fun address uncached =>
      (readsAlike_uncached writing reading uncached).mp (alike address)⟩
  · rintro ⟨kept, reached⟩ address
    cases cached : db.accounts.lookup address with
    | none => exact (readsAlike_uncached writing reading cached).mpr (reached address cached)
    | some account =>
      exact (readsAlike_cached writing reading cached).mpr (kept address account cached)

/-- One account with inline code, over an empty database. -/
def inlineDb (contracts : HashMap B256 Bytes) (state : AccountState) : CacheDb :=
  { new (.empty fun _ => 0) with
    accounts := AList.insert 7
      { info := { balance := 3, nonce := 1, codeHash := 9, code := some [0x60] }
        accountState := state
        storage := ∅ } ∅
    contracts := contracts }

/-- An account that does not exist is there afterwards, and inline code that is
not among the contracts is lost. -/
theorem refilled_loses : (inlineDb ∅ .notExisting).basic 7 = none ∧
      ((inlineDb ∅ .notExisting).refilled .listed .listed).nonce 7 = 1 ∧
      (inlineDb ∅ .touched).code 7 = [0x60] ∧
      ((inlineDb ∅ .touched).refilled .listed .listed).code 7 = [] := by
  decide +kernel

end Empty

end CacheDb

end SwissledgerFoundry
