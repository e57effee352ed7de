import SwissledgerFoundry.Dump.State
import SwissledgerFoundry.Evm.Coherence

/-!
# Accounts survive a dump

Loading the records of a database into an empty one gives a database that no
read tells apart from the first, and the same records again.
-/

namespace SwissledgerFoundry.Dump

open List AList CacheDb

section Records

variable {iteration : IterationOrder} {db : CacheDb}

theorem lookup_dumpAccounts (address : Address) : (dumpAccounts iteration db).lookup address =
      (db.accounts.lookup address).map (accountRecord iteration db) := by
  rw [dumpAccounts, lookup_extend (nodupKeys_map_values _ (iteration.nodupKeys db.accounts)),
    dlookup_map_values, iteration.dlookup_order]
  simp

theorem accountRecord_storage (account : DbAccount) (slot : U256) :
    (accountRecord iteration db account).storage.lookup slot = account.storage.lookup slot := by
  rw [accountRecord, lookup_extend_order]
  simp

end Records

structure Loads (record : SerializableAccountRecord) (account : DbAccount) : Prop where
  balance : account.info.balance = record.balance
  nonce : account.info.nonce = record.nonce
  code : account.info.code = if record.code.isEmpty then none else some record.code
  codeHash : record.code.isEmpty → account.info.codeHash = keccakEmpty
  state : account.accountState = .none
  storage : ∀ slot, account.storage.lookup slot = record.storage.lookup slot

/-- The database while accounts are loaded into it. -/
structure Loading (db : CacheDb) : Prop where
  remote : ∃ blockHash, db.db = .empty blockHash
  emptyCode : db.contracts.lookup keccakEmpty = some []

section Account

variable {iteration : IterationOrder} {db : CacheDb}

variable {keccak : Bytes → B256}

theorem insertContract_contracts (info : AccountInfo) {codeHash : B256}
    {code : Bytes} (known : db.contracts.lookup codeHash = some code) :
    (db.insertContract keccak info).1.contracts.lookup codeHash = some code := by
  unfold insertContract
  dsimp only
  split
  · split
    · exact known
    rename_i added
    have other : codeHash ≠ (info.hashed keccak).codeHash := by
      intro same
      have present : codeHash ∈ db.contracts := by simp [← lookup_isSome, known]
      apply added
      rw [← same]
      simp [present]
    rw [lookup_insert_ne other, known]
  · exact known

theorem Loading.insertAccountInfo (loading : Loading db)
    (keccak : Bytes → B256) (address : Address) (info : AccountInfo) :
    Loading (db.insertAccountInfo keccak address info) where
  remote := (insertContract_frame keccak db info).2.symm ▸ loading.remote
  emptyCode := insertContract_contracts info loading.emptyCode

theorem recordInfo_codeHash {record : SerializableAccountRecord} (noCode : record.code.isEmpty) :
    ((recordInfo 0 record).hashed keccak).nonZero.codeHash = keccakEmpty := by
  have inline : (recordInfo 0 record).code = none := if_pos noCode
  rw [AccountInfo.hashed_of_none keccak inline, AccountInfo.nonZero]
  split <;> rfl

theorem loads_recordInfo (record : SerializableAccountRecord) : Loads record
      { (DbAccount.ofInfo default).update
          ((recordInfo 0 record).hashed keccak).nonZero with
        storage := extend ∅ (iteration.order record.storage) } where
  balance := by simp [DbAccount.update, recordInfo]
  nonce := by
    have larger : max 0 record.nonce = record.nonce := if_pos UInt64.zero_le
    simp [DbAccount.update, recordInfo, larger]
  code := by simp [DbAccount.update, recordInfo]
  codeHash := recordInfo_codeHash
  state := rfl
  storage slot := by
    rw [lookup_extend_order]
    simp

theorem loadAccount_spec {entry : Σ _ : Address, SerializableAccountRecord} (keccak : Bytes → B256)
    (iteration : IterationOrder) (loading : Loading db)
    (absent : db.accounts.lookup entry.1 = none) :
    let loaded := loadAccount keccak iteration db entry
    Loading loaded ∧
      (∃ account, loaded.accounts.lookup entry.1 = some account ∧ Loads entry.2 account) ∧
      ∀ probe, probe ≠ entry.1 → loaded.accounts.lookup probe = db.accounts.lookup probe := by
  have fresh : ((db.basic entry.1).map AccountInfo.nonce).getD 0 = 0 := by
    obtain ⟨blockHash, remote⟩ := loading.remote
    rw [basic_of_lookup_none absent, remote]
    rfl
  have accounts := insertAccountInfo_accounts keccak db entry.1 (recordInfo 0 entry.2)
  rw [absent] at accounts
  have found : (db.insertAccountInfo keccak entry.1
      (recordInfo 0 entry.2)).accounts.lookup entry.1 = _ :=
    accounts ▸ lookup_insert _
  obtain ⟨own, others, contracts, remote⟩ := foldl_insertAccountStorage
    (iteration.order entry.2.storage) found
  have inserted := loading.insertAccountInfo keccak entry.1 (recordInfo 0 entry.2)
  unfold loadAccount
  simp only [fresh]
  refine ⟨⟨remote ▸ inserted.remote, contracts ▸ inserted.emptyCode⟩,
    ⟨_, own, loads_recordInfo entry.2⟩, ?_⟩
  intro probe other
  rw [others probe other, accounts, lookup_insert_ne other]

end Account

section Accounts

variable (keccak : Bytes → B256) (iteration : IterationOrder)

/-- The accounts of `db` are those of `records`, apart from the ones that
`before` had. -/
structure Loaded (records : List (Σ _ : Address, SerializableAccountRecord))
    (before db : CacheDb) : Prop extends Loading db where
  own : ∀ {address record}, records.dlookup address = some record →
    ∃ account, db.accounts.lookup address = some account ∧ Loads record account
  others : ∀ {address}, records.dlookup address = none →
    db.accounts.lookup address = before.accounts.lookup address

theorem foldl_loadAccount (records : List (Σ _ : Address, SerializableAccountRecord))
    (nodup : records.NodupKeys) {db : CacheDb} (loading : Loading db)
    (absent : ∀ record ∈ records, db.accounts.lookup record.1 = none) :
    Loaded records db (records.foldl (loadAccount keccak iteration) db) := by
  induction records generalizing db with
  | nil =>
    exact { loading with
      own := fun found => by cases found
      others := fun _ => rfl }
  | cons entry records ih =>
    obtain ⟨fresh, nodup⟩ := nodupKeys_cons.mp nodup
    obtain ⟨loadingNext, ⟨account, found, loads⟩, unchanged⟩ :=
      loadAccount_spec keccak iteration loading (absent entry mem_cons_self)
    have loaded := ih nodup loadingNext (by
      intro record member
      have other : record.1 ≠ entry.1 := by
        intro same
        exact fresh (same ▸ mem_keys_of_mem member)
      rw [unchanged record.1 other]
      exact absent record (mem_cons_of_mem _ member))
    rw [foldl_cons]
    refine { loaded.toLoading with own := ?_, others := ?_ }
    · intro address record recorded
      by_cases same : address = entry.1
      · subst same
        rw [dlookup_cons_eq] at recorded
        cases recorded
        exact ⟨account, (loaded.others (dlookup_eq_none.mpr fresh)).trans found, loads⟩
      · rw [dlookup_cons_ne _ _ same] at recorded
        exact loaded.own recorded
    intro address missing
    have other : address ≠ entry.1 := by
      rintro rfl
      rw [dlookup_cons_eq] at missing
      cases missing
    rw [dlookup_cons_ne _ _ other] at missing
    rw [loaded.others missing, unchanged address other]

theorem loading_new (blockHash : U256 → B256) : Loading (new (.empty blockHash)) where
  remote := ⟨blockHash, rfl⟩
  emptyCode := by
    have other : keccakEmpty ≠ 0 := by decide
    exact (lookup_insert_ne other).trans (lookup_insert _)

theorem loaded_dumpAccounts (dumping : IterationOrder) (db : CacheDb) (blockHash : U256 → B256) :
    let loaded := loadAccounts keccak iteration (new (.empty blockHash)) (dumpAccounts dumping db)
    Loading loaded ∧ (∀ {address account}, db.accounts.lookup address = some account →
        ∃ copy, loaded.accounts.lookup address = some copy ∧
          Loads (accountRecord dumping db account) copy) ∧
      ∀ {address}, db.accounts.lookup address = none → loaded.accounts.lookup address = none := by
  have loaded := foldl_loadAccount keccak iteration (iteration.order (dumpAccounts dumping db))
    (iteration.nodupKeys _) (loading_new blockHash)
    (fun record _ => lookup_empty record.1)
  refine ⟨loaded.toLoading, ?_, ?_⟩
  · intro address account found
    apply loaded.own
    simp [iteration.dlookup_order, lookup_dumpAccounts, found]
  intro address missing
  refine (loaded.others ?_).trans (lookup_empty address)
  simp [iteration.dlookup_order, lookup_dumpAccounts, missing]

end Accounts

structure SerializableAccountRecord.Same (left right : SerializableAccountRecord) : Prop where
  nonce : left.nonce = right.nonce
  balance : left.balance = right.balance
  code : left.code = right.code
  storage : ∀ slot, left.storage.lookup slot = right.storage.lookup slot

section Reading

variable {db : CacheDb} {record : SerializableAccountRecord}
  {account : DbAccount}

/-- The code of a loaded account, which is inline unless it is empty. -/
theorem Loads.code_eq (loads : Loads record account) (loading : Loading db) :
    account.info.code.getD (db.codeByHash account.info.codeHash) = record.code := by
  rw [loads.code]
  by_cases noCode : record.code.isEmpty
  · rw [if_pos noCode, loads.codeHash noCode, codeByHash, loading.emptyCode]
    exact (isEmpty_iff.mp noCode).symm
  · rw [if_neg noCode, Option.getD_some]

theorem Loads.accountRecord_same (loads : Loads record account)
    (loading : Loading db) (iteration : IterationOrder) :
    (accountRecord iteration db account).Same record where
  nonce := loads.nonce
  balance := loads.balance
  code := loads.code_eq loading
  storage slot := (accountRecord_storage account slot).trans (loads.storage slot)

theorem code_of_found {address : Address} (inMemory : db.InMemory)
    (found : db.accounts.lookup address = some account) :
    db.code address = account.info.code.getD (db.codeByHash account.info.codeHash) := by
  unfold code
  rw [inMemory.basic found]
  cases inline : account.info.code with
  | none => simp only [inline, Option.getD_none]
  | some code => simp only [inline, Option.getD_some]

end Reading

section RoundTrip

variable (keccak : Bytes → B256) (dumping loadingOrder : IterationOrder)
  (db : CacheDb) (blockHash : U256 → B256)

theorem inMemory_loadAccounts : (loadAccounts keccak loadingOrder (new (.empty blockHash))
      (dumpAccounts dumping db)).InMemory := by
  obtain ⟨loading, own, others⟩ := loaded_dumpAccounts keccak loadingOrder dumping db blockHash
  refine ⟨?_, loading.remote⟩
  intro address account stored notExisting
  cases found : db.accounts.lookup address with
  | none => cases stored.symm.trans (others found)
  | some original =>
    obtain ⟨copy, copied, loads⟩ := own found
    cases stored.symm.trans copied
    cases notExisting.symm.trans loads.state

/-- No read tells the loaded accounts apart from the dumped ones. -/
theorem loadAccounts_same (inMemory : db.InMemory) :
    (loadAccounts keccak loadingOrder (new (.empty blockHash))
      (dumpAccounts dumping db)).Same db := by
  have loadedInMemory := inMemory_loadAccounts keccak dumping loadingOrder db blockHash
  obtain ⟨loading, own, others⟩ := loaded_dumpAccounts keccak loadingOrder dumping db blockHash
  apply inMemory.same loadedInMemory others
  intro address account found
  obtain ⟨copy, copied, loads⟩ := own found
  refine ⟨copy, copied, loads.balance, loads.nonce, ?_, ?_⟩
  · rw [code_of_found loadedInMemory copied, code_of_found inMemory found, loads.code_eq loading]
    rfl
  · intro slot
    rw [loads.storage slot, accountRecord_storage]

theorem dumpAccounts_loadAccounts (dumpingAgain : IterationOrder) (address : Address) :
    Option.Rel SerializableAccountRecord.Same
      ((dumpAccounts dumpingAgain (loadAccounts keccak loadingOrder (new (.empty blockHash))
        (dumpAccounts dumping db))).lookup address)
      ((dumpAccounts dumping db).lookup address) := by
  obtain ⟨loading, own, others⟩ := loaded_dumpAccounts keccak loadingOrder dumping db blockHash
  rw [lookup_dumpAccounts, lookup_dumpAccounts]
  cases found : db.accounts.lookup address with
  | none =>
    rw [others found]
    exact .none
  | some account =>
    obtain ⟨copy, copied, loads⟩ := own found
    rw [copied]
    exact .some (loads.accountRecord_same loading dumpingAgain)

end RoundTrip

end SwissledgerFoundry.Dump
