import SwissledgerFoundry.Evm.StateSnapshot

/-!
# Codes and their hashes

In a database that was filled with matching codes and hashes, the contracts hold
the inline code of every account, and moving it into a snapshot and back changes
nothing that can be read.
-/

namespace SwissledgerFoundry

open List AList AccountInfo CacheDb Option DbAccount

/-- The code of each hash, as long as no two codes with one hash meet. -/
structure CodeTable where
  code : B256 → Bytes
  empty : code keccakEmpty = []
  zero : code 0 = []

def CodeTable.Fits (table : CodeTable) (keccak : Bytes → B256) (info : AccountInfo) : Prop :=
  ∀ code ∈ info.code, table.code (info.hashed keccak).nonZero.codeHash = code

instance (table : CodeTable) (keccak : Bytes → B256) (info : AccountInfo) :
    Decidable (table.Fits keccak info) :=
  inferInstanceAs (Decidable (∀ code ∈ info.code, _ = code))

namespace AccountInfo

variable (keccak : Bytes → B256) (info : AccountInfo)

@[simp] theorem hashed_balance : (info.hashed keccak).balance = info.balance := by
  unfold hashed
  split
  · split
    · rfl
    · rfl
  · rfl

@[simp] theorem hashed_nonce : (info.hashed keccak).nonce = info.nonce := by
  unfold hashed
  split
  · split
    · rfl
    · rfl
  · rfl

@[simp] theorem hashed_code : (info.hashed keccak).code = info.code := by
  unfold hashed
  split
  · split
    · rfl
    · rfl
  · rfl

theorem hashed_of_none {info : AccountInfo} (missing : info.code = none) :
    info.hashed keccak = info := by
  rw [hashed, missing]

@[simp] theorem nonZero_balance : info.nonZero.balance = info.balance := by
  unfold nonZero
  split <;> rfl

@[simp] theorem nonZero_nonce : info.nonZero.nonce = info.nonce := by
  unfold nonZero
  split <;> rfl

@[simp] theorem nonZero_code : info.nonZero.code = info.code := by
  unfold nonZero
  split <;> rfl

end AccountInfo

theorem DbAccount.update_accountState (account : DbAccount) (info : AccountInfo) :
    (account.update info).accountState ≠ .notExisting := by
  unfold update
  split
  · exact fun same => by cases same
  · assumption

theorem DbAccount.commit_accountState (dbAccount : DbAccount)
    (account : Account) (info : AccountInfo) :
    (dbAccount.commit account info).accountState ≠ .notExisting := by
  unfold commit
  split <;> exact fun same => by cases same

def CodeTable.Inline (table : CodeTable) (contracts : HashMap B256 Bytes)
    (info : AccountInfo) : Prop :=
  ∀ code ∈ info.code, table.code info.codeHash = code ∧ (code ≠ [] → info.codeHash ∈ contracts)

variable {info : AccountInfo}

theorem CodeTable.code_nonZero (table : CodeTable) (nil : table.code info.codeHash = []) :
    table.code info.nonZero.codeHash = [] := by
  unfold nonZero
  split
  · exact table.empty
  · exact nil

theorem CodeTable.inline_default (table : CodeTable)
    (contracts : HashMap B256 Bytes) : table.Inline contracts default := by
  intro code inline
  cases inline
  exact ⟨table.empty, fun nonempty => absurd rfl nonempty⟩

theorem CodeTable.Inline.fits {table : CodeTable} {contracts : HashMap B256 Bytes}
    (matching : table.Inline contracts info) (keccak : Bytes → B256) :
    table.Fits keccak info := by
  intro code inline
  obtain ⟨own, _⟩ := matching code inline
  have unchanged : info.hashed keccak = info := by
    unfold hashed
    split
    · rename_i other found
      cases found.symm.trans inline
      apply if_neg
      intro computed
      rw [Bool.and_eq_true, decide_eq_true_iff] at computed
      rw [computed.2, table.empty] at own
      subst own
      cases computed.1
    · rfl
  rw [unchanged, nonZero]
  split
  · rename_i zero
    rw [zero, table.zero] at own
    exact table.empty.trans own
  · exact own

namespace CacheDb

/-- Two databases that no read of an account tells apart. -/
structure Same (left right : CacheDb) : Prop where
  balance : ∀ address, left.balance address = right.balance address
  nonce : ∀ address, left.nonce address = right.nonce address
  code : ∀ address, left.code address = right.code address
  storage : ∀ address slot, left.storage address slot = right.storage address slot

theorem Same.refl (db : CacheDb) : db.Same db where
  balance _ := rfl
  nonce _ := rfl
  code _ := rfl
  storage _ _ := rfl

theorem Same.trans {first second third : CacheDb}
    (left : first.Same second) (right : second.Same third) :
    first.Same third where
  balance address := (left.balance address).trans (right.balance address)
  nonce address := (left.nonce address).trans (right.nonce address)
  code address := (left.code address).trans (right.code address)
  storage address slot := (left.storage address slot).trans (right.storage address slot)

/-- Nothing is read from elsewhere, and an account that does not exist has no
data. -/
structure InMemory (db : CacheDb) : Prop where
  unused : ∀ {address account}, db.accounts.lookup address = some account →
      account.accountState = .notExisting → account.info = default
  remote : ∃ blockHash, db.db = .empty blockHash

/-- The codes of an in-memory database match their hashes. -/
structure Coherent (table : CodeTable) (db : CacheDb) : Prop where
  contracts : ∀ {codeHash code},
    db.contracts.lookup codeHash = some code → table.code codeHash = code
  inline : ∀ {address account},
    db.accounts.lookup address = some account → table.Inline db.contracts account.info
  unused : ∀ {address account}, db.accounts.lookup address = some account →
      account.accountState = .notExisting → account.info = default
  remote : ∃ blockHash, db.db = .empty blockHash

section

variable {table : CodeTable} {db : CacheDb}

theorem coherent_new (table : CodeTable) (blockHash : U256 → B256) :
    (new (.empty blockHash)).Coherent table where
  contracts := by
    intro codeHash code found
    obtain ⟨rfl, rfl⟩ | ⟨_, found⟩ := lookup_of_insert found
    · exact table.zero
    obtain ⟨rfl, rfl⟩ | ⟨_, none⟩ := lookup_of_insert found
    · exact table.empty
    · cases none
  inline found := by cases (lookup_empty _).symm.trans found
  unused found := by cases (lookup_empty _).symm.trans found
  remote := ⟨blockHash, rfl⟩

variable {account : DbAccount}

theorem Coherent.insert (coherent : db.Coherent table) (address : Address)
    (matching : table.Inline db.contracts account.info)
    (unused : account.accountState = .notExisting → account.info = default) :
    { db with accounts := db.accounts.insert address account }.Coherent
      table where
  contracts := coherent.contracts
  inline := by
    intro other stored found
    obtain ⟨_, rfl⟩ | ⟨_, found⟩ := lookup_of_insert found
    · exact matching
    · exact coherent.inline found
  unused := by
    intro other stored found
    obtain ⟨_, rfl⟩ | ⟨_, found⟩ := lookup_of_insert found
    · exact unused
    · exact coherent.unused found
  remote := coherent.remote

variable {codeHash : B256}

theorem Coherent.register (coherent : db.Coherent table)
    {code : Bytes} (own : table.code codeHash = code) :
    { db with contracts := db.contracts.insert codeHash code }.Coherent
      table where
  contracts := by
    intro other stored found
    obtain ⟨rfl, rfl⟩ | ⟨_, found⟩ := lookup_of_insert found
    · exact own
    · exact coherent.contracts found
  inline := by
    intro address account found other inline
    obtain ⟨same, registered⟩ := coherent.inline found other inline
    exact ⟨same, fun nonempty => (mem_insert _).mpr (.inr (registered nonempty))⟩
  unused := coherent.unused
  remote := coherent.remote

section

variable (coherent : db.Coherent table)

include coherent

variable {keccak : Bytes → B256}

theorem Coherent.insertContract (fits : table.Fits keccak info) :
    (db.insertContract keccak info).1.Coherent table ∧
      table.Inline (db.insertContract keccak info).1.contracts
        (db.insertContract keccak info).2 := by
  unfold CacheDb.insertContract
  cases inline : info.code with
  | none =>
    simp only [hashed_code, inline]
    refine ⟨coherent, ?_⟩
    intro code other
    simp [nonZero_code, hashed_code, inline] at other
  | some code =>
    have own := fits code inline
    simp only [hashed_code, inline]
    by_cases empty : code = []
    · subst empty
      refine ⟨coherent, ?_⟩
      intro code other
      rw [nonZero_code, hashed_code, inline] at other
      cases other
      exact ⟨own, fun nonempty => absurd rfl nonempty⟩
    -- a code that is not empty does not have the hash zero
    have unchanged : (info.hashed keccak).nonZero = info.hashed keccak := by
      apply if_neg
      intro zero
      rw [nonZero, if_pos zero, table.empty] at own
      exact empty own.symm
    rw [unchanged] at own ⊢
    have filled : code.isEmpty = false := isEmpty_eq_false_iff.mpr empty
    rw [filled, Bool.false_or]
    by_cases registered : (info.hashed keccak).codeHash ∈ db.contracts
    · rw [if_pos (decide_eq_true registered)]
      refine ⟨coherent, ?_⟩
      intro other same
      rw [hashed_code, inline] at same
      cases same
      exact ⟨own, fun _ => registered⟩
    rw [if_neg (by simpa using registered)]
    refine ⟨coherent.register own, ?_⟩
    intro other same
    rw [hashed_code, inline] at same
    cases same
    exact ⟨own, fun _ => (mem_insert _).mpr (.inl rfl)⟩

section

variable (address : Address)

theorem Coherent.insertAccountInfo (fits : table.Fits keccak info) :
    (db.insertAccountInfo keccak address info).Coherent table := by
  obtain ⟨registered, matching⟩ := coherent.insertContract fits
  apply registered.insert address matching
  intro missing
  exact absurd missing (update_accountState _ _)

theorem Coherent.loadAccount : (db.loadAccount address).1.Coherent table ∧
      (db.loadAccount address).1.accounts.lookup address = some (db.loadAccount address).2 := by
  unfold CacheDb.loadAccount
  cases found : db.accounts.lookup address with
  | some account => exact ⟨coherent, found⟩
  | none =>
    obtain ⟨blockHash, remote⟩ := coherent.remote
    have basic : db.db.basic address = some default := by
      rw [remote]
      rfl
    simp only [basic]
    refine ⟨?_, lookup_insert _⟩
    exact coherent.insert address (table.inline_default _) (fun _ => rfl)

theorem Coherent.insertAccountStorage (slot value : U256) :
    (db.insertAccountStorage address slot value).Coherent table := by
  obtain ⟨loaded, found⟩ := coherent.loadAccount address
  unfold CacheDb.insertAccountStorage
  generalize db.loadAccount address = after at loaded found ⊢
  have matching := loaded.inline found
  have unused := loaded.unused found
  exact loaded.insert address matching unused

theorem Coherent.commitAccount {account : Account} (fits : table.Fits keccak account.info) :
    (db.commitAccount keccak address account).Coherent table := by
  unfold CacheDb.commitAccount
  split
  · exact coherent
  split
  · exact coherent.insert address (table.inline_default _) (fun _ => rfl)
  obtain ⟨registered, matching⟩ := coherent.insertContract fits
  apply registered.insert address matching
  intro missing
  exact absurd missing (commit_accountState _ _ _)

end

theorem Coherent.commit {changes : List (Address × Account)}
    (fits : ∀ change ∈ changes, table.Fits keccak change.2.info) :
    (db.commit keccak changes).Coherent table := by
  induction changes generalizing db with
  | nil => exact coherent
  | cons change changes ih =>
    have first := fits change mem_cons_self
    exact ih (coherent.commitAccount change.1 first) fun other later =>
      fits other (mem_cons_of_mem change later)

theorem Coherent.initFromStateSnapshot (iteration : IterationOrder) {snapshot : StateSnapshot}
    (fits : ∀ entry ∈ snapshot.accounts.entries, ∀ code ∈ entry.2.code,
      table.code entry.2.codeHash = code) :
    (db.initFromStateSnapshot iteration snapshot).Coherent table := by
  have filled : ∀ entries : List (Σ _ : Address, AccountInfo),
      (∀ entry ∈ entries, ∀ code ∈ entry.2.code, table.code entry.2.codeHash = code) →
      (entries.foldl (fillAccount snapshot.storage) db).Coherent table := by
    intro entries
    induction entries generalizing db with
    | nil => exact fun _ => coherent
    | cons entry entries ih =>
      intro matching
      apply ih
      · have own := matching entry mem_cons_self
        unfold fillAccount
        cases inline : entry.2.code with
        | none =>
          apply coherent.insert entry.1
          · exact fun code missing => by cases missing
          · exact fun missing => by cases missing
        | some code =>
          apply (coherent.register (own code inline)).insert entry.1
          · exact fun code missing => by cases missing
          · exact fun missing => by cases missing
      · intro other later
        exact matching other (mem_cons_of_mem entry later)
  have after := filled (iteration.order snapshot.accounts) (by
    intro entry member
    exact fits entry ((iteration.perm _).mem_iff.mp member))
  exact { after with }

theorem Coherent.clear (iteration : IterationOrder) : (db.clear iteration).Coherent table := by
  have splits := clearIntoStateSnapshot_splits iteration db
  refine
    { contracts := fun found => coherent.contracts (splits.remaining found)
      inline := ?_
      unused := ?_
      remote := splits.remote ▸ coherent.remote }
  · intro address account found
    cases (lookup_empty address).symm.trans found
  · intro address account found
    cases (lookup_empty address).symm.trans found

/-- A code that is looked up is the one of its hash, or it is missing. -/
theorem Coherent.codeByHash (codeHash : B256) : db.codeByHash codeHash = table.code codeHash ∨
      codeHash ∉ db.contracts ∧ db.codeByHash codeHash = [] := by
  unfold CacheDb.codeByHash
  cases found : db.contracts.lookup codeHash with
  | some code => exact .inl (coherent.contracts found).symm
  | none =>
    obtain ⟨blockHash, remote⟩ := coherent.remote
    refine .inr ⟨lookup_eq_none.mp found, ?_⟩
    rw [remote]
    rfl

theorem Coherent.codeByHash_of_nil (nil : table.code codeHash = []) :
    db.codeByHash codeHash = [] := by
  rcases coherent.codeByHash codeHash with own | missing
  · exact own.trans nil
  · exact missing.2

end

variable {address : Address}

theorem Coherent.codeByHash_of_inline (coherent : db.Coherent table)
    (found : db.accounts.lookup address = some account) {code : Bytes}
    (inline : account.info.code = some code) :
    db.codeByHash account.info.codeHash = code := by
  obtain ⟨own, registered⟩ := coherent.inline found code inline
  rcases coherent.codeByHash account.info.codeHash with same | missing
  · exact same.trans own
  by_cases nil : code = []
  · rw [nil]
    exact missing.2
  · exact absurd (registered nil) missing.1

theorem basic_of_lookup_none (missing : db.accounts.lookup address = none) :
    db.basic address = db.db.basic address := by
  rw [basic, missing]

section

variable (inMemory : db.InMemory)
  (found : db.accounts.lookup address = some account)

include inMemory found

theorem InMemory.basic : (db.basic address).getD default = account.info := by
  unfold CacheDb.basic info?
  rw [found]
  cases state : account.accountState with
  | notExisting =>
    simp only [state, getD_none]
    exact (inMemory.unused found state).symm
  | _ => simp only [state, getD_some]

theorem InMemory.storage_eq {slot : U256} :
    db.storage address slot = (account.storage.lookup slot).getD 0 := by
  obtain ⟨blockHash, remote⟩ := inMemory.remote
  unfold storage
  rw [found]
  cases written : account.storage.lookup slot with
  | some value => simp only [written, getD_some]
  | none =>
    simp only [written, remote, getD_none]
    cases account.accountState <;> rfl

theorem InMemory.balance_eq : db.balance address = account.info.balance := by
  rw [balance, inMemory.basic found]

theorem InMemory.nonce_eq : db.nonce address = account.info.nonce := by
  rw [nonce, inMemory.basic found]

end

variable {other : CacheDb}

theorem InMemory.same_of_absent (inMemory : db.InMemory) (otherInMemory : other.InMemory)
    (absent : db.accounts.lookup address = none)
    (otherAbsent : other.accounts.lookup address = none) :
    db.balance address = other.balance address ∧ db.nonce address = other.nonce address ∧
      db.code address = other.code address ∧
      ∀ slot, db.storage address slot = other.storage address slot := by
  obtain ⟨blockHash, remote⟩ := inMemory.remote
  obtain ⟨otherBlockHash, otherRemote⟩ := otherInMemory.remote
  have basic : db.basic address = some default := by
    rw [basic_of_lookup_none absent, remote]
    rfl
  have otherBasic : other.basic address = some default := by
    rw [basic_of_lookup_none otherAbsent, otherRemote]
    rfl
  refine ⟨?_, ?_, ?_, ?_⟩
  · rw [balance, balance, basic, otherBasic]
  · rw [nonce, nonce, basic, otherBasic]
  · rw [code, code, basic, otherBasic]
    rfl
  intro slot
  rw [storage, storage, absent, otherAbsent, remote, otherRemote]
  rfl

theorem InMemory.same (inMemory : db.InMemory) (otherInMemory : other.InMemory)
    (absent : ∀ {address}, db.accounts.lookup address = none → other.accounts.lookup address = none)
    (present : ∀ {address account}, db.accounts.lookup address = some account →
        ∃ copy, other.accounts.lookup address = some copy ∧
          copy.info.balance = account.info.balance ∧
          copy.info.nonce = account.info.nonce ∧
          other.code address = db.code address ∧
          ∀ slot, copy.storage.lookup slot = account.storage.lookup slot) :
    other.Same db := by
  have each : ∀ address, other.balance address = db.balance address ∧
      other.nonce address = db.nonce address ∧
      other.code address = db.code address ∧
      ∀ slot, other.storage address slot = db.storage address slot := by
    intro address
    cases found : db.accounts.lookup address with
    | none => exact otherInMemory.same_of_absent inMemory (absent found) found
    | some account =>
      obtain ⟨copy, copied, balance, nonce, code, storage⟩ := present found
      refine ⟨?_, ?_, code, ?_⟩
      · rw [otherInMemory.balance_eq copied, inMemory.balance_eq found, balance]
      · rw [otherInMemory.nonce_eq copied, inMemory.nonce_eq found, nonce]
      · intro slot
        rw [otherInMemory.storage_eq copied, inMemory.storage_eq found, storage]
  exact
    { balance := fun address => (each address).1
      nonce := fun address => (each address).2.1
      code := fun address => (each address).2.2.1
      storage := fun address => (each address).2.2.2 }

theorem Coherent.inMemory (coherent : db.Coherent table) : db.InMemory where
  unused := coherent.unused
  remote := coherent.remote

theorem Coherent.code_eq (coherent : db.Coherent table)
    (found : db.accounts.lookup address = some account) :
    db.code address = db.codeByHash account.info.codeHash := by
  unfold code
  rw [coherent.inMemory.basic found]
  cases inline : account.info.code with
  | none => simp only [inline]
  | some code =>
    simp only [inline]
    exact (coherent.codeByHash_of_inline found inline).symm

variable {filled : CacheDb}

theorem Restored.coherent (restored : db.Restored filled)
    (coherent : db.Coherent table) : filled.Coherent table where
  contracts found := coherent.contracts ((restored.contract _).symm.trans found)
  inline := by
    intro address account found code inline
    rw [restored.account, map_eq_some_iff] at found
    obtain ⟨original, _, rfl⟩ := found
    cases inline
  unused := by
    intro address account found missing
    rw [restored.account, map_eq_some_iff] at found
    obtain ⟨original, _, rfl⟩ := found
    cases missing
  remote := restored.remote ▸ coherent.remote

theorem Restored.same (restored : db.Restored filled)
    (coherent : db.Coherent table) : filled.Same db := by
  have filledCoherent := restored.coherent coherent
  apply coherent.inMemory.same filledCoherent.inMemory
  · intro address absent
    simp [restored.account, absent]
  intro address account found
  have copied : filled.accounts.lookup address = some (stripped account) := by
    rw [restored.account, found]
    rfl
  refine ⟨_, copied, rfl, rfl, ?_, fun _ => rfl⟩
  rw [filledCoherent.code_eq copied, coherent.code_eq found]
  unfold codeByHash
  rw [restored.contract, restored.remote]
  rfl

end

theorem foldl_insertAccountStorage {address : Address} (slots : List (Σ _ : U256, U256))
    {db : CacheDb} {account : DbAccount}
    (found : db.accounts.lookup address = some account) :
    let filled := slots.foldl (fun db slot => db.insertAccountStorage address slot.1 slot.2) db
    filled.accounts.lookup address = some { account with storage := account.storage.extend slots } ∧
      (∀ probe, probe ≠ address → filled.accounts.lookup probe = db.accounts.lookup probe) ∧
      filled.contracts = db.contracts ∧ filled.db = db.db := by
  induction slots generalizing db account with
  | nil => exact ⟨found, fun _ _ => rfl, rfl, rfl⟩
  | cons slot slots ih =>
    have step : db.insertAccountStorage address slot.1 slot.2 =
        { db with
          accounts := db.accounts.insert address { account with
            storage := account.storage.insert slot.1 slot.2 } } := by
      simp only [insertAccountStorage, loadAccount, found]
    have written : { db with
        accounts := db.accounts.insert address { account with
          storage := account.storage.insert slot.1 slot.2 }
        }.accounts.lookup address = _ := lookup_insert _
    obtain ⟨own, others, contracts, remote⟩ := ih written
    rw [foldl_cons, step]
    refine ⟨own, ?_, contracts, remote⟩
    intro probe other
    exact (others probe other).trans (lookup_insert_ne other)

end CacheDb

end SwissledgerFoundry
