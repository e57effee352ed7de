import SwissledgerFoundry.Evm.Coherence

/-!
# Writing a recorded state into the live database

A rollback clears the live database and inserts the accounts of a recorded
state, but not its contracts.
-/

namespace SwissledgerFoundry.History

open List AList CacheDb

variable (keccak : Bytes → B256) (iteration : IterationOrder)

/-- The rounds of `rollback` that write one account. -/
def writeAccount (db : CacheDb) (entry : Σ _ : Address, DbAccount) : CacheDb :=
  (iteration.order entry.2.storage).foldl
    (fun db slot => db.insertAccountStorage entry.1 slot.1 slot.2)
    (db.insertAccountInfo keccak entry.1 entry.2.info)

/-- The last block of `rollback`, for the accounts of a recorded state. -/
def restoreState (live commonState : CacheDb) (blockHashes : List (ℕ × B256)) : CacheDb :=
  let db := (iteration.order commonState.accounts).foldl
    (writeAccount keccak iteration) (live.clear iteration)
  { db with
    blockHashes := blockHashes.foldl
      (fun hashes block => hashes.insert (BitVec.ofNat 256 block.1) block.2)
      db.blockHashes }

/-- An account of the live database that was written from a recorded one. -/
structure Written (account written : DbAccount) : Prop where
  info : written.info = (account.info.hashed keccak).nonZero
  storage : ∀ slot, written.storage.lookup slot = account.storage.lookup slot

section Write

variable {db : CacheDb}

theorem writeAccount_spec {entry : Σ _ : Address, DbAccount}
    (missing : db.accounts.lookup entry.1 = none) :
    (∃ written, (writeAccount keccak iteration db entry).accounts.lookup
        entry.1 = some written ∧ Written keccak entry.2 written) ∧
      ∀ other, other ≠ entry.1 → (writeAccount keccak iteration db entry).accounts.lookup other =
          db.accounts.lookup other := by
  have inserted := insertAccountInfo_accounts keccak db entry.1 entry.2.info
  rw [missing] at inserted
  have found : (db.insertAccountInfo keccak entry.1 entry.2.info).accounts.lookup entry.1 =
        some (DbAccount.update (.ofInfo default) (entry.2.info.hashed keccak).nonZero) := by
    rw [inserted]
    exact lookup_insert _
  obtain ⟨own, others, _⟩ := foldl_insertAccountStorage (iteration.order entry.2.storage) found
  constructor
  · refine ⟨_, own, rfl, ?_⟩
    intro slot
    have empty : (DbAccount.update (.ofInfo default)
        (entry.2.info.hashed keccak).nonZero).storage = ∅ := rfl
    rw [lookup_extend_order, empty, lookup_empty, Option.or_none]
  intro other different
  have untouched := others other different
  rw [inserted, lookup_insert_ne different] at untouched
  exact untouched

theorem foldl_writeAccount {entries : List (Σ _ : Address, DbAccount)} (nodup : entries.NodupKeys)
    (missing : ∀ entry ∈ entries, db.accounts.lookup entry.1 = none) :
    (∀ entry ∈ entries, ∃ written,
      (entries.foldl (writeAccount keccak iteration) db).accounts.lookup
        entry.1 = some written ∧ Written keccak entry.2 written) ∧
      ∀ address, address ∉ entries.keys →
        (entries.foldl (writeAccount keccak iteration) db).accounts.lookup
          address = db.accounts.lookup address := by
  induction entries generalizing db with
  | nil =>
    refine ⟨?_, fun _ _ => rfl⟩
    nofun
  | cons entry entries ih =>
    obtain ⟨fresh, nodup⟩ := nodupKeys_cons.mp nodup
    obtain ⟨⟨written, found, copied⟩, others⟩ :=
      writeAccount_spec keccak iteration (missing entry mem_cons_self)
    have different : ∀ other ∈ entries, other.1 ≠ entry.1 := by
      intro other member same
      exact fresh (same ▸ mem_keys_of_mem member)
    obtain ⟨later, kept⟩ := ih nodup (by
      intro other member
      rw [others other.1 (different other member)]
      exact missing other (mem_cons_of_mem entry member))
    rw [foldl_cons]
    constructor
    · exact forall_mem_cons.mpr ⟨⟨written, (kept _ fresh).trans found, copied⟩, later⟩
    intro address absent
    rw [keys_cons, mem_cons, not_or] at absent
    rw [kept address absent.2, others address absent.1]

end Write

section Coherence

variable {db : CacheDb} {table : CodeTable}

theorem coherent_foldl_insertAccountStorage {address : Address} (coherent : db.Coherent table)
    (slots : List (Σ _ : U256, U256)) :
    (slots.foldl (fun db slot => db.insertAccountStorage address slot.1 slot.2)
      db).Coherent table := by
  induction slots generalizing db with
  | nil => exact coherent
  | cons slot slots ih => exact ih (coherent.insertAccountStorage address slot.1 slot.2)

theorem coherent_foldl_writeAccount {entries : List (Σ _ : Address, DbAccount)}
    (coherent : db.Coherent table)
    (fits : ∀ entry ∈ entries, table.Fits keccak entry.2.info) :
    (entries.foldl (writeAccount keccak iteration) db).Coherent table := by
  induction entries generalizing db with
  | nil => exact coherent
  | cons entry entries ih =>
    apply ih
    · apply coherent_foldl_insertAccountStorage
      exact coherent.insertAccountInfo entry.1 (fits entry mem_cons_self)
    · intro other member
      exact fits other (mem_cons_of_mem entry member)

/-- Every account carries its code, or its hash is the one of no code. -/
def CarriesCode (table : CodeTable) (db : CacheDb) : Prop :=
  ∀ entry ∈ db.accounts.entries, entry.2.info.code.isSome ∨ table.code entry.2.info.codeHash = []

instance (table : CodeTable) (db : CacheDb) : Decidable (CarriesCode table db) :=
  List.decidableBAll _ _

end Coherence

variable {table : CodeTable} {live commonState : CacheDb}

theorem restoreState_coherent (liveCoherent : live.Coherent table)
    (coherent : commonState.Coherent table)
    (blockHashes : List (ℕ × B256)) :
    (restoreState keccak iteration live commonState blockHashes).Coherent
      table := by
  have written : ((iteration.order commonState.accounts).foldl
      (writeAccount keccak iteration) (live.clear iteration)).Coherent
        table := by
    apply coherent_foldl_writeAccount keccak iteration (liveCoherent.clear iteration)
    intro entry member
    exact (coherent.inline (iteration.mem_order.mp member)).fits keccak
  exact { written with }

/-- The live database reads as the recorded state, if that state carries its
code. -/
theorem restoreState_same (liveCoherent : live.Coherent table)
    (coherent : commonState.Coherent table)
    (carries : CarriesCode table commonState)
    (blockHashes : List (ℕ × B256)) :
    (restoreState keccak iteration live commonState blockHashes).Same
      commonState := by
  have after := restoreState_coherent keccak iteration liveCoherent coherent blockHashes
  have cleared : ∀ entry ∈ iteration.order commonState.accounts,
      (live.clear iteration).accounts.lookup entry.1 = none :=
    fun entry _ => lookup_empty entry.1
  obtain ⟨present, absent⟩ := foldl_writeAccount keccak iteration
    (iteration.nodupKeys commonState.accounts) cleared
  apply coherent.inMemory.same after.inMemory
  · intro address missing
    refine (absent address ?_).trans (lookup_empty address)
    intro member
    obtain ⟨account, entry⟩ := exists_of_mem_keys member
    cases (iteration.mem_order.mp entry).symm.trans missing
  intro address account found
  obtain ⟨written, stored, info, storage⟩ :=
    present ⟨address, account⟩ (iteration.mem_order.mpr found)
  refine ⟨written, stored, ?_, ?_, ?_, storage⟩
  · simp [info]
  · simp [info]
  rw [after.code_eq stored, coherent.code_eq found]
  cases inline : account.info.code with
  | some code =>
    have copied : written.info.code = some code := by
      rw [info, AccountInfo.nonZero_code, AccountInfo.hashed_code]
      exact inline
    rw [after.codeByHash_of_inline stored copied, coherent.codeByHash_of_inline found inline]
  | none =>
    have nil : table.code account.info.codeHash = [] := by
      rcases carries ⟨address, account⟩ (mem_lookup_iff.mp found) with carried | nil
      · simp [inline] at carried
      · exact nil
    rw [coherent.codeByHash_of_nil nil]
    apply after.codeByHash_of_nil
    rw [info, AccountInfo.hashed_of_none keccak inline]
    exact table.code_nonZero nil

end SwissledgerFoundry.History
