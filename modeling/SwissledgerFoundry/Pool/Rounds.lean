import SwissledgerFoundry.Pool.Inner

/-!
# Submitting and dropping transactions

A transaction that requires nothing and provides what no other transaction
provides or waits for leaves no trace when it is submitted and dropped again.
-/

namespace SwissledgerFoundry.Pool

open List AList ReadyTransactions UInt64 Transition

/-- A transaction that has nothing to do with the others in the pool. -/
structure Isolated (pool : PoolInner) (tx : PoolTransaction) : Prop where
  requires : tx.requires = []
  provides : tx.provides = [toMarker tx.nonce tx.sender]
  unwaiting : tx.hash ∉ pool.pendingTransactions.waitingQueue
  unready : tx.hash ∉ pool.readyTransactions.readyTx
  unprovided : toMarker tx.nonce tx.sender ∉ pool.readyTransactions.providedMarkers
  unrequired : toMarker tx.nonce tx.sender ∉ pool.pendingTransactions.requiredMarkers

structure Passing (pool : PoolInner) (tx : PoolTransaction) : Prop extends Isolated pool tx where
  priority : ∀ ref ∈ pool.readyTransactions.independentTransactions,
    ref.transaction.priority ≠ tx.priority

namespace Isolated

variable {pool : PoolInner} {tx : PoolTransaction}

section

variable (pool : PoolInner) (tx : PoolTransaction)

def entry : ReadyTransaction where
  transaction := { transaction := tx, id := pool.readyTransactions.id }
  unlocks := []
  requiresOffset := 0

/-- The pool while it holds the transaction. -/
def submitted : PoolInner :=
  { pool with
    readyTransactions :=
      { id := pool.readyTransactions.id + 1
        providedMarkers := pool.readyTransactions.providedMarkers.insert
          (toMarker tx.nonce tx.sender) tx.hash
        readyTx := pool.readyTransactions.readyTx.insert tx.hash (entry pool tx)
        independentTransactions :=
          pool.readyTransactions.independentTransactions.insert (entry pool tx).transaction } }

end

def dropped (pool : PoolInner) (count : ℕ) : PoolInner :=
  { pool with
    readyTransactions :=
      { pool.readyTransactions with id := pool.readyTransactions.id + ofNat count } }

theorem addTransaction_ready {order : HashOrder} (isolated : Isolated pool tx) :
    pool.readyTransactions.addTransaction order { transaction := tx, missingMarkers := [] } =
      .ok ((submitted pool tx).readyTransactions, .ok []) := by
  have nobody : order.shuffle (tx.provides.filterMap
      (pool.readyTransactions.providedMarkers.lookup ·)).dedup = [] := by
    rw [isolated.provides, filterMap_cons, lookup_eq_none.mpr isolated.unprovided]
    exact perm_nil.mp (order.perm [])
  have replaced : pool.readyTransactions.replacedTransactions order tx =
      .ok (pool.readyTransactions, .ok ([], [])) := by
    simp only [replacedTransactions, nobody]
    rfl
  have inserted : pool.readyTransactions.insertReady tx [] =
      .ok (submitted pool tx).readyTransactions := by
    rw [insertReady, isolated.requires, isolated.provides]
    rfl
  rw [addTransaction, if_neg isolated.unready, replaced]
  simp only [Except.bind, inserted]
  rfl

theorem addTransaction_eq (isolated : Isolated pool tx) (order : HashOrder) :
    ∃ outcome, pool.addTransaction order tx = .ok (submitted pool tx, outcome) := by
  have marked : pool.pendingTransactions.markAndUnlock order tx.provides =
      .ok (pool.pendingTransactions, []) := by
    rw [PendingTransactions.markAndUnlock, isolated.provides]
    have nobody := lookup_eq_none.mpr isolated.unrequired
    simp only [foldlM_cons, foldlM_nil, nobody]
    rfl
  have complete : PendingPoolTransaction.new tx pool.readyTransactions.providedMarkers =
        { transaction := tx
          missingMarkers := [] } := by
    rw [PendingPoolTransaction.new, isolated.requires]
    rfl
  have absent : ¬ pool.contains tx.hash := by
    simp [PoolInner.contains, isolated.unready, isolated.unwaiting]
  have looped : ∀ fuel added, PoolInner.addReadyLoop order (fuel + 1) pool
      [{ transaction := tx, missingMarkers := [] }] true added =
        .ok (submitted pool tx, .ok added) := by
    intro fuel added
    simp only [PoolInner.addReadyLoop, marked, Except.bind,
      isolated.addTransaction_ready, append_nil, if_true]
    rfl
  rw [PoolInner.addTransaction, if_neg absent, complete]
  simp only [PoolInner.addReadyTransaction, looped, Except.bind]
  exact ⟨_, rfl⟩

end Isolated

variable {pool : PoolInner}

namespace Passing

open Isolated

theorem dropTransaction_eq {tx : PoolTransaction} (passing : Passing pool tx) :
    (submitted pool tx).dropTransaction tx.hash = .ok (dropped pool 1, some tx) := by
  have found : (submitted pool tx).readyTransactions.readyTx.lookup tx.hash =
      some (entry pool tx) := lookup_insert _
  have independent : (pool.readyTransactions.independentTransactions.insert
        (entry pool tx).transaction).remove (entry pool tx).transaction.key =
        pool.readyTransactions.independentTransactions := by
    apply BTreeSet.remove_insert
    intro ref member same
    apply passing.priority ref member
    exact congrArg (fun key => (ofLex key).1) same
  have removed : removeTransaction
      { (submitted pool tx).readyTransactions with
        readyTx := (submitted pool tx).readyTransactions.readyTx.erase tx.hash }
      none tx.hash (entry pool tx) = ((dropped pool 1).readyTransactions, true) := by
    have provides : (entry pool tx).tx.provides = [toMarker tx.nonce tx.sender] := passing.provides
    have requires : (entry pool tx).tx.requires = [] := passing.requires
    simp only [removeTransaction, provides, requires, Option.all_none,
      filter_true, foldl_nil, submitted, eraseAll,
      foldl_cons, erase_insert_of_notMem passing.unready,
      erase_insert_of_notMem passing.unprovided, independent]
    rfl
  have looped : (submitted pool tx).readyTransactions.removeWithMarkers
      [tx.hash] none = .ok ((dropped pool 1).readyTransactions, [tx]) := by
    rw [removeWithMarkers, length_singleton, Nat.add_comm]
    simp only [reverse_singleton, removeLoop, found, removed]
    change removeLoop none _ _ [] _ = _
    rw [removeLoop]
    rfl
  rw [PoolInner.dropTransaction, looped]
  simp [Except.map, dropped, submitted]

theorem later {tx : PoolTransaction} (passing : Passing pool tx) (count : ℕ) :
    Passing (dropped pool count) tx where
  toIsolated :=
    { requires := passing.requires
      provides := passing.provides
      unwaiting := passing.unwaiting
      unready := passing.unready
      unprovided := passing.unprovided
      unrequired := passing.unrequired }
  priority := passing.priority

end Passing

/-- Transactions are submitted and dropped, one after the other. -/
def rounds (order : HashOrder) (txs : List PoolTransaction) : List (HashOrder × Operation) :=
  txs.flatMap fun tx => [(order, .addTransaction tx), (order, .dropTransaction tx.hash)]

theorem submissions_rounds (order : HashOrder)
    (txs : List PoolTransaction) : submissions (rounds order txs) = txs := by
  induction txs with
  | nil => rfl
  | cons tx txs ih =>
    change tx :: submissions (rounds order txs) = tx :: txs
    rw [ih]

theorem run_rounds (order : HashOrder)
    {txs : List PoolTransaction} (passing : ∀ tx ∈ txs, Passing pool tx) :
    run step (.ok pool) (rounds order txs) = .ok (Isolated.dropped pool txs.length) := by
  induction txs generalizing pool with
  | nil =>
    change Except.ok pool = .ok (Isolated.dropped pool 0)
    simp [Isolated.dropped]
  | cons tx txs ih =>
    obtain ⟨first, rest⟩ := forall_mem_cons.mp passing
    obtain ⟨outcome, added⟩ := first.addTransaction_eq order
    have submitted : step (.ok pool) (order, .addTransaction tx) =
        .ok (Isolated.submitted pool tx) := by
      simp [step, apply, Except.bind, added, Except.map]
    have dropped : step (.ok (Isolated.submitted pool tx))
        (order, .dropTransaction tx.hash) = .ok (Isolated.dropped pool 1) := by
      simp [step, apply, Except.bind, first.dropTransaction_eq, Except.map]
    change run step (.ok pool)
      ((order, .addTransaction tx) :: (order, .dropTransaction tx.hash) :: rounds order txs) = _
    rw [run_cons, run_cons, submitted, dropped, ih fun tx member => (rest tx member).later 1]
    simp only [Isolated.dropped, length_cons, ofNat_add]
    rw [UInt64.add_assoc, UInt64.add_comm (UInt64.ofNat 1)]

end SwissledgerFoundry.Pool
