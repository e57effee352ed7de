import SwissledgerFoundry.Pool.Runs

/-!
# One waiting transaction for each nonce

A transaction that outbids a waiting one takes over its entry in the table of
waiting markers, but the other one stays in the queue.
-/

namespace SwissledgerFoundry.Pool

open PoolInner Transition

theorem PendingTransactions.Tracked.add {pending after : PendingTransactions}
    (tracked : pending.Tracked) {tx : PendingPoolTransaction}
    (adds : pending.Adds tx after)
    (absent : tx.transaction.hash ∉ pending.waitingQueue)
    (unrivalled : ∀ {hash other}, pending.waitingQueue.lookup hash = some other →
      other.transaction.provides ≠ tx.transaction.provides) :
    after.Tracked := by
  constructor
  intro provides hash
  rw [adds.queue, adds.markers, AList.lookup_insert_eq, AList.lookup_insert_eq]
  by_cases sameHash : hash = tx.transaction.hash
  · subst hash
    by_cases sameProvides : provides = tx.transaction.provides
    · simp [sameProvides]
    rw [if_pos rfl, if_neg sameProvides, tracked.named]
    constructor
    · rintro ⟨other, found, _⟩
      exact absurd (AList.mem_of_lookup found) absent
    rintro ⟨_, same, own⟩
    cases same
    exact absurd own.symm sameProvides
  by_cases sameProvides : provides = tx.transaction.provides
  · subst provides
    simp only [if_true, sameHash, if_false, Option.some.injEq]
    constructor
    · intro same
      exact absurd same.symm sameHash
    · rintro ⟨other, found, same⟩
      exact absurd same (unrivalled found)
  · rw [if_neg sameHash, if_neg sameProvides]
    exact tracked.named

/-- A submitted transaction that has to wait does not outbid a waiting one
with the same nonce and sender. -/
def Operation.Unrivalled (pool : PoolInner) : Operation → Prop
  | .addTransaction tx =>
    (∃ marker ∈ tx.requires, marker ∉ pool.readyTransactions.providedMarkers) →
    ∀ waiting ∈ pool.pendingTransactions.waitingQueue.values,
      waiting.transaction.provides = tx.provides →
      tx.maxFeePerGas ≤ waiting.transaction.maxFeePerGas
  | _ => True

instance (pool : PoolInner) : (operation : Operation) → Decidable (operation.Unrivalled pool)
  | .addTransaction _ => inferInstanceAs (Decidable (_ → _))
  | .pruneMarkers _ => .isTrue trivial
  | .removeInvalid _ => .isTrue trivial
  | .removeTransactionsByAddress _ => .isTrue trivial
  | .dropTransaction _ => .isTrue trivial
  | .clear => .isTrue trivial

namespace PoolInner

variable {pool after : PoolInner}

theorem keeping_tracked {budget : ℕ} : Keeping budget fun pool _ =>
    pool.pendingTransactions.Tracked where
  subset tracked _ := tracked
  promotes _ tracked promotes := promotes.pending.tracked tracked
  shrinks _ tracked _ _ tracks := tracks tracked

theorem Adds.tracked {budget : ℕ} {tx : PoolTransaction}
    {outcome : Except PoolError AddedTransaction} (adds : pool.Adds budget tx after outcome)
    (tracked : pool.pendingTransactions.Tracked)
    (unrivalled : (Operation.addTransaction tx).Unrivalled pool) :
    after.pendingTransactions.Tracked := by
  cases adds with
  | ready provided flying enqueues => exact keeping_tracked.enqueues enqueues flying tracked
  | waits unprovided unwaiting adds =>
    apply tracked.add adds unwaiting
    intro hash other found same
    have named := tracked.named.mpr ⟨other, found, same⟩
    have cheaper := adds.outbids named found
    have unbeaten := unrivalled unprovided other (AList.mem_values_iff.mpr ⟨hash, found⟩) same
    exact Nat.lt_irrefl _ (cheaper.trans_le unbeaten)
  | _ => exact tracked

variable {budget : ℕ}
  (invariant : pool.Invariant [] budget) (tracked : pool.pendingTransactions.Tracked)

include invariant tracked

/-- Every unrivalled operation keeps the table of waiting markers up to
date. -/
theorem Invariant.apply_tracked {order : HashOrder} {operation : Operation}
    (shaped : operation.Shaped)
    (unrivalled : operation.Unrivalled pool) :
    ∃ after, apply pool order operation = .ok after ∧
      after.Invariant [] (budget + additions [(order, operation)]) ∧
      after.pendingTransactions.Tracked := by
  apply keeping_tracked.apply_eq_ok invariant tracked order shaped
  · rintro tx after outcome rfl adds
    exact adds.tracked tracked unrivalled
  · rintro markers middle imported pruned rfl prunings
    exact (prunings.induction invariant
      (motive := fun middle _ _ => middle.pendingTransactions.Tracked)
      tracked fun _ _ prunes tracked => prunes.pending.tracked tracked).2
  · exact PendingTransactions.empty_tracked

/-- At most one transaction waits for each nonce and sender, the table of
waiting markers names it, and a new one is accepted only if it pays more. -/
structure OneWaiting (pool : PoolInner) : Prop where
  unique : ∀ {left right leftTx rightTx},
    pool.pendingTransactions.waitingQueue.lookup left = some leftTx →
    pool.pendingTransactions.waitingQueue.lookup right = some rightTx →
    leftTx.transaction.provides = rightTx.transaction.provides →
    left = right
  named : ∀ {provides hash}, pool.pendingTransactions.waitingMarkers.lookup provides = some hash ↔
    ∃ tx, pool.pendingTransactions.waitingQueue.lookup hash = some tx ∧
      tx.transaction.provides = provides
  outbids : ∀ {order tx after accepted}, RpcShaped tx →
    pool.addTransaction order tx = .ok (after, .ok (.pending accepted)) →
    ∀ {hash waiting}, pool.pendingTransactions.waitingQueue.lookup hash = some waiting →
      waiting.transaction.provides = tx.provides →
      waiting.transaction.maxFeePerGas < tx.maxFeePerGas

theorem Invariant.oneWaiting : pool.OneWaiting where
  unique := by
    intro left right leftTx rightTx leftFound rightFound same
    have leftNamed := tracked.named.mpr ⟨leftTx, leftFound, same⟩
    have rightNamed := tracked.named.mpr ⟨rightTx, rightFound, rfl⟩
    exact Option.some.inj (leftNamed.symm.trans rightNamed)
  named := tracked.named
  outbids := by
    intro order tx after accepted shaped returned hash waiting found same
    obtain ⟨_, _, added, adds, _⟩ := invariant.adds order shaped
    cases returned.symm.trans added
    generalize isPending : Except.ok (AddedTransaction.pending accepted) = outcome at adds
    cases adds with
    | ready provided flying enqueues =>
      subst isPending
      cases enqueues
    | waits unprovided unwaiting adds =>
      exact adds.outbids (tracked.named.mpr ⟨waiting, found, same⟩) found
    | _ => cases isPending

end PoolInner

/-- No operation of the run makes a transaction wait that outbids a waiting
one with the same nonce and sender. -/
def Unrivalled (state : Except Halt PoolInner) (action : HashOrder × Operation) : Prop :=
  action.2.Shaped ∧ ∀ pool, state = .ok pool → action.2.Unrivalled pool

instance (state : Except Halt PoolInner) (action : HashOrder × Operation) :
    Decidable (Unrivalled state action) :=
  @instDecidableAnd _ _ _ (Except.decidableForallOk _ _)

/-- In every run in which no waiting transaction is outbid by one that waits
as well, each nonce has at most one waiting transaction. -/
theorem run_oneWaiting (actions : List (HashOrder × Operation))
    (unrivalled : Transition.Along step Unrivalled (.ok .empty) actions) :
    ∀ reached, reached <+: actions → ∃ pool, run step (.ok .empty) reached = .ok pool ∧
        pool.OneWaiting := by
  intro reached shorter
  obtain ⟨pool, isReached, budget, invariant, tracked⟩ :=
    invariant_along (fun state => ∃ pool, state = .ok pool ∧ ∃ budget,
        pool.Invariant [] budget ∧ pool.pendingTransactions.Tracked)
      (by
        rintro _ action ⟨pool, rfl, budget, invariant, tracked⟩ allowed
        obtain ⟨after, applied, holds, tracks⟩ := invariant.apply_tracked tracked
          allowed.1 (allowed.2 pool rfl)
        exact ⟨after, applied, _, holds, tracks⟩)
      ⟨.empty, rfl, 0, empty_invariant,
        PendingTransactions.empty_tracked⟩ unrivalled reached shorter
  exact ⟨pool, isReached, invariant.oneWaiting tracked⟩

def underpricedRival : List (HashOrder × Operation) :=
  [(.asListed, .addTransaction (rpcTransaction 11 1 1 [toMarker 0 1] 9)),
    (.asListed, .addTransaction (rpcTransaction 12 1 1 [toMarker 0 1] 5)),
    (.asListed, .addTransaction (rpcTransaction 13 1 2 [toMarker 1 1] 5)),
    (.asListed, .addTransaction (rpcTransaction 10 1 0 [] 5)),
    (.asListed, .removeInvalid [13])]

theorem run_oneWaiting_underpriced :
    Transition.Along step Unrivalled (.ok .empty) underpricedRival ∧
      ∀ reached, reached <+: underpricedRival →
        ∃ pool, run step (.ok .empty) reached = .ok pool ∧ pool.OneWaiting := by
  have unrivalled : Transition.Along step Unrivalled (.ok .empty) underpricedRival := by
    decide +kernel
  exact ⟨unrivalled, run_oneWaiting _ unrivalled⟩

/-- A transaction is outbid while it waits and stays in the queue.  After the
other one was removed, a cheaper one is accepted. -/
theorem run_two_waiting : ∃ pool, run step (.ok .empty)
        [(.asListed, .addTransaction (rpcTransaction 11 1 1 [toMarker 0 1] 5)),
          (.asListed, .addTransaction (rpcTransaction 12 1 1 [toMarker 0 1] 9))] = .ok pool ∧
      (∃ first second, pool.pendingTransactions.waitingQueue.lookup 11 = some first ∧
        pool.pendingTransactions.waitingQueue.lookup 12 = some second ∧
        first.transaction.provides = second.transaction.provides ∧
        pool.pendingTransactions.waitingMarkers.lookup first.transaction.provides = some 12) ∧
      ∃ later, apply pool .asListed (.removeInvalid [12]) = .ok later ∧
        ∃ first, later.pendingTransactions.waitingQueue.lookup 11 = some first ∧
          first.transaction.maxFeePerGas = 5 ∧
          first.transaction.provides = [toMarker 1 1] ∧
          later.pendingTransactions.waitingMarkers.lookup first.transaction.provides = none ∧
          ∃ after, later.addTransaction .asListed (rpcTransaction 13 1 1 [toMarker 0 1] 3) =
            .ok (after, .ok (.pending 13)) := by
  refine ⟨_, rfl, ⟨_, _, rfl, rfl, rfl, ?_⟩, _, rfl, _, rfl, rfl, rfl, ?_, _, rfl⟩
  · decide +kernel
  · decide +kernel

end SwissledgerFoundry.Pool
