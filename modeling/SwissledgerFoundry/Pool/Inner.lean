import SwissledgerFoundry.Collections.Transition
import SwissledgerFoundry.Pool.Transactions

/-!
# The transaction pool

The operations of the pool on its two queues.  Adding a transaction to the
ready queue promotes the transactions that waited for its markers.  A marker
encodes a nonce and a sender.
-/

namespace SwissledgerFoundry.Pool

open Prod

/-- What happened when a transaction was added to the ready queue: the
promoted and the discarded waiting transactions, and the replaced ready
ones. -/
structure AddedReady where
  hash : TxHash
  promoted : List TxHash
  discarded : List TxHash
  removed : List PoolTransaction
deriving DecidableEq, Repr

inductive AddedTransaction where
  | ready (added : AddedReady)
  | pending (hash : TxHash)
deriving DecidableEq, Repr

structure PruneResult where
  promoted : List AddedTransaction
  failed : List TxHash
  pruned : List PoolTransaction
deriving DecidableEq, Repr

structure PoolInner where
  readyTransactions : ReadyTransactions
  pendingTransactions : PendingTransactions

namespace PoolInner

def empty : PoolInner where
  readyTransactions := .empty
  pendingTransactions := .empty

def clear (pool : PoolInner) : PoolInner where
  readyTransactions := pool.readyTransactions.clear
  pendingTransactions := .empty

def contains (pool : PoolInner) (hash : TxHash) : Bool :=
  hash ∈ pool.pendingTransactions.waitingQueue ∨ hash ∈ pool.readyTransactions.readyTx

section

variable (order : HashOrder)

/-- The loop of `add_ready_transaction`.  Every transaction of the queue but
the first left the waiting queue, which bounds the number of rounds. -/
def addReadyLoop : ℕ → PoolInner → List PendingPoolTransaction → Bool → AddedReady →
      Except Halt (PoolInner × Except PoolError AddedReady)
  | _, pool, [], _, ready => .ok (pool, .ok ready)
  | 0, _, _ :: _, _, _ => .error .outOfFuel
  | fuel + 1, pool, currentTx :: txQueue, isNewTx, ready =>
    (pool.pendingTransactions.markAndUnlock order
      currentTx.transaction.provides).bind fun (pending, unlocked) =>
    (pool.readyTransactions.addTransaction order currentTx).bind fun (readyTransactions, added) =>
        let pool := { readyTransactions := readyTransactions, pendingTransactions := pending }
        let currentHash := currentTx.transaction.hash
        match added with
        | .ok replacedTransactions =>
          addReadyLoop fuel pool (txQueue ++ unlocked) false
            { ready with
              promoted :=
                if isNewTx then ready.promoted
                else ready.promoted ++ [currentHash]
              removed := ready.removed ++ replacedTransactions }
        | .error error =>
          if isNewTx then .ok (pool, .error error)
          else addReadyLoop fuel pool (txQueue ++ unlocked) false
            { ready with discarded := ready.discarded ++ [currentHash] }

def addReadyTransaction (pool : PoolInner) (tx : PendingPoolTransaction) :
    Except Halt (PoolInner × Except PoolError AddedTransaction) :=
  let hash := tx.transaction.hash
  (addReadyLoop order (pool.pendingTransactions.waitingQueue.size + 1) pool [tx] true
    { hash := hash
      promoted := []
      discarded := []
      removed := [] }).bind fun (pool, outcome) =>
        match outcome with
        | .error error => .ok (pool, .error error)
        | .ok ready =>
          if ready.removed.any (·.hash = hash) then
            (pool.readyTransactions.removeWithMarkers ready.promoted
              none).map fun (readyTransactions, _) =>
                ({ pool with readyTransactions := readyTransactions }, .error .cyclicTransaction)
          else .ok (pool, .ok (.ready ready))

def addTransaction (pool : PoolInner) (tx : PoolTransaction) :
    Except Halt (PoolInner × Except PoolError AddedTransaction) :=
  if pool.contains tx.hash then
    .ok (pool, .error (.alreadyImported tx.hash))
  else
    let pendingTx := PendingPoolTransaction.new tx pool.readyTransactions.providedMarkers
    if pendingTx.isReady then pool.addReadyTransaction order pendingTx
    else
      (pool.pendingTransactions.addTransaction pendingTx).map fun (pending, added) =>
          ({ pool with pendingTransactions := pending }, added.map fun _ => .pending tx.hash)

/-- The first loop of `prune_markers`: the transactions that a marker unlocks
are stored, and the ready transactions that provide it are pruned. -/
def pruneMarker (state : PoolInner × List PendingPoolTransaction × List PoolTransaction)
    (marker : TxMarker) :
    Except Halt (PoolInner × List PendingPoolTransaction × List PoolTransaction) :=
  (state.1.pendingTransactions.markAndUnlock order [marker]).bind fun (pending, unlocked) =>
      (state.1.readyTransactions.pruneTags marker).map fun (readyTransactions, removed) =>
          ({ readyTransactions := readyTransactions, pendingTransactions := pending },
            state.2.1 ++ unlocked, state.2.2 ++ removed)

/-- The second loop of `prune_markers`. -/
def importTransaction (state : PoolInner × PruneResult)
    (tx : PendingPoolTransaction) : Except Halt (PoolInner × PruneResult) :=
  (state.1.addReadyTransaction order tx).map fun (pool, added) =>
    match added with
    | .ok added => (pool, { state.2 with promoted := state.2.promoted ++ [added] })
    | .error _ =>
      (pool,
        { state.2 with failed := state.2.failed ++ [tx.transaction.hash] })

def pruneMarkers (pool : PoolInner)
    (markers : List TxMarker) : Except Halt (PoolInner × PruneResult) :=
  (markers.foldlM (pruneMarker order) (pool, [], [])).bind fun (pool, imports, pruned) =>
      imports.foldlM (importTransaction order)
        (pool,
          { promoted := [], failed := [], pruned := pruned })

end

def removeInvalid (pool : PoolInner) (txHashes : List TxHash) :
    Except Halt (PoolInner × List PoolTransaction) :=
  if txHashes.isEmpty then .ok (pool, [])
  else
    (pool.readyTransactions.removeWithMarkers txHashes none).map fun (readyTransactions, removed) =>
        let (pending, removedPending) := pool.pendingTransactions.remove txHashes
        ({ readyTransactions := readyTransactions
           pendingTransactions := pending }, removed ++ removedPending)

section

variable (order : HashOrder) (pool : PoolInner) (sender : Address)

def transactionsBySender : Except Halt (List PoolTransaction) :=
  let pendingTxs := (pool.pendingTransactions.transactions order).filter (·.sender = sender)
  (pool.readyTransactions.getTransactions.drain
    (pool.readyTransactions.readyTx.size + 1)).map fun readyTxs =>
      pendingTxs ++ readyTxs.filter (·.sender = sender)

def removeTransactionsByAddress : Except Halt (PoolInner × List PoolTransaction) :=
  (pool.transactionsBySender order sender).bind fun transactions =>
    pool.removeInvalid (transactions.map (·.hash))

end

def dropTransaction (pool : PoolInner) (tx : TxHash) :
    Except Halt (PoolInner × Option PoolTransaction) :=
  (pool.readyTransactions.removeWithMarkers [tx] none).map fun (readyTransactions, removed) =>
      ({ pool with readyTransactions := readyTransactions }, removed.find? (·.hash = tx))

end PoolInner

inductive Operation where
  | addTransaction (tx : PoolTransaction)
  | pruneMarkers (markers : List TxMarker)
  | removeInvalid (txHashes : List TxHash)
  | removeTransactionsByAddress (sender : Address)
  | dropTransaction (tx : TxHash)
  | clear
deriving DecidableEq, Repr

def apply (pool : PoolInner) (order : HashOrder) : Operation → Except Halt PoolInner
  | .addTransaction tx => (pool.addTransaction order tx).map fst
  | .pruneMarkers markers => (pool.pruneMarkers order markers).map fst
  | .removeInvalid txHashes => (pool.removeInvalid txHashes).map fst
  | .removeTransactionsByAddress sender => (pool.removeTransactionsByAddress order sender).map fst
  | .dropTransaction tx => (pool.dropTransaction tx).map fst
  | .clear => .ok pool.clear

/-- A step of a run; a run ends at the first step that does not return. -/
def step (pool : Except Halt PoolInner) (action : HashOrder × Operation) : Except Halt PoolInner :=
  pool.bind fun pool => apply pool action.1 action.2

/-- The transactions that a run submits. -/
def submissions (actions : List (HashOrder × Operation)) : List PoolTransaction :=
  actions.filterMap fun action =>
    match action.2 with
    | .addTransaction tx => some tx
    | _ => none

end SwissledgerFoundry.Pool

namespace SwissledgerFoundry

theorem leBytes_injective {left width right : ℕ} (leftBound : left < 256 ^ width)
    (rightBound : right < 256 ^ width)
    (same : leBytes width left = leBytes width right) : left = right := by
  induction width generalizing left right with
  | zero => omega
  | succ width ih =>
    rw [leBytes, leBytes, List.cons.injEq] at same
    have low : left % 256 = right % 256 := by
      have heads := congrArg UInt8.toNat same.1
      simpa [UInt8.toNat_ofNat'] using heads
    have high := ih (by omega) (by omega) same.2
    omega

theorem addressBytes_injective {left right : Address}
    (same : addressBytes left = addressBytes right) : left = right := by
  apply BitVec.eq_of_toNat_eq
  refine leBytes_injective ?_ ?_ (List.reverse_injective same)
  · exact left.isLt
  · exact right.isLt

namespace Pool

theorem toMarker_injective {nonce : UInt64} {sender : Address} {nonce' : UInt64} {sender' : Address}
    (same : toMarker nonce sender = toMarker nonce' sender') :
    nonce = nonce' ∧ sender = sender' := by
  obtain ⟨nonces, senders⟩ := List.append_inj same (by rw [leBytes_length, leBytes_length])
  refine ⟨UInt64.toNat_inj.mp ?_, addressBytes_injective senders⟩
  refine leBytes_injective ?_ ?_ nonces
  · exact nonce.toNat_lt
  · exact nonce'.toNat_lt

/-- The markers that the RPC layer gives to a transaction. -/
structure RpcShaped (tx : PoolTransaction) : Prop where
  provides : tx.provides = [toMarker tx.nonce tx.sender]
  requires : tx.requires = [] ∨ (tx.nonce ≠ 0 ∧ tx.requires = [toMarker (tx.nonce - 1) tx.sender])

structure Precedes (first second : PoolTransaction) : Prop where
  sender : first.sender = second.sender
  nonce : first.nonce.toNat + 1 = second.nonce.toNat

instance (first second : PoolTransaction) : Decidable (Precedes first second) :=
  decidable_of_iff (first.sender = second.sender ∧ first.nonce.toNat + 1 = second.nonce.toNat)
    ⟨fun precedes => ⟨precedes.1, precedes.2⟩, fun precedes => ⟨precedes.sender, precedes.nonce⟩⟩

instance (tx : PoolTransaction) : Decidable (RpcShaped tx) :=
  decidable_of_iff (tx.provides = [toMarker tx.nonce tx.sender] ∧
      (tx.requires = [] ∨ (tx.nonce ≠ 0 ∧ tx.requires = [toMarker (tx.nonce - 1) tx.sender])))
    ⟨fun shaped => ⟨shaped.1, shaped.2⟩, fun shaped => ⟨shaped.provides, shaped.requires⟩⟩

end Pool

end SwissledgerFoundry
