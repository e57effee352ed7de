import Mathlib.Data.Prod.Lex
import SwissledgerFoundry.Collections.BTreeSet
import SwissledgerFoundry.Collections.HashMap
import SwissledgerFoundry.Collections.SwapRemove
import SwissledgerFoundry.Primitives

/-!
# The queues of the transaction pool

Transactions that are ready to be mined, and transactions that wait for a
marker.  Hash maps are iterated in an order that `HashOrder` leaves open.  A
violated `expect` or `assert` ends a call with `Halt.panic`.
-/

namespace SwissledgerFoundry.Pool

abbrev TxHash := B256

abbrev TxMarker := Bytes

/-- `to_marker`: an identifier for a nonce and a sender. -/
def toMarker (nonce : UInt64) (sender : Address) : TxMarker :=
  leBytes 8 nonce.toNat ++ addressBytes sender

inductive PoolError where
  | replacementUnderpriced (hash : TxHash)
  | alreadyImported (hash : TxHash)
  | cyclicTransaction
deriving DecidableEq, Repr

inductive Halt where
  | panic
  | outOfFuel
deriving DecidableEq, Repr

/-- The order in which a hash set is iterated. -/
structure HashOrder where
  shuffle : List TxHash → List TxHash
  perm : ∀ hashes, (shuffle hashes).Perm hashes

/-- A transaction of the pool.  The first four fields are read from the signed
transaction. -/
structure PoolTransaction where
  hash : TxHash
  sender : Address
  nonce : UInt64
  maxFeePerGas : ℕ
  requires : List TxMarker
  provides : List TxMarker
  priority : ℕ
deriving DecidableEq, Repr

structure PoolTransactionRef where
  transaction : PoolTransaction
  id : UInt64
deriving DecidableEq, Repr

/-- References are ordered by priority, and among equal priorities the older
one is the larger one. -/
def PoolTransactionRef.key (ref : PoolTransactionRef) : ℕ ×ₗ ℕᵒᵈ :=
  toLex (ref.transaction.priority, OrderDual.toDual ref.id.toNat)

structure PendingPoolTransaction where
  transaction : PoolTransaction
  missingMarkers : List TxMarker
deriving DecidableEq, Repr

namespace PendingPoolTransaction

def new (transaction : PoolTransaction)
    (provided : HashMap TxMarker TxHash) : PendingPoolTransaction where
  transaction := transaction
  missingMarkers := (transaction.requires.filter fun marker => marker ∉ provided).dedup

variable (tx : PendingPoolTransaction)

def mark (marker : TxMarker) : PendingPoolTransaction :=
  { tx with missingMarkers := tx.missingMarkers.erase marker }

def isReady : Bool := tx.missingMarkers.isEmpty

end PendingPoolTransaction

structure PendingTransactions where
  requiredMarkers : HashMap TxMarker (List TxHash)
  waitingMarkers : HashMap (List TxMarker) TxHash
  waitingQueue : HashMap TxHash PendingPoolTransaction

namespace PendingTransactions

def empty : PendingTransactions where
  requiredMarkers := ∅
  waitingMarkers := ∅
  waitingQueue := ∅

/-- The body of the inner loop of `mark_and_unlock`. -/
def markHash (mark : TxMarker) (state : PendingTransactions × List PendingPoolTransaction)
    (hash : TxHash) :
    Except Halt (PendingTransactions × List PendingPoolTransaction) :=
  match state.1.waitingQueue.lookup hash with
  | none => .error .panic
  | some tx =>
    let tx := tx.mark mark
    if tx.isReady then
      .ok ({ state.1 with
          waitingQueue := state.1.waitingQueue.erase hash
          waitingMarkers := state.1.waitingMarkers.erase tx.transaction.provides },
        state.2 ++ [tx])
    else
      .ok ({ state.1 with waitingQueue := state.1.waitingQueue.insert hash tx }, state.2)

/-- `mark_and_unlock`: checks off markers and takes the transactions without
missing markers out of the queue. -/
def markAndUnlock (order : HashOrder) (pending : PendingTransactions) (markers : List TxMarker) :
    Except Halt (PendingTransactions × List PendingPoolTransaction) :=
  markers.foldlM (fun state mark =>
    match state.1.requiredMarkers.lookup mark with
    | none => .ok state
    | some hashes =>
      (order.shuffle hashes).foldlM (markHash mark)
        ({ state.1 with requiredMarkers := state.1.requiredMarkers.erase mark },
          state.2)) (pending, [])

/-- Removes a hash from the set of a marker, and the set when it gets
empty. -/
def removeRequired (hash : TxHash)
    (requiredMarkers : HashMap TxMarker (List TxHash)) (marker : TxMarker) :
    HashMap TxMarker (List TxHash) :=
  match requiredMarkers.lookup marker with
  | none => requiredMarkers
  | some required =>
    if (required.erase hash).isEmpty then requiredMarkers.erase marker
    else requiredMarkers.insert marker (required.erase hash)

/-- The body of the loop of `remove`. -/
def removeHash (state : PendingTransactions × List PoolTransaction)
    (hash : TxHash) : PendingTransactions × List PoolTransaction :=
  match state.1.waitingQueue.lookup hash with
  | none => state
  | some waitingTx =>
    ({ requiredMarkers := waitingTx.missingMarkers.foldl
          (removeRequired hash) state.1.requiredMarkers
       waitingMarkers := state.1.waitingMarkers.erase waitingTx.transaction.provides
       waitingQueue := state.1.waitingQueue.erase hash },
      state.2 ++ [waitingTx.transaction])

section

variable (pending : PendingTransactions)

def remove (hashes : List TxHash) : PendingTransactions × List PoolTransaction :=
  hashes.foldl removeHash (pending, [])

/-- `add_transaction` of the waiting queue. -/
def addTransaction (tx : PendingPoolTransaction) :
    Except Halt (PendingTransactions × Except PoolError Unit) :=
  if tx.isReady then .error .panic
  else if tx.transaction.hash ∈ pending.waitingQueue then .error .panic
  else
    let replace := (pending.waitingMarkers.lookup
      tx.transaction.provides).bind (pending.waitingQueue.lookup ·)
    if replace.any fun replace => tx.transaction.maxFeePerGas ≤
        replace.transaction.maxFeePerGas then
      .ok (pending, .error (.replacementUnderpriced tx.transaction.hash))
    else
      .ok ({ requiredMarkers := tx.missingMarkers.foldl
              (fun required marker => required.insert marker
                (((required.lookup marker).getD []).insert
                  tx.transaction.hash)) pending.requiredMarkers
             waitingMarkers := pending.waitingMarkers.insert
              tx.transaction.provides tx.transaction.hash
             waitingQueue := pending.waitingQueue.insert tx.transaction.hash tx }, .ok ())

end

def transactions (order : HashOrder) (pending : PendingTransactions) : List PoolTransaction :=
  (order.shuffle pending.waitingQueue.keys).filterMap fun hash =>
    (pending.waitingQueue.lookup hash).map (·.transaction)

end PendingTransactions

structure ReadyTransaction where
  transaction : PoolTransactionRef
  unlocks : List TxHash
  requiresOffset : ℕ
deriving DecidableEq, Repr

abbrev ReadyTransaction.tx (ready : ReadyTransaction) : PoolTransaction :=
  ready.transaction.transaction

structure ReadyTransactions where
  id : UInt64
  providedMarkers : HashMap TxMarker TxHash
  readyTx : HashMap TxHash ReadyTransaction
  independentTransactions : BTreeSet PoolTransactionRef.key

namespace ReadyTransactions

def empty : ReadyTransactions where
  id := 0
  providedMarkers := ∅
  readyTx := ∅
  independentTransactions := .empty

/-- `clear` keeps the counter of ids. -/
def clear (ready : ReadyTransactions) : ReadyTransactions :=
  { ready with providedMarkers := ∅, readyTx := ∅, independentTransactions := .empty }

/-- Removes the first occurrence of a hash from the `unlocks` of a
transaction. -/
def removeUnlock (readyTx : HashMap TxHash ReadyTransaction) (provider : TxHash) (hash : TxHash) :
    HashMap TxHash ReadyTransaction :=
  match readyTx.lookup provider with
  | none => readyTx
  | some tx =>
    match tx.unlocks.idxOf? hash with
    | none => readyTx
    | some index => readyTx.insert provider
        { tx with unlocks := tx.unlocks.swapRemove index }

/-- The closure `previous_markers` of `prune_tags`: unlinks a pruned
transaction from the provider of a marker, and returns the markers of that
provider if it unlocks nothing else. -/
def previousMarkers (hash : TxHash) (providedMarkers : HashMap TxMarker TxHash)
    (state : HashMap TxHash ReadyTransaction × List TxMarker)
    (marker : TxMarker) : HashMap TxHash ReadyTransaction × List TxMarker :=
  match providedMarkers.lookup marker with
  | none => state
  | some prevHash =>
    let readyTx := removeUnlock state.1 prevHash hash
    match readyTx.lookup prevHash with
    | none => state
    | some tx2 =>
      if tx2.unlocks.isEmpty then
        (readyTx, state.2 ++ tx2.tx.provides)
      else (readyTx, state.2)

/-- Counts a requirement of an unlocked transaction as satisfied. -/
def satisfy (ready : ReadyTransactions) (hash : TxHash) : ReadyTransactions :=
  match ready.readyTx.lookup hash with
  | none => ready
  | some tx =>
    let tx := { tx with requiresOffset := tx.requiresOffset + 1 }
    { ready with
      readyTx := ready.readyTx.insert hash tx
      independentTransactions :=
        if tx.requiresOffset = tx.tx.requires.length then
          ready.independentTransactions.insert tx.transaction
        else ready.independentTransactions }

/-- Removes a marker of a pruned transaction and checks what it was mapped
to. -/
def removeProvided (currentMarker : TxMarker) (hash : TxHash)
    (providedMarkers : HashMap TxMarker TxHash) (marker : TxMarker) :
    Except Halt (HashMap TxMarker TxHash) :=
  if providedMarkers.lookup marker = (if currentMarker = marker then none else some hash) then
    .ok (providedMarkers.erase marker)
  else .error .panic

/-- The part of the loop of `prune_tags` for a marker with a ready
transaction; also returns the markers to remove next. -/
def pruneTransaction (ready : ReadyTransactions) (marker : TxMarker) (tx : ReadyTransaction) :
    Except Halt (ReadyTransactions × List TxMarker) :=
  let hash := tx.tx.hash
  let (readyTx, previous) := tx.tx.requires.foldl
    (previousMarkers hash ready.providedMarkers) (ready.readyTx, [])
  let ready := tx.unlocks.foldl satisfy
    { ready with
      readyTx := readyTx
      independentTransactions := ready.independentTransactions.remove tx.transaction.key }
  (tx.tx.provides.foldlM (removeProvided marker hash)
    ready.providedMarkers).map fun providedMarkers =>
      ({ ready with providedMarkers := providedMarkers }, previous)

/-- The loop of `prune_tags`.  The head of `remove` is the end of the vector
of markers. -/
def pruneLoop : ℕ → ReadyTransactions → List TxMarker →
    List PoolTransaction → Except Halt (ReadyTransactions × List PoolTransaction)
  | _, ready, [], removedTx => .ok (ready, removedTx)
  | 0, _, _ :: _, _ => .error .outOfFuel
  | fuel + 1, ready, marker :: remove, removedTx =>
    match ready.providedMarkers.lookup marker with
    | none => pruneLoop fuel ready remove removedTx
    | some hash =>
      let unprovided := { ready with providedMarkers := ready.providedMarkers.erase marker }
      match ready.readyTx.lookup hash with
      | none => pruneLoop fuel unprovided remove removedTx
      | some tx =>
        (pruneTransaction { unprovided with readyTx := ready.readyTx.erase hash }
          marker tx).bind fun (ready, previous) =>
            pruneLoop fuel ready (previous.reverse ++ remove) (removedTx ++ [tx.tx])

section

variable (ready : ReadyTransactions)

/-- Bounds the number of markers that `prune_tags` removes: each ready
transaction is removed once and then names the providers of what it
requires. -/
def pruneFuel : ℕ :=
  let required := ready.readyTx.values.map (·.tx.requires.length)
  let provided := ready.readyTx.values.map (·.tx.provides.length)
  1 + required.sum * provided.sum

def pruneTags (marker : TxMarker) : Except Halt (ReadyTransactions × List PoolTransaction) :=
  pruneLoop ready.pruneFuel ready [marker] []

/-- The part of the loop of `remove_with_markers` for a ready transaction that
was taken out of the map; also says whether it removed markers. -/
def removeTransaction (markerFilter : Option (List TxMarker)) (hash : TxHash)
    (tx : ReadyTransaction) : ReadyTransactions × Bool :=
  let invalidated := tx.tx.provides.filter fun mark => markerFilter.all (mark ∉ ·)
  let providedMarkers := ready.providedMarkers.eraseAll invalidated
  let readyTx := tx.tx.requires.foldl (fun readyTx mark =>
    match providedMarkers.lookup mark with
    | none => readyTx
    | some provider => removeUnlock readyTx provider hash) ready.readyTx
  ({ ready with
      providedMarkers := providedMarkers
      readyTx := readyTx
      independentTransactions := ready.independentTransactions.remove tx.transaction.key },
    !invalidated.isEmpty)

end

instance decidableRequiresAny (required markers : List TxMarker) :
    Decidable (∃ marker ∈ required, marker ∈ markers) :=
  List.decidableBEx _ _

/-- The loop of `remove_with_markers`.  The head of `txHashes` is the end of
the vector of hashes. -/
def removeLoop (markerFilter : Option (List TxMarker)) :
    ℕ → ReadyTransactions → List TxHash → List PoolTransaction →
      Except Halt (ReadyTransactions × List PoolTransaction)
  | _, ready, [], removed => .ok (ready, removed)
  | 0, _, _ :: _, _ => .error .outOfFuel
  | fuel + 1, ready, hash :: txHashes, removed =>
    match ready.readyTx.lookup hash with
    | none => removeLoop markerFilter fuel ready txHashes removed
    | some tx =>
      let (ready, removedSomeMarks) := removeTransaction
        { ready with readyTx := ready.readyTx.erase hash }
        markerFilter hash tx
      removeLoop markerFilter fuel ready (if removedSomeMarks then tx.unlocks.reverse ++ txHashes
          else txHashes)
        (removed ++ [tx.tx])

/-- `remove_with_markers`.  Each transaction is removed once and then adds its
`unlocks` to the hashes, which bounds the number of rounds. -/
def removeWithMarkers (ready : ReadyTransactions) (txHashes : List TxHash)
    (markerFilter : Option (List TxMarker)) :
    Except Halt (ReadyTransactions × List PoolTransaction) :=
  let unlocks := ready.readyTx.values.map (·.unlocks.length)
  removeLoop markerFilter (txHashes.length + unlocks.sum) ready txHashes.reverse []

/-- `replaced_transactions`: removes the transactions that provide a marker of
`tx`, unless one of them pays as much; also returns what they unlock. -/
def replacedTransactions (order : HashOrder) (ready : ReadyTransactions) (tx : PoolTransaction) :
    Except Halt (ReadyTransactions × Except PoolError (List PoolTransaction × List TxHash)) :=
  let removeHashes := order.shuffle (tx.provides.filterMap (ready.providedMarkers.lookup ·)).dedup
  if removeHashes.isEmpty then .ok (ready, .ok ([], []))
  else
    let toRemove := removeHashes.filterMap (ready.readyTx.lookup ·)
    if toRemove.any fun old => old.tx.provides = tx.provides ∧
        tx.maxFeePerGas ≤ old.tx.maxFeePerGas then
      .ok (ready, .error (.replacementUnderpriced tx.hash))
    else
      (removeWithMarkers ready removeHashes (some tx.provides)).map fun (ready, removedTx) =>
          (ready, .ok (removedTx, toRemove.flatMap (·.unlocks)))

/-- The body of the loop of `add_transaction` over the required markers: links
the transaction to the provider of a marker, or counts the marker as
satisfied. -/
def linkRequired (hash : TxHash) (providedMarkers : HashMap TxMarker TxHash)
    (state : HashMap TxHash ReadyTransaction × Bool × ℕ)
    (mark : TxMarker) :
    Except Halt (HashMap TxHash ReadyTransaction × Bool × ℕ) :=
  match providedMarkers.lookup mark with
  | none => .ok (state.1, state.2.1, state.2.2 + 1)
  | some other =>
    match state.1.lookup other with
    | none => .error .panic
    | some tx =>
      .ok (state.1.insert other
        { tx with unlocks := tx.unlocks ++ [hash] }, false, state.2.2)

/-- The second half of `add_transaction`, after the replaced transactions are
removed. -/
def insertReady (ready : ReadyTransactions) (tx : PoolTransaction)
    (unlocks : List TxHash) : Except Halt ReadyTransactions :=
  (tx.requires.foldlM (linkRequired tx.hash ready.providedMarkers)
    (ready.readyTx, true, 0)).map fun (readyTx, independent, offset) =>
      let transaction := { transaction := tx, id := ready.id }
      { id := ready.id + 1
        providedMarkers := tx.provides.foldl
          (fun provided mark => provided.insert mark tx.hash)
          ready.providedMarkers
        independentTransactions :=
          if independent then
            ready.independentTransactions.insert transaction
          else ready.independentTransactions
        readyTx := readyTx.insert tx.hash
          { transaction := transaction, unlocks := unlocks, requiresOffset := offset } }

/-- `add_transaction` of the ready queue. -/
def addTransaction (order : HashOrder) (ready : ReadyTransactions) (tx : PendingPoolTransaction) :
    Except Halt (ReadyTransactions × Except PoolError (List PoolTransaction)) :=
  if !tx.isReady then .error .panic
  else if tx.transaction.hash ∈ ready.readyTx then .error .panic
  else
    (ready.replacedTransactions order tx.transaction).bind fun (ready, replaced) =>
        match replaced with
        | .error error => .ok (ready, .error error)
        | .ok (replacedTx, unlocks) =>
          (ready.insertReady tx.transaction unlocks).map fun ready => (ready, .ok replacedTx)

end ReadyTransactions

structure TransactionsIterator where
  all : HashMap TxHash ReadyTransaction
  awaiting : HashMap TxHash (ℕ × PoolTransactionRef)
  independent : BTreeSet PoolTransactionRef.key

namespace TransactionsIterator

section

variable (iterator : TransactionsIterator)

def independentOrAwaiting (satisfied : ℕ) (txRef : PoolTransactionRef) : TransactionsIterator :=
  if satisfied ≥ txRef.transaction.requires.length then
    { iterator with independent := iterator.independent.insert txRef }
  else
    { iterator with awaiting := iterator.awaiting.insert txRef.transaction.hash (satisfied, txRef) }

/-- The body of the loop over the transactions that just got unlocked. -/
def unlock (hash : TxHash) : TransactionsIterator :=
  match iterator.awaiting.lookup hash with
  | some (satisfied, txRef) =>
    independentOrAwaiting { iterator with awaiting := iterator.awaiting.erase hash }
      (satisfied + 1) txRef
  | none =>
    match iterator.all.lookup hash with
    | none => iterator
    | some next => iterator.independentOrAwaiting
        (next.requiresOffset + 1) next.transaction

end

/-- The loop of `next`: takes references that are not in the snapshot out of
the independent set until it finds one that is. -/
def nextLoop : ℕ → TransactionsIterator → Option (PoolTransaction × TransactionsIterator)
  | 0, _ => none
  | fuel + 1, iterator =>
    match iterator.independent.last? with
    | none => none
    | some best =>
      let taken := { iterator with independent := iterator.independent.remove best.key }
      match iterator.all.lookup best.transaction.hash with
      | none => nextLoop fuel taken
      | some ready => some (best.transaction, ready.unlocks.foldl unlock taken)

def next (iterator : TransactionsIterator) : Option (PoolTransaction × TransactionsIterator) :=
  nextLoop iterator.independent.elems.length iterator

/-- All the transactions that the iterator yields. -/
def drain : ℕ → TransactionsIterator → Except Halt (List PoolTransaction)
  | 0, _ => .error .outOfFuel
  | fuel + 1, iterator =>
    match iterator.next with
    | none => .ok []
    | some (tx, iterator) => (drain fuel iterator).map (tx :: ·)

end TransactionsIterator

namespace ReadyTransactions

def getTransactions (ready : ReadyTransactions) : TransactionsIterator where
  all := ready.readyTx
  awaiting := ∅
  independent := ready.independentTransactions

end ReadyTransactions

end SwissledgerFoundry.Pool
