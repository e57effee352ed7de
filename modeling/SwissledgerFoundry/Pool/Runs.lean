import SwissledgerFoundry.Pool.Operations
import SwissledgerFoundry.Pool.Rounds

/-!
# Runs of the transaction pool

Any sequence of operations keeps the two queues linked, and none panics.  The
set of independent transactions is the right one as long as the counter of ids
does not wrap around.
-/

namespace SwissledgerFoundry.Pool

open List AList ReadyTransactions Transition Isolated

namespace PoolInner

/-- The tables of the pool agree with each other. -/
structure Consistent (pool : PoolInner) : Prop where
  provided : ∀ {marker hash}, pool.readyTransactions.providedMarkers.lookup marker = some hash ↔
    ∃ tx, pool.readyTransactions.readyTx.lookup hash = some tx ∧ marker ∈ tx.tx.provides
  required : ∀ {marker hash}, (∃ hashes,
      pool.pendingTransactions.requiredMarkers.lookup marker = some hashes ∧ hash ∈ hashes) ↔
    ∃ tx, pool.pendingTransactions.waitingQueue.lookup hash = some tx ∧ marker ∈ tx.missingMarkers
  disjoint : ∀ {hash}, hash ∈ pool.readyTransactions.readyTx →
    hash ∉ pool.pendingTransactions.waitingQueue
  missing : ∀ {hash tx marker}, pool.pendingTransactions.waitingQueue.lookup hash = some tx →
    marker ∈ tx.missingMarkers →
    marker ∉ pool.readyTransactions.providedMarkers
  unlocks : ∀ {owner ownerTx hash}, pool.readyTransactions.readyTx.lookup owner = some ownerTx →
    hash ∈ ownerTx.unlocks →
    ∃ tx, pool.readyTransactions.readyTx.lookup hash = some tx ∧
      ∃ marker ∈ tx.tx.requires, marker ∈ ownerTx.tx.provides
  independent : ∀ {ref}, ref ∈ pool.readyTransactions.independentTransactions ↔
    ∃ hash tx, pool.readyTransactions.readyTx.lookup hash = some tx ∧
      tx.transaction = ref ∧ tx.requiresOffset = tx.tx.requires.length

theorem Invariant.consistent {inFlight : List PendingPoolTransaction} {budget : ℕ}
    {pool : PoolInner} (invariant : pool.Invariant inFlight budget)
    (bounded : budget ≤ 2 ^ 64) : pool.Consistent where
  provided := invariant.ready.provided
  required := invariant.pending.required
  disjoint := invariant.disjoint
  missing := invariant.missing
  unlocks := by
    intro owner ownerTx hash stored member
    obtain ⟨tx, marker, found, _, required, provides⟩ := invariant.ready.unlocks stored member
    exact ⟨tx, found, marker, required, provides⟩
  independent := invariant.ready.independent bounded

theorem empty_invariant : empty.Invariant [] 0 where
  ready := ReadyTransactions.empty_invariant _
  pending := PendingTransactions.empty_invariant
  disjoint := by
    intro hash isReady
    exact absurd isReady (notMem_empty hash)
  missing := by nofun
  complete none := absurd none not_mem_nil
  apart none := absurd none not_mem_nil
  nodup := nodup_nil
  numbered := by
    refine ⟨0, ⟨rfl, ?_⟩, Nat.le_refl 0⟩
    nofun

end PoolInner

/-- The submitted transactions have the markers that the RPC layer builds. -/
def Operation.Shaped : Operation → Prop
  | .addTransaction tx => RpcShaped tx
  | _ => True

instance (operation : Operation) : Decidable operation.Shaped := by
  unfold Operation.Shaped
  split <;> infer_instance

/-- The number of submitted transactions. -/
def additions (actions : List (HashOrder × Operation)) : ℕ := (submissions actions).length

theorem additions_append {past : List (HashOrder × Operation)} {action : HashOrder × Operation} :
    additions (past ++ [action]) = additions past + additions [action] := by
  unfold additions submissions
  rw [filterMap_append, length_append]

/-- An operation returns and keeps the invariant, and with it what the rounds
of the loops keep. -/
theorem PoolInner.Keeping.apply_eq_ok {budget : ℕ} {pool : PoolInner}
    {Keeps : PoolInner → List PendingPoolTransaction → Prop} (keeping : Keeping budget Keeps)
    (invariant : pool.Invariant [] budget) (keeps : Keeps pool []) (order : HashOrder)
    {operation : Operation} (shaped : operation.Shaped)
    (adds : ∀ {tx after outcome}, operation = .addTransaction tx →
      pool.Adds (budget + 1) tx after outcome → Keeps after [])
    (prunes : ∀ {markers middle imported pruned}, operation = .pruneMarkers markers →
      Prunings budget markers pool [] [] middle imported pruned → Keeps middle imported)
    (clear : Keeps pool.clear []) :
    ∃ after, apply pool order operation = .ok after ∧
      after.Invariant [] (budget + additions [(order, operation)]) ∧ Keeps after [] := by
  cases operation with
  | addTransaction tx =>
    obtain ⟨after, outcome, added, enters, holds⟩ := invariant.adds order shaped
    exact ⟨after, by rw [apply, added]; rfl, holds, adds rfl enters⟩
  | pruneMarkers markers =>
    obtain ⟨_, _, _, after, outcome, pruned, prunings, middleInvariant, imports⟩ :=
      invariant.pruneMarkers_eq_ok order markers
    refine ⟨after, by rw [apply, pruned]; rfl, ?_⟩
    exact keeping.imports imports middleInvariant (prunes rfl prunings)
  | removeInvalid txHashes =>
    obtain ⟨after, _, _, removed, discards⟩ := invariant.removeInvalid_eq_ok txHashes
    refine ⟨after, by rw [apply, removed]; rfl, discards.invariant invariant, ?_⟩
    exact keeping.discards discards invariant keeps
  | removeTransactionsByAddress sender =>
    obtain ⟨_, after, _, _, removed, discards⟩ :=
      invariant.removeTransactionsByAddress_eq_ok order sender
    refine ⟨after, by rw [apply, removed]; rfl, discards.invariant invariant, ?_⟩
    exact keeping.discards discards invariant keeps
  | dropTransaction tx =>
    obtain ⟨after, _, dropped, drops⟩ := invariant.dropTransaction_eq_ok tx
    refine ⟨after, by rw [apply, dropped]; rfl, drops.invariant invariant, ?_⟩
    exact keeping.drops drops invariant keeps
  | clear => exact ⟨pool.clear, rfl, invariant.clear, clear⟩

theorem run_invariant {actions : List (HashOrder × Operation)}
    (shaped : ∀ action ∈ actions, action.2.Shaped) :
    ∃ pool, run step (.ok .empty) actions = .ok pool ∧ pool.Invariant [] (additions actions) := by
  have along : Transition.Along step (fun _ action => action.2.Shaped) (.ok .empty) actions :=
    along_of_forall (fun action member _ => shaped action member) _
  refine invariant_history (fun past state =>
      ∃ pool, state = .ok pool ∧ pool.Invariant [] (additions past))
    ?_ [] ?_ along actions prefix_rfl
  · intro past state action earlier actionShaped
    rw [additions_append]
    obtain ⟨pool, rfl, invariant⟩ := earlier
    have keeping : PoolInner.Keeping (additions past) fun _ _ => True :=
      ⟨fun _ _ => trivial, fun _ _ _ => trivial, fun _ _ _ _ _ => trivial⟩
    obtain ⟨after, applied, holds, _⟩ := keeping.apply_eq_ok invariant trivial action.1
      actionShaped (fun _ _ => trivial) (fun _ _ => trivial) trivial
    exact ⟨after, applied, holds⟩
  · exact ⟨.empty, rfl, PoolInner.empty_invariant⟩

/-- No run of at most `2 ^ 64` submissions panics or loops, and the tables of
the pool that it reaches agree with each other. -/
theorem run_consistent (actions : List (HashOrder × Operation))
    (shaped : ∀ action ∈ actions, action.2.Shaped)
    (bounded : additions actions ≤ 2 ^ 64) :
    ∃ pool, run step (.ok .empty) actions = .ok pool ∧ pool.Consistent := by
  obtain ⟨pool, reached, invariant⟩ := run_invariant shaped
  exact ⟨pool, reached, invariant.consistent bounded⟩

namespace ReadyTransactions

def Requires (ready : ReadyTransactions) (owner hash : TxHash) : Prop :=
  ∃ ownerTx tx, ready.readyTx.lookup owner = some ownerTx ∧ ready.readyTx.lookup hash = some tx ∧
    ∃ marker ∈ tx.tx.requires, marker ∈ ownerTx.tx.provides

/-- A ready transaction that requires a marker of the given one, directly or
through other ready ones. -/
def Depends (ready : ReadyTransactions) (tx : PoolTransaction) (hash : TxHash) : Prop :=
  ∃ first firstTx, ready.readyTx.lookup first = some firstTx ∧
    (∃ marker ∈ firstTx.tx.requires, marker ∈ tx.provides) ∧
    Relation.ReflTransGen ready.Requires first hash

/-- The transactions that are reached over required markers had none of these
pruned before. -/
def Unpruned (ready : ReadyTransactions) (hash : TxHash) : Prop :=
  ∀ owner other tx, Relation.ReflTransGen ready.Requires hash owner →
    ready.Requires owner other → ready.readyTx.lookup other = some tx →
    tx.requiresOffset ≠ tx.tx.requires.length

variable {ready : ReadyTransactions}

theorem depends_iff {hash other : TxHash} {tx : ReadyTransaction}
    (found : ready.readyTx.lookup hash = some tx) :
    other = hash ∨ ready.Depends tx.tx other ↔
      Relation.ReflTransGen ready.Requires hash other := by
  rw [Relation.ReflTransGen.cases_head_iff, eq_comm]
  refine or_congr_right ⟨?_, ?_⟩
  · rintro ⟨first, firstTx, firstFound, shares, path⟩
    exact ⟨first, ⟨tx, firstTx, found, firstFound, shares⟩, path⟩
  · rintro ⟨first, ⟨_, firstTx, same, firstFound, shares⟩, path⟩
    cases found.symm.trans same
    exact ⟨first, firstTx, firstFound, shares, path⟩

section

variable {unwrapped : Prop} (invariant : ready.Invariant unwrapped fun _ => False)

include invariant

/-- The link to a provider is there unless the marker was pruned. -/
theorem Invariant.unlocks_iff {owner hash : TxHash} :
    ready.Unlocks owner hash ↔ ready.Requires owner hash ∧
      ∀ tx, ready.readyTx.lookup hash = some tx → tx.requiresOffset ≠ tx.tx.requires.length := by
  constructor
  · rintro ⟨ownerTx, stored, member⟩
    obtain ⟨tx, marker, found, unmet, required, provides⟩ := invariant.unlocks stored member
    refine ⟨⟨ownerTx, tx, stored, found, marker, required, provides⟩, ?_⟩
    intro other same
    cases found.symm.trans same
    rw [unmet]
    exact (length_pos_of_mem required).ne
  rintro ⟨⟨ownerTx, tx, stored, found, marker, required, provides⟩, waits⟩
  obtain ⟨provider, providerTx, providerStored, member⟩ :=
    invariant.linked found not_false (waits tx found)
  obtain ⟨_, other, sameFound, _, otherRequired, otherProvides⟩ :=
    invariant.unlocks providerStored member
  cases found.symm.trans sameFound
  -- a transaction requires one marker, and a marker has one provider
  rw [((invariant.shaped found).2.eq_of_mem_requires required).2.1, mem_singleton] at otherRequired
  subst otherRequired
  cases (invariant.provided.mpr ⟨ownerTx, stored, provides⟩).symm.trans
    (invariant.provided.mpr ⟨providerTx, providerStored, otherProvides⟩)
  exact ⟨providerTx, providerStored, member⟩

theorem Invariant.acyclic {owner hash : TxHash}
    (path : Relation.ReflTransGen ready.Requires hash owner) : ¬ ready.Requires owner hash := by
  have later : ∀ {left right}, ready.Requires left right →
      ((ready.readyTx.lookup left).elim 0 (·.tx.nonce.toNat)) <
        (ready.readyTx.lookup right).elim 0 (·.tx.nonce.toNat) := by
    rintro left right ⟨leftTx, rightTx, leftFound, rightFound, marker, required, provides⟩
    have := ((invariant.shaped rightFound).2.precedes (invariant.shaped leftFound).2
      required provides).nonce
    rw [leftFound, rightFound]
    change leftTx.tx.nonce.toNat < rightTx.tx.nonce.toNat
    omega
  have whole : ((ready.readyTx.lookup hash).elim 0 (·.tx.nonce.toNat)) ≤
      (ready.readyTx.lookup owner).elim 0 (·.tx.nonce.toNat) := by
    induction path with
    | refl => exact le_rfl
    | tail _ last ih => exact ih.trans (later last).le
  exact fun back => absurd (later back) whole.not_gt

/-- The linked transactions are the dependent ones exactly if none of them had
its marker pruned. -/
theorem Invariant.unlocked_iff {hash : TxHash} :
    (∀ other, Relation.ReflTransGen ready.Unlocks hash other ↔
        Relation.ReflTransGen ready.Requires hash other) ↔ ready.Unpruned hash := by
  constructor
  · intro same owner other tx path requires found
    have unlocked := (same other).mpr (path.tail requires)
    obtain rfl | ⟨last, _, unlocks⟩ := unlocked.cases_tail
    · exact absurd requires (invariant.acyclic path)
    · exact (invariant.unlocks_iff.mp unlocks).2 tx found
  intro unpruned other
  constructor
  · intro path
    induction path with
    | refl => exact .refl
    | tail _ last ih => exact ih.tail (invariant.unlocks_iff.mp last).1
  · intro path
    induction path with
    | refl => exact .refl
    | tail path last ih =>
      exact ih.tail (invariant.unlocks_iff.mpr ⟨last, fun tx => unpruned _ _ tx path last⟩)

end

end ReadyTransactions

namespace PoolInner

/-- The transaction is in the pool, ready or waiting. -/
def Holds (pool : PoolInner) (hash : TxHash) (tx : PoolTransaction) : Prop :=
  (∃ ready, pool.readyTransactions.readyTx.lookup hash = some ready ∧ ready.tx = tx) ∨
    ∃ waiting, pool.pendingTransactions.waitingQueue.lookup hash = some waiting ∧
      waiting.transaction = tx

/-- The transaction is dropped and returned, and takes along exactly the ready
ones that require its markers. -/
def Dropped (pool : PoolInner) (hash : TxHash) (tx : PoolTransaction) : Prop :=
  ∃ after, pool.dropTransaction hash = .ok (after, some tx) ∧
    hash ∉ after.readyTransactions.readyTx ∧ hash ∉ after.pendingTransactions.waitingQueue ∧
    (∀ other ≠ hash, other ∈ after.pendingTransactions.waitingQueue ↔
      other ∈ pool.pendingTransactions.waitingQueue) ∧
    ∀ other ∈ pool.readyTransactions.readyTx, other ∉ after.readyTransactions.readyTx ↔
      other = hash ∨ pool.readyTransactions.Depends tx other

end PoolInner

/-- In every pool that a run reaches, dropping a transaction does what it should
exactly if it is ready and none that depends on it had its marker pruned. -/
theorem run_drop_iff (actions : List (HashOrder × Operation))
    (shaped : ∀ action ∈ actions, action.2.Shaped) (pool : PoolInner)
    (reached : run step (.ok .empty) actions = .ok pool)
    (hash : TxHash) (tx : PoolTransaction) (held : pool.Holds hash tx) :
    pool.Dropped hash tx ↔ hash ∈ pool.readyTransactions.readyTx ∧
      pool.readyTransactions.Unpruned hash := by
  obtain ⟨_, same, invariant⟩ := run_invariant shaped
  cases reached.symm.trans same
  obtain ⟨ready, gone, looped, readyInvariant, shrinks, cascades, rooted⟩ :=
    removeWithMarkers_eq_ok invariant.ready [hash]
  have dropped : pool.dropTransaction hash =
      .ok ({ pool with readyTransactions := ready }, gone.find? (·.hash = hash)) := by
    rw [PoolInner.dropTransaction, looped]
    rfl
  obtain ⟨readyTx, found, rfl⟩ | ⟨waiting, found, rfl⟩ := held
  · have first : gone.find? (·.hash = hash) = some readyTx.tx := by
      have top := rooted.first hash rfl readyTx found
      cases gone with
      | nil => cases top
      | cons tx gone =>
        cases top
        exact find?_cons_of_pos (decide_eq_true (invariant.ready.shaped found).1)
    have taken : hash ∉ ready.readyTx := cascades.taken (mem_singleton.mpr rfl)
    have removed : ∀ other, other ∈ pool.readyTransactions.readyTx ∧ other ∉ ready.readyTx ↔
        Relation.ReflTransGen pool.readyTransactions.Unlocks hash other := by
      intro other
      constructor
      · rintro ⟨stored, gone⟩
        obtain ⟨root, listed, path⟩ := rooted.origin other stored gone
        exact mem_singleton.mp listed ▸ path
      intro path
      induction path with
      | refl => exact ⟨mem_of_lookup found, taken⟩
      | tail _ last earlier =>
        obtain ⟨ownerTx, stored, member⟩ := last
        obtain ⟨_, _, listed, _⟩ := invariant.ready.unlocks stored member
        exact ⟨mem_of_lookup listed, cascades.closed stored member earlier.2⟩
    -- What depends on the transaction is ready itself.
    have stored : ∀ other, Relation.ReflTransGen pool.readyTransactions.Requires hash other →
        other ∈ pool.readyTransactions.readyTx := by
      intro other path
      obtain rfl | ⟨_, _, last⟩ := path.cases_tail
      · exact mem_of_lookup found
      · obtain ⟨_, _, _, listed, _⟩ := last
        exact mem_of_lookup listed
    rw [← invariant.ready.unlocked_iff]
    constructor
    · rintro ⟨after, result, -, -, -, exactly⟩
      rw [dropped, first] at result
      cases result
      refine ⟨mem_of_lookup found, fun other => ?_⟩
      rw [← removed, ← depends_iff found]
      constructor
      · rintro ⟨member, isGone⟩
        exact (exactly other member).mp isGone
      · intro depends
        have member := stored other ((depends_iff found).mp depends)
        exact ⟨member, (exactly other member).mpr depends⟩
    · rintro ⟨-, unlocked⟩
      rw [first] at dropped
      refine ⟨_, dropped, taken, invariant.disjoint (mem_of_lookup found),
        fun _ _ => Iff.rfl, fun other member => ?_⟩
      rw [depends_iff found, ← unlocked, ← removed]
      exact (and_iff_right member).symm
  · have waits : hash ∈ pool.pendingTransactions.waitingQueue := mem_of_lookup found
    refine iff_of_false ?_ fun both => invariant.disjoint both.1 waits
    rintro ⟨after, result, -, missing, -⟩
    obtain ⟨rfl, -⟩ := Prod.mk.inj (Except.ok.inj (dropped.symm.trans result))
    exact missing waits

/-- Hash sets are iterated in the order in which they are listed. -/
def HashOrder.asListed : HashOrder where
  shuffle hashes := hashes
  perm := List.Perm.refl

/-- A transaction with the markers that the RPC layer builds, ordered by its
fee. -/
def rpcTransaction (hash : TxHash) (sender : Address) (nonce : UInt64)
    (requires : List TxMarker) (fee : ℕ) : PoolTransaction where
  hash := hash
  sender := sender
  nonce := nonce
  maxFeePerGas := fee
  requires := requires
  provides := [toMarker nonce sender]
  priority := fee

theorem run_consistent_chain : ∃ pool, run step (.ok .empty)
        [(.asListed, .addTransaction (rpcTransaction 11 1 1 [toMarker 0 1] 5)),
          (.asListed, .addTransaction (rpcTransaction 10 1 0 [] 5)),
          (.asListed, .addTransaction (rpcTransaction 12 1 0 [] 7)),
          (.asListed, .pruneMarkers [toMarker 0 1]),
          (.asListed, .removeTransactionsByAddress 1)] = .ok pool ∧
      pool.Consistent := by
  exact run_consistent _ (by decide) (by decide)


/-- A waiting transaction is not dropped. -/
theorem run_drop_waiting : ((run step (.ok .empty)
        [(.asListed, .addTransaction (rpcTransaction 11 1 1 [toMarker 0 1] 5))]).bind
      (·.dropTransaction 11)).map (fun dropped =>
        (dropped.2, decide (11 ∈ dropped.1.pendingTransactions.waitingQueue))) =
      .ok (none, true) := by
  decide +kernel

def earlyTransaction : PoolTransaction := rpcTransaction 1 1 0 [] 5

theorem run_drop_iff_early :
    (submitted .empty earlyTransaction).Dropped 1 earlyTransaction := by
  refine (run_drop_iff [(.asListed, .addTransaction earlyTransaction)] (by decide)
    (submitted .empty earlyTransaction) rfl 1 earlyTransaction (.inl ⟨_, rfl, rfl⟩)).mpr
    ⟨by decide +kernel, ?_⟩
  rintro owner hash tx _ ⟨_, _, _, found, _, required, _⟩ _
  obtain ⟨rfl, rfl⟩ | ⟨_, none⟩ := lookup_of_insert found
  · cases required
  · cases none

/-- A transaction that is submitted when the counter of ids is back at the id
of `earlyTransaction`. -/
def lateTransaction : PoolTransaction := rpcTransaction 2 2 0 [] 5

def passingTransaction (index : ℕ) : PoolTransaction :=
  rpcTransaction (BitVec.ofNat 256 (index + 3)) 3 0 [] 0

def wrappingRun : List (HashOrder × Operation) :=
  (.asListed, .addTransaction earlyTransaction) ::
    (rounds .asListed ((List.range (2 ^ 64 - 1)).map passingTransaction) ++
      [(.asListed, .addTransaction lateTransaction)])

def wrappedPool : PoolInner :=
  submitted (dropped (submitted .empty earlyTransaction) (2 ^ 64 - 1)) lateTransaction

theorem passingTransaction_hash {index : ℕ} (small : index < 2 ^ 64) :
    (passingTransaction index).hash.toNat = index + 3 := by
  change (BitVec.ofNat 256 (index + 3)).toNat = index + 3
  rw [BitVec.toNat_ofNat]
  omega

theorem passing_passingTransaction {index : ℕ} (small : index < 2 ^ 64) :
    Passing (submitted .empty earlyTransaction) (passingTransaction index) where
  requires := rfl
  provides := rfl
  unwaiting := notMem_empty _
  unready := by
    intro member
    rcases mem_insert _ |>.mp member with same | none
    · have hash := passingTransaction_hash small
      rw [same] at hash
      change 1 = index + 3 at hash
      omega
    · exact notMem_empty _ none
  unprovided := by
    change toMarker 0 3 ∉ insert (toMarker 0 1) _ ∅
    decide
  unrequired := notMem_empty _
  priority := by
    intro ref member
    rcases BTreeSet.mem_insert.mp member with none | ⟨rfl, _⟩
    · exact absurd none (BTreeSet.notMem_empty ref)
    · change 5 ≠ 0
      decide

theorem submissions_wrappingRun : submissions wrappingRun = earlyTransaction ::
      ((range (2 ^ 64 - 1)).map passingTransaction ++ [lateTransaction]) := by
  generalize many : (range (2 ^ 64 - 1)).map passingTransaction = txs
  have split : submissions wrappingRun = earlyTransaction ::
      (submissions (rounds .asListed txs) ++ [lateTransaction]) := by
    rw [← many, wrappingRun, submissions, filterMap_cons, filterMap_append]
    rfl
  rw [split, submissions_rounds]

theorem nodup_wrappingRun : ((submissions wrappingRun).map (·.hash)).Nodup := by
  have value : ∀ {hash}, hash ∈ ((range (2 ^ 64 - 1)).map passingTransaction).map (·.hash) →
      2 < hash.toNat := by
    intro hash member
    rw [map_map] at member
    obtain ⟨index, listed, rfl⟩ := mem_map.mp member
    have small := mem_range.mp listed
    change 2 < (passingTransaction index).hash.toNat
    rw [passingTransaction_hash (by omega)]
    omega
  have passing : (((range (2 ^ 64 - 1)).map passingTransaction).map (·.hash)).Nodup := by
    rw [map_map]
    apply Nodup.map_on _ nodup_range
    intro left leftListed right rightListed same
    have leftSmall := mem_range.mp leftListed
    have rightSmall := mem_range.mp rightListed
    have values := congrArg BitVec.toNat same
    change (passingTransaction left).hash.toNat = (passingTransaction right).hash.toNat at values
    rw [passingTransaction_hash (by omega), passingTransaction_hash (by omega)] at values
    omega
  rw [submissions_wrappingRun, map_cons, map_append]
  apply nodup_cons.mpr
  constructor
  · intro member
    rcases mem_append.mp member with early | late
    · have large := value early
      revert large
      decide
    · revert late
      decide
  apply Nodup.append passing (nodup_singleton _)
  intro hash isPassing isLate
  have large := value isPassing
  rw [mem_singleton.mp isLate] at large
  revert large
  decide

theorem run_wrappingRun : run step (.ok .empty) wrappingRun = .ok wrappedPool := by
  have early : Isolated .empty earlyTransaction :=
    { requires := rfl
      provides := rfl
      unwaiting := notMem_empty _
      unready := notMem_empty _
      unprovided := notMem_empty _
      unrequired := notMem_empty _ }
  have late : Isolated (dropped (submitted .empty earlyTransaction) (2 ^ 64 - 1)) lateTransaction :=
    { requires := rfl
      provides := rfl
      unwaiting := notMem_empty _
      unready := by decide
      unprovided := by decide
      unrequired := notMem_empty _ }
  obtain ⟨_, earlyAdded⟩ := early.addTransaction_eq .asListed
  obtain ⟨_, lateAdded⟩ := late.addTransaction_eq .asListed
  have passing : ∀ tx ∈ (range (2 ^ 64 - 1)).map passingTransaction,
      Passing (submitted .empty earlyTransaction) tx := by
    intro tx member
    obtain ⟨index, listed, rfl⟩ := mem_map.mp member
    apply passing_passingTransaction
    have := mem_range.mp listed
    omega
  have first : step (.ok .empty) (.asListed, .addTransaction earlyTransaction) =
        .ok (submitted .empty earlyTransaction) := by
    simp only [step, apply, Except.bind, earlyAdded, Except.map]
  have looped := run_rounds .asListed passing
  rw [length_map, length_range] at looped
  rw [wrappingRun, run_cons, first, run_append, looped]
  rfl

theorem shaped_wrappingRun : ∀ action ∈ wrappingRun, action.2.Shaped := by
  intro action member
  rcases mem_cons.mp member with rfl | member
  · decide
  rcases mem_append.mp member with inRounds | isLast
  · obtain ⟨tx, listed, inRound⟩ := mem_flatMap.mp inRounds
    obtain ⟨index, _, rfl⟩ := mem_map.mp listed
    rcases mem_cons.mp inRound with rfl | drops
    · exact ⟨rfl, .inl rfl⟩
    · rw [mem_singleton.mp drops]
      trivial
  · rw [mem_singleton.mp isLast]
    decide

/-- The late transaction gets the id of the early one.  They have the same
priority, so the set of independent transactions takes them for one and the
same. -/
theorem run_inconsistent_after_wraparound : ∃ actions pool, (∀ action ∈ actions, action.2.Shaped) ∧
      ((submissions actions).map (·.hash)).Nodup ∧
      run step (.ok .empty) actions = .ok pool ∧
      ¬ pool.Consistent := by
  refine ⟨wrappingRun, wrappedPool, shaped_wrappingRun, nodup_wrappingRun, run_wrappingRun, ?_⟩
  intro consistent
  have member := consistent.independent.mpr ⟨lateTransaction.hash, _, lookup_insert _, rfl, rfl⟩
  revert member
  rw [BTreeSet.mem_def]
  decide +kernel

/-- In every pool that a run of at most `2 ^ 64` submissions reaches, the
iterator yields each ready transaction exactly once, and always the best one
that is available. -/
theorem run_yields (actions : List (HashOrder × Operation))
    (shaped : ∀ action ∈ actions, action.2.Shaped)
    (bounded : additions actions ≤ 2 ^ 64) :
    ∃ pool, run step (.ok .empty) actions = .ok pool ∧
      ∀ fuel, pool.readyTransactions.readyTx.size < fuel →
        ∃ txs, pool.readyTransactions.getTransactions.drain fuel = .ok txs ∧
          txs.Perm (pool.readyTransactions.readyTx.values.map (·.tx)) ∧
          ∀ before tx after, txs = before ++ tx :: after → ∃ readyTx, readyTx.tx = tx ∧
              pool.readyTransactions.Best (before.map (·.hash)) tx.hash
                readyTx := by
  obtain ⟨pool, reached, invariant⟩ := run_invariant shaped
  refine ⟨pool, reached, ?_⟩
  intro fuel enough
  obtain ⟨txs, drained, allYielded⟩ := invariant.ready.drain_getTransactions enough
  have yields := allYielded bounded
  refine ⟨txs, drained, yields.perm invariant.ready, ?_⟩
  intro before tx after split
  exact yields.best split

theorem run_yields_two_senders : ∃ pool, run step (.ok .empty)
        [(.asListed, .addTransaction (rpcTransaction 10 1 0 [] 5)),
          (.asListed, .addTransaction (rpcTransaction 11 1 1 [toMarker 0 1] 9)),
          (.asListed, .addTransaction (rpcTransaction 20 2 0 [] 7))] =
        .ok pool ∧
      ∀ fuel, pool.readyTransactions.readyTx.size < fuel →
        ∃ txs, pool.readyTransactions.getTransactions.drain fuel = .ok txs ∧
          txs.Perm (pool.readyTransactions.readyTx.values.map (·.tx)) ∧
          ∀ before tx after, txs = before ++ tx :: after → ∃ readyTx, readyTx.tx = tx ∧
              pool.readyTransactions.Best (before.map (·.hash)) tx.hash
                readyTx := by
  exact run_yields _ (by decide) (by decide)

/-- The iterator loses the late transaction. -/
theorem run_loses_transaction_after_wraparound :
    ∃ actions pool, (∀ action ∈ actions, action.2.Shaped) ∧
      ((submissions actions).map (·.hash)).Nodup ∧
      run step (.ok .empty) actions = .ok pool ∧
      lateTransaction.hash ∈ pool.readyTransactions.readyTx ∧
      pool.readyTransactions.getTransactions.drain 3 = .ok [earlyTransaction] := by
  refine ⟨wrappingRun, wrappedPool, shaped_wrappingRun, nodup_wrappingRun, run_wrappingRun, ?_, ?_⟩
  · exact (mem_insert _).mpr (.inl rfl)
  · decide +kernel

end SwissledgerFoundry.Pool
