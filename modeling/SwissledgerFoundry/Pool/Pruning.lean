import SwissledgerFoundry.Pool.Removal

/-!
# Pruning the ready queue

`prune_tags` removes the transaction that provides a marker, and the one before
it if that unlocks nothing else.
-/

namespace SwissledgerFoundry.Pool.ReadyTransactions

open List AList Option

section Loops

variable {ready : ReadyTransactions} {unwrapped : Prop}
  {detached : TxHash → Prop} {hash : TxHash} {tx : ReadyTransaction}

theorem lookup_satisfy {probe : TxHash} (ready : ReadyTransactions) :
    (ready.satisfy hash).readyTx.lookup probe =
      (ready.readyTx.lookup probe).map fun tx =>
        { tx with
          requiresOffset :=
            tx.requiresOffset + if probe = hash then 1 else 0 } := by
  unfold satisfy
  by_cases same : probe = hash
  · subst probe
    cases found : ready.readyTx.lookup hash with
    | none => simp [found]
    | some tx => simp
  cases found : ready.readyTx.lookup hash with
  | none => simp [same]
  | some tx => simp [same, lookup_insert_ne same]

theorem Keyed.satisfy (keyed : Keyed ready) (found : ready.readyTx.lookup hash = some tx)
    (last : tx.requiresOffset + 1 = tx.tx.requires.length) :
    Keyed (ready.satisfy hash) ∧
    ∀ {ref}, ref ∈ (ready.satisfy hash).independentTransactions ↔
      ref = tx.transaction ∨ ref ∈ ready.independentTransactions := by
  have independent : ∀ {ref}, ref ∈ (ready.satisfy hash).independentTransactions ↔
        ref = tx.transaction ∨ ref ∈ ready.independentTransactions := by
    intro ref
    rw [← keyed.mem_insert found]
    simp [ReadyTransactions.satisfy, found, last]
  have lookup : ∀ {probe probeTx}, ready.readyTx.lookup probe = some probeTx →
      ∃ after, (ready.satisfy hash).readyTx.lookup probe = some after ∧
        after.transaction = probeTx.transaction := by
    intro probe probeTx stored
    rw [lookup_satisfy, stored]
    exact ⟨_, rfl, rfl⟩
  refine ⟨⟨?_, ?_⟩, independent⟩
  · intro left right _ _ leftFound rightFound
    rw [lookup_satisfy, map_eq_some_iff] at leftFound rightFound
    obtain ⟨leftTx, leftStored, rfl⟩ := leftFound
    obtain ⟨rightTx, rightStored, rfl⟩ := rightFound
    have distinct := keyed.distinct leftStored rightStored
    exact distinct
  intro ref member
  rcases independent.mp member with rfl | member
  · exact ⟨hash, lookup found⟩
  · obtain ⟨other, otherTx, stored, rfl⟩ := keyed.stored member
    exact ⟨other, lookup stored⟩

variable {hashes : List TxHash}

theorem lookup_foldl_satisfy {probe : TxHash} (nodup : hashes.Nodup) (ready : ReadyTransactions) :
    (hashes.foldl satisfy ready).readyTx.lookup probe = (ready.readyTx.lookup probe).map fun tx =>
        { tx with
          requiresOffset :=
            tx.requiresOffset + if probe ∈ hashes then 1 else 0 } := by
  induction hashes generalizing ready with
  | nil => simp
  | cons hash hashes ih =>
    obtain ⟨absent, nodup⟩ := nodup_cons.mp nodup
    rw [foldl_cons, ih nodup, lookup_satisfy, Option.map_map]
    congr 1
    funext other
    by_cases same : probe = hash
    · subst probe
      simp [absent]
    · simp [same]

theorem mem_independent_of_foldl_satisfy {ref : PoolTransactionRef} {ready : ReadyTransactions}
    (member : ref ∈ (hashes.foldl satisfy ready).independentTransactions) :
    ref ∈ ready.independentTransactions ∨
      ∃ other otherTx, other ∈ hashes ∧ ready.readyTx.lookup other = some otherTx ∧
        otherTx.transaction = ref := by
  induction hashes generalizing ready with
  | nil => exact .inl member
  | cons hash hashes ih =>
    rcases ih member with earlier | ⟨other, _, listed, stored, same⟩
    · cases found : ready.readyTx.lookup hash with
      | none =>
        simp only [satisfy, found] at earlier
        exact .inl earlier
      | some tx =>
        simp only [satisfy, found] at earlier
        split at earlier
        · apply (BTreeSet.mem_insert.mp earlier).imp_right
          rintro ⟨rfl, _⟩
          exact ⟨hash, tx, mem_cons_self, found, rfl⟩
        · exact .inl earlier
    rw [lookup_satisfy, map_eq_some_iff] at stored
    obtain ⟨otherTx, stored, rfl⟩ := stored
    exact .inr ⟨other, otherTx, mem_cons_of_mem hash listed, stored, same⟩

theorem Keyed.mem_foldl_satisfy {ref : PoolTransactionRef} (nodup : hashes.Nodup)
    (keyed : Keyed ready)
    (last : ∀ hash ∈ hashes, ∃ tx, ready.readyTx.lookup hash = some tx ∧
      tx.requiresOffset + 1 = tx.tx.requires.length)
    (isMember : ref ∈ ready.independentTransactions ∨
      ∃ other otherTx, other ∈ hashes ∧ ready.readyTx.lookup other = some otherTx ∧
        otherTx.transaction = ref) :
    ref ∈ (hashes.foldl ReadyTransactions.satisfy ready).independentTransactions := by
  induction hashes generalizing ready with
  | nil => simpa using isMember
  | cons hash hashes ih =>
    obtain ⟨absent, nodup⟩ := nodup_cons.mp nodup
    obtain ⟨tx, found, finished⟩ := last hash mem_cons_self
    obtain ⟨keyedAfter, independent⟩ := keyed.satisfy found finished
    have unchanged : ∀ other ∈ hashes,
        (ready.satisfy hash).readyTx.lookup other = ready.readyTx.lookup other := by
      intro other member
      have different : other ≠ hash := by
        rintro rfl
        exact absent member
      simp [lookup_satisfy, different]
    apply ih nodup keyedAfter (fun other member => by
      rw [unchanged other member]
      exact last other (mem_cons_of_mem hash member))
    rw [independent]
    rcases isMember with member | ⟨other, otherTx, listed, stored, same⟩
    · exact .inl (.inr member)
    rcases mem_cons.mp listed with rfl | member
    · rw [some.inj (stored.symm.trans found)] at same
      exact .inl (.inl same.symm)
    · rw [← unchanged other member] at stored
      exact .inr ⟨other, otherTx, member, stored, same⟩

theorem foldl_satisfy_providedMarkers (hashes : List TxHash) (ready : ReadyTransactions)
    (providedMarkers : HashMap TxMarker TxHash) :
    hashes.foldl satisfy { ready with providedMarkers := providedMarkers } =
      { hashes.foldl satisfy ready with
        providedMarkers := providedMarkers } := by
  induction hashes generalizing ready with
  | nil => rfl
  | cons hash hashes ih =>
    have first : { ready with providedMarkers := providedMarkers }.satisfy hash =
          { ready.satisfy hash with
            providedMarkers := providedMarkers } := by
      unfold satisfy
      cases ready.readyTx.lookup hash <;> rfl
    simp [foldl_cons, first, ih]

theorem foldl_satisfy_id (ready : ReadyTransactions) :
    (hashes.foldl satisfy ready).id = ready.id := by
  induction hashes generalizing ready with
  | nil => rfl
  | cons hash hashes ih =>
    rw [foldl_cons, ih]
    unfold satisfy
    cases ready.readyTx.lookup hash <;> rfl

theorem foldl_previousMarkers (hash : TxHash)
    (providedMarkers : HashMap TxMarker TxHash) (requires : List TxMarker)
    (state : HashMap TxHash ReadyTransaction × List TxMarker) :
    (requires.foldl (previousMarkers hash providedMarkers) state).1 =
      unlinkProviders providedMarkers hash state.1 requires := by
  induction requires generalizing state with
  | nil => rfl
  | cons marker requires ih =>
    have first : (previousMarkers hash providedMarkers state marker).1 =
        unlinkProviders providedMarkers hash state.1 [marker] := by
      unfold previousMarkers unlinkProviders
      rw [foldl_cons]
      cases providedMarkers.lookup marker with
      | none => rfl
      | some provider =>
        cases kept : (removeUnlock state.1 provider hash).lookup provider with
        | none =>
          rw [lookup_removeUnlock, if_pos rfl, map_eq_none_iff] at kept
          simp [removeUnlock, kept]
        | some tx =>
          simp only [kept]
          split <;> rfl
    rw [foldl_cons, ih, first]
    rfl

/-- `previous_markers` names the provider of the pruned transaction if it
unlocks nothing else. -/
theorem Invariant.previousMarkers_cases (invariant : ready.Invariant unwrapped detached)
    (found : ready.readyTx.lookup hash = some tx)
    (providedMarkers : HashMap TxMarker TxHash) :
    (tx.tx.requires.foldl (previousMarkers hash providedMarkers)
      (ready.readyTx.erase hash, [])).2 = [] ∨
    ∃ provider providerTx, ready.readyTx.lookup provider = some providerTx ∧
      unlinked providerTx.unlocks hash = [] ∧
      tx.tx.requires.length = 1 ∧
      (tx.tx.requires.foldl (previousMarkers hash providedMarkers)
        (ready.readyTx.erase hash, [])).2 = providerTx.tx.provides := by
  rcases (invariant.shaped found).2.requires with nothing | ⟨_, requires⟩
  · rw [nothing]
    exact .inl rfl
  rw [requires, foldl_cons, foldl_nil, previousMarkers]
  cases providedMarkers.lookup (toMarker (tx.tx.nonce - 1) tx.tx.sender) with
  | none => exact .inl rfl
  | some provider =>
    cases kept : (removeUnlock (ready.readyTx.erase hash) provider hash).lookup provider with
    | none =>
      left
      simp only [kept]
    | some providerTx =>
      simp only [kept]
      split
      · rename_i idle
        rw [lookup_removeUnlock, if_pos rfl, map_eq_some_iff] at kept
        obtain ⟨earlier, stored, rfl⟩ := kept
        rw [lookup_erase_eq] at stored
        split at stored
        · cases stored
        · exact .inr ⟨provider, earlier, stored, isEmpty_iff.mp idle, rfl, rfl⟩
      · exact .inl rfl

/-- Whoever provides the marker unlocks nothing. -/
def Idle (ready : ReadyTransactions) (marker : TxMarker) : Prop :=
  ∀ {hash tx}, ready.readyTx.lookup hash = some tx → marker ∈ tx.tx.provides → tx.unlocks = []

theorem Removed.idle {satisfied : List TxHash} {marker : TxMarker} {after : ReadyTransactions}
    (removed : Removed ready after hash tx satisfied)
    (idle : ready.Idle marker) : after.Idle marker := by
  intro probe _ stored provides
  obtain ⟨_, other, earlier, rfl⟩ := removed.lookup_eq_some.mp stored
  have nothing := idle earlier provides
  change unlinked other.unlocks hash = []
  rw [nothing]
  exact unlinked_of_notMem not_mem_nil

theorem foldlM_removeProvided (providedMarkers : HashMap TxMarker TxHash)
    (marker : TxMarker) (hash : TxHash) :
    [marker].foldlM (removeProvided marker hash) (providedMarkers.erase marker) =
      .ok ((providedMarkers.erase marker).erase marker) := by
  have last : removeProvided marker hash (providedMarkers.erase marker)
      marker = .ok ((providedMarkers.erase marker).erase marker) := by
    simp [removeProvided]
  rw [Except.foldlM_cons_eq, last]
  rfl

section

variable (invariant : ready.Invariant unwrapped detached)

include invariant

/-- The transactions that a removed one unlocks count its marker as satisfied
and get independent. -/
theorem Removed.foldl_satisfy {middle : ReadyTransactions}
    (removed : Removed ready middle hash tx [])
    (found : ready.readyTx.lookup hash = some tx) :
    Removed ready (tx.unlocks.foldl satisfy middle) hash tx tx.unlocks := by
  have lookups := removed.readyTx
  have stored : ∀ {other otherTx}, other ∈ tx.unlocks → ready.readyTx.lookup other = some otherTx →
      middle.readyTx.lookup other = some { otherTx with
        unlocks := unlinked otherTx.unlocks hash } := by
    intro other otherTx member otherFound
    have different := (invariant.listed otherFound found member).2.1.symm
    simp [lookups, if_neg different, otherFound]
  have earlier : ∀ {ref}, (∃ other otherTx, other ∈ tx.unlocks ∧
        middle.readyTx.lookup other = some otherTx ∧
        otherTx.transaction = ref) ↔
      ∃ other otherTx, other ∈ tx.unlocks ∧ ready.readyTx.lookup other = some otherTx ∧
        otherTx.transaction = ref := by
    intro ref
    constructor
    · rintro ⟨other, otherTx, member, otherFound, rfl⟩
      obtain ⟨_, earlier, earlierFound, rfl⟩ := removed.lookup_eq_some.mp otherFound
      exact ⟨other, earlier, member, earlierFound, rfl⟩
    · rintro ⟨other, otherTx, member, otherFound, rfl⟩
      exact ⟨other, _, member, stored member otherFound, rfl⟩
  constructor
  · intro probe
    rw [lookup_foldl_satisfy (invariant.nodup found), lookups]
    by_cases same : probe = hash
    · rw [if_pos same, if_pos same]
      rfl
    · rw [if_neg same, if_neg same, Option.map_map]
      rfl
  · have frame := congrArg providedMarkers
      (foldl_satisfy_providedMarkers tx.unlocks middle middle.providedMarkers)
    intro marker
    exact (congrArg (AList.lookup marker) frame).trans (removed.provided marker)
  · intro ref member
    rcases mem_independent_of_foldl_satisfy member with stays | isSatisfied
    · refine .inl ((removed.entered stays).resolve_right ?_)
      rintro ⟨_, _, none, _⟩
      cases none
    · exact .inr (earlier.mp isSatisfied)
  · intro keyed ref isMember
    apply (removed.keyed found keyed).mem_foldl_satisfy (invariant.nodup found)
    · intro other member
      obtain ⟨otherTx, _, otherFound, _⟩ := invariant.unlocks found member
      obtain ⟨offset, length⟩ := invariant.unlocked found member otherFound
      refine ⟨_, stored member otherFound, ?_⟩
      rw [offset, length]
    exact isMember.imp (fun stays => removed.kept keyed (.inl stays)) earlier.mpr
  · rw [foldl_satisfy_id, removed.id]

theorem Invariant.pruneTransaction_eq_ok {marker : TxMarker}
    (found : ready.readyTx.lookup hash = some tx)
    (provides : marker ∈ tx.tx.provides) :
    ∃ after previous, pruneTransaction
        { ready with
          providedMarkers := ready.providedMarkers.erase marker
          readyTx := ready.readyTx.erase hash } marker tx =
        .ok (after, previous) ∧
      Removed ready after hash tx tx.unlocks ∧
      previous.length ≤ tx.tx.requires.length ∧
      ∀ marker ∈ previous, after.Idle marker := by
  obtain ⟨sameHash, shaped⟩ := invariant.shaped found
  have own : tx.tx.provides = [marker] := by
    rw [shaped.eq_of_mem_provides provides]
    exact shaped.provides
  have same : ∀ required ∈ tx.tx.requires, (ready.providedMarkers.erase marker).lookup required =
        ready.providedMarkers.lookup required := by
    intro required member
    rw [lookup_erase_ne]
    rintro rfl
    exact shaped.notMem_provides member provides
  have satisfied := (invariant.removed_unlinkProviders found same).foldl_satisfy invariant found
  have removed : Removed ready
      { tx.unlocks.foldl satisfy _ with
        providedMarkers := (ready.providedMarkers.erase marker).erase marker }
      hash tx tx.unlocks :=
    { readyTx := satisfied.readyTx
      entered := satisfied.entered
      kept := satisfied.kept
      id := satisfied.id
      provided := by
        intro probe
        simp only [lookup_erase_eq, own, mem_singleton]
        split
        · rfl
        · rfl }
  refine ⟨_, (tx.tx.requires.foldl (previousMarkers hash
    (ready.providedMarkers.erase marker)) (ready.readyTx.erase hash, [])).2, ?_, removed, ?_⟩
  · simp only [pruneTransaction, sameHash, foldl_previousMarkers]
    rw [own]
    have satisfied := foldl_satisfy_providedMarkers tx.unlocks
      { ready with
        providedMarkers := ready.providedMarkers.eraseAll [marker]
        readyTx := unlinkProviders (ready.providedMarkers.erase marker) hash
          (ready.readyTx.erase hash) tx.tx.requires
        independentTransactions := ready.independentTransactions.remove tx.transaction.key }
      (ready.providedMarkers.erase marker)
    rw [satisfied, foldlM_removeProvided]
    rfl
  rcases invariant.previousMarkers_cases found (ready.providedMarkers.erase marker) with
    nothing | ⟨provider, providerTx, stored, idle, single, previous⟩
  · rw [nothing]
    exact ⟨Nat.zero_le _, fun marker none => absurd none not_mem_nil⟩
  rw [previous, single]
  constructor
  · rw [(invariant.shaped stored).2.provides]
    exact Nat.le_refl 1
  intro marker named probe _ laterStored provides
  obtain ⟨_, other, earlier, rfl⟩ := removed.lookup_eq_some.mp laterStored
  have provided := invariant.provided.mpr ⟨other, earlier, provides⟩
  rw [invariant.provided.mpr ⟨providerTx, stored, named⟩] at provided
  obtain rfl := some.inj provided
  rw [some.inj (earlier.symm.trans stored)]
  exact idle

end

/-- The loop of `prune_tags` ends without a panic. -/
theorem pruneLoop_eq_ok {pruned : TxMarker} {fuel : ℕ} (stack : List TxMarker)
    (removed : List PoolTransaction)
    (invariant : ready.Invariant unwrapped fun _ => False)
    (idle : ∀ marker ∈ stack, marker = pruned ∨ ready.Idle marker)
    (enough : stack.length + (ready.readyTx.values.map (·.tx.requires.length)).sum ≤ fuel) :
    ∃ after gone, pruneLoop fuel ready stack removed = .ok (after, removed ++ gone) ∧
      after.Invariant unwrapped (fun _ => False) ∧
      Shrinks (· = pruned) ready after ∧ Reports ready after gone ∧
      ∀ marker ∈ stack, marker ∉ after.providedMarkers := by
  induction fuel, stack using Loop.worklist generalizing ready removed with
  | nil fuel =>
    refine ⟨ready, [], ?_, invariant, invariant.shrinks_refl, .refl ready, fun _ => nofun⟩
    rw [pruneLoop, append_nil]
  | zero marker stack => simp at enough
  | succ fuel marker stack ih =>
    rw [length_cons] at enough
    obtain ⟨first, rest⟩ := forall_mem_cons.mp idle
    cases provided : ready.providedMarkers.lookup marker with
    | none =>
      obtain ⟨after, gone, looped, afterInvariant, shrinks, reports,
        unprovided⟩ := ih stack removed invariant rest
        (by omega)
      have absent : marker ∉ after.providedMarkers := by
        intro member
        have earlier := shrinks.mem_providedMarkers invariant afterInvariant member
        simp [← lookup_isSome, provided] at earlier
      refine ⟨after, gone, ?_, afterInvariant, shrinks, reports,
        forall_mem_cons.mpr ⟨absent, unprovided⟩⟩
      rw [pruneLoop, provided]
      exact looped
    | some hash =>
      obtain ⟨tx, found, provides⟩ := invariant.provided.mp provided
      obtain ⟨middle, previous, step, isRemoved, short, named⟩ :=
        invariant.pruneTransaction_eq_ok found provides
      have lighter := isRemoved.sum_le found (·.tx.requires.length)
        fun other _ => Nat.le_refl other.tx.requires.length
      have middleInvariant : middle.Invariant unwrapped fun _ => False := by
        apply (isRemoved.invariant invariant found (fun member => member)).mono
        rintro other otherTx _ (isDetached | unlocked)
        · exact isDetached
        · exact unlocked.2 unlocked.1
      have middleIdle : ∀ marker ∈ previous.reverse ++ stack,
          marker = pruned ∨ middle.Idle marker := by
        intro other member
        rcases mem_append.mp member with isNamed | later
        · exact .inr (named other (mem_reverse.mp isNamed))
        · exact (rest other later).imp_right isRemoved.idle
      have counted : ∀ {other}, other ∈ tx.unlocks →
          other ∈ tx.unlocks ∧ ∀ marker ∈ tx.tx.provides, marker = pruned := by
        intro other member
        refine ⟨member, ?_⟩
        intro own ownProvides
        have shaped := (invariant.shaped found).2
        rcases first with rfl | idle
        · rw [shaped.eq_of_mem_provides ownProvides, ← shaped.eq_of_mem_provides provides]
        · simp [idle found provides] at member
      obtain ⟨after, gone, looped, afterInvariant, shrinks, reports,
        unprovided⟩ := ih (previous.reverse ++ stack)
          (removed ++ [tx.tx]) middleInvariant middleIdle (by
            rw [length_append, length_reverse]
            omega)
      have absent : marker ∉ after.providedMarkers := by
        intro member
        have earlier := shrinks.mem_providedMarkers middleInvariant afterInvariant member
        simp [← lookup_isSome, isRemoved.provided, if_pos provides] at earlier
      refine ⟨after, tx.tx :: gone, ?_, afterInvariant,
        (isRemoved.shrinks invariant found counted).trans shrinks,
        (isRemoved.reports invariant found).trans reports,
        forall_mem_cons.mpr ⟨absent, fun other later =>
          unprovided other (mem_append_right _ later)⟩⟩
      rw [append_cons]
      simp only [pruneLoop, provided, found, step]
      exact looped

theorem pruneTags_eq_ok (invariant : ready.Invariant unwrapped fun _ => False) (marker : TxMarker) :
    ∃ after gone, ready.pruneTags marker = .ok (after, gone) ∧
      after.Invariant unwrapped (fun _ => False) ∧
      Shrinks (· = marker) ready after ∧ Reports ready after gone ∧
      ∀ pruned ∈ [marker], pruned ∉ after.providedMarkers := by
  apply pruneLoop_eq_ok [marker] [] invariant
  · intro other member
    exact .inl (mem_singleton.mp member)
  apply Nat.add_le_add_left
  cases stored : ready.readyTx.values with
  | nil => exact Nat.zero_le _
  | cons tx txs =>
    apply Nat.le_mul_of_pos_right
    have member : tx ∈ ready.readyTx.values := by
      rw [stored]
      exact mem_cons_self
    obtain ⟨hash, found⟩ := mem_values_iff.mp member
    rw [map_cons, (invariant.shaped found).2.provides]
    exact Nat.add_pos_left Nat.one_pos _

end Loops

end SwissledgerFoundry.Pool.ReadyTransactions
