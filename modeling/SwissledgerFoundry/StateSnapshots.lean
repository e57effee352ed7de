import SwissledgerFoundry.Collections.HashMap
import SwissledgerFoundry.Collections.Transition
import SwissledgerFoundry.Primitives

/-!
# State snapshots

Removing a snapshot also removes every snapshot taken after it.  Only the
largest id has no successor: removing it removes every snapshot.
-/

namespace SwissledgerFoundry

open AList Transition BitVec

structure StateSnapshots (State : Type) where
  id : U256
  stateSnapshots : HashMap U256 State

namespace StateSnapshots

variable {State : Type}

def empty : StateSnapshots State := { id := 0, stateSnapshots := ∅ }

def insert (snapshots : StateSnapshots State) (state : State) : StateSnapshots State × U256 :=
  ({ id := U256.saturatingAdd snapshots.id 1
     stateSnapshots := snapshots.stateSnapshots.insert snapshots.id state },
    snapshots.id)

/-- The loop of `remove`, which erases the ids from `toRevert` up to `limit`.
The id grows in each round, so `limit` rounds are enough. -/
def removeUpTo (limit : U256) : ℕ → U256 → HashMap U256 State → HashMap U256 State
  | 0, _, map => map
  | rounds + 1, toRevert, map =>
    if toRevert < limit then
      removeUpTo limit rounds (toRevert + 1) (map.erase toRevert)
    else map

/-- Removes the snapshot with the given id and those taken after it. -/
def remove (snapshots : StateSnapshots State) (id : U256) : Option State × StateSnapshots State :=
  (snapshots.stateSnapshots.lookup id,
    { snapshots with
      stateSnapshots := removeUpTo snapshots.id snapshots.id.toNat (id + 1)
        (snapshots.stateSnapshots.erase id) })

variable {map : HashMap U256 State} {limit toRevert : U256}

theorem removeUpTo_lookup {state : State} {rounds : ℕ} {id : U256}
    (found : (removeUpTo limit rounds toRevert map).lookup id =
      some state) : map.lookup id = some state := by
  induction rounds generalizing toRevert map with
  | zero => exact found
  | succ rounds ih =>
    rw [removeUpTo] at found
    split at found
    · exact lookup_of_erase (ih found)
    · exact found

variable {snapshots : StateSnapshots State}

theorem remove_lookup (removed : U256) {id : U256} {state : State}
    (found : (snapshots.remove removed).2.stateSnapshots.lookup id = some state) :
    snapshots.stateSnapshots.lookup id = some state := by
  have erased := removeUpTo_lookup found
  exact lookup_of_erase erased

theorem removeUpTo_eq {rounds : ℕ} {probe : U256} (enough : limit.toNat ≤ toRevert.toNat + rounds) :
    (removeUpTo limit rounds toRevert map).lookup probe =
      if toRevert ≤ probe ∧ probe < limit then none
      else map.lookup probe := by
  induction rounds generalizing toRevert map with
  | zero => rw [removeUpTo, if_neg (by bv_omega)]
  | succ rounds ih =>
    rw [removeUpTo]
    split
    · rw [ih (by bv_omega), lookup_erase_eq]
      split_ifs <;> first | rfl | bv_omega
    · rw [if_neg (by bv_omega)]

inductive Operation (State : Type) where
  | insert (state : State)
  | insertAt (state : State) (id : U256)
  | remove (id : U256)
  | removeAt (id : U256)
  | clear

section

variable (snapshots : StateSnapshots State)

def step : Operation State → StateSnapshots State
  | .insert state => (snapshots.insert state).1
  | .insertAt state id =>
    { snapshots with stateSnapshots := snapshots.stateSnapshots.insert id state }
  | .remove id => (snapshots.remove id).2
  | .removeAt id => { snapshots with stateSnapshots := snapshots.stateSnapshots.erase id }
  | .clear => { snapshots with stateSnapshots := ∅ }

/-- A snapshot is put back at an id that was returned, and there is an id for
the next one. -/
def Returned : Operation State → Prop
  | .insertAt _ id => id < snapshots.id
  | .insert _ => snapshots.id < allOnes 256
  | _ => True

/-- The ids of the store were returned. -/
def Bounded : Prop :=
  ∀ id ∈ snapshots.stateSnapshots, id < snapshots.id

end

theorem Bounded.step {operation : Operation State} (bounded : snapshots.Bounded)
    (returned : snapshots.Returned operation) :
    (snapshots.step operation).Bounded := by
  intro id member
  cases operation with
  | insert state =>
    have next : U256.saturatingAdd snapshots.id 1 = snapshots.id + 1 := by
      unfold Returned at returned
      exact if_pos (by bv_omega)
    change id < U256.saturatingAdd snapshots.id 1
    unfold Returned at returned
    rw [next]
    rcases (mem_insert _).mp member with rfl | earlier
    · bv_omega
    · have := bounded id earlier
      bv_omega
  | insertAt state other =>
    rcases (mem_insert _).mp member with rfl | earlier
    · exact returned
    · exact bounded id earlier
  | remove other =>
    obtain ⟨state, found⟩ := mem_iff_exists_lookup.mp member
    exact bounded id (mem_of_lookup (remove_lookup other found))
  | removeAt other => exact bounded id (mem_erase.mp member).2
  | clear => exact absurd member (notMem_empty id)

/-- In every store that is reached, removing any id but the largest one returns
its entry and leaves the entries with smaller ids, and the next id is free. -/
theorem run_remove_exact (operations : List (Operation State))
    (returned : Transition.Along step Returned empty operations) :
    ∀ reached, reached <+: operations → (∀ id < allOnes 256,
        ((run step empty reached).remove id).1 = (run step empty reached).stateSnapshots.lookup id ∧
        ∀ probe, ((run step empty reached).remove id).2.stateSnapshots.lookup probe =
          if probe < id then
            (run step empty reached).stateSnapshots.lookup probe
          else none) ∧
      ∀ state, ((run step empty reached).insert state).2 ∉
        (run step empty reached).stateSnapshots := by
  intro reached shorter
  have bounded : (run step empty reached : StateSnapshots State).Bounded :=
    invariant_along Bounded (fun _ _ bounded returned => bounded.step returned)
      (fun id member => absurd member (notMem_empty id)) returned
      reached shorter
  generalize run step empty reached = snapshots at bounded ⊢
  refine ⟨?_, fun state used => absurd (bounded _ used) (by simp [insert])⟩
  intro id small
  refine ⟨rfl, ?_⟩
  intro probe
  have next : (id + 1).toNat = id.toNat + 1 := by bv_omega
  rw [remove, removeUpTo_eq (by omega), lookup_erase_eq]
  by_cases below : probe < id
  · rw [if_pos below, if_neg (by bv_omega), if_neg (by bv_omega)]
  rw [if_neg below]
  by_cases stored : probe ∈ snapshots.stateSnapshots
  · have := bounded probe stored
    split
    · rfl
    · exact if_pos (by bv_omega)
  · rw [lookup_eq_none.mpr stored, ite_self, ite_self]

theorem run_remove_exact_first : ((run step empty [Operation.insert 'a', .insert 'b']).remove
        1).2.stateSnapshots.lookup 0 = some 'a' := by
  have exact := run_remove_exact [Operation.insert 'a', .insert 'b']
    ⟨(by decide : (0 : U256) < allOnes 256),
      (by decide : (1 : U256) < allOnes 256), trivial⟩ _ List.prefix_rfl
  rw [(exact.1 1 (by decide)).2 0]
  rfl

/-- The successor of the largest id is zero, so everything is removed. -/
theorem remove_largest : (run step empty [Operation.insert 'a']).remove
        (allOnes 256) = (none, { id := 1, stateSnapshots := ∅ }) := by
  rfl

end StateSnapshots

end SwissledgerFoundry
