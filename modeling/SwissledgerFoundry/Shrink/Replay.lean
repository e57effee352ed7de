import SwissledgerFoundry.Shrink.Sequence

/-!
# Replaying a shrunk sequence

Checking the rebuilt list in full gives the verdict of the candidate it was
built from, and its value is that of the candidate with the trailing delays left
out.
-/

namespace SwissledgerFoundry.Shrink

open List BasicTxDetails

/-- Included call indices among the `count` calls from `idx` on. -/
def includedFrom (includedCalls : Finset ℕ) (idx count : ℕ) : List ℕ :=
  (List.range' idx count).filter (· ∈ includedCalls)

variable {includedCalls : Finset ℕ} {idx : ℕ}

theorem includedFrom_succ_of_mem (member : idx ∈ includedCalls) (count : ℕ) :
    includedFrom includedCalls idx (count + 1) =
      idx :: includedFrom includedCalls (idx + 1) count := by
  simp [includedFrom, range'_succ, member]

theorem includedFrom_succ_of_not_mem (absent : idx ∉ includedCalls) (count : ℕ) :
    includedFrom includedCalls idx (count + 1) = includedFrom includedCalls (idx + 1) count := by
  simp [includedFrom, range'_succ, absent]

/-- The candidate never selects an index before the one it starts from. -/
theorem head?_includedFrom_ne (count : ℕ) :
    (includedFrom includedCalls (idx + 1) count).head? ≠ some idx := by
  intro selected
  have member : idx ∈ includedFrom includedCalls (idx + 1) count :=
    mem_of_mem_head? (by simp [selected])
  have bounds := mem_range'_1.mp (mem_of_mem_filter member)
  omega

theorem finRange_map_val (count : ℕ) : (finRange count).map Fin.val = range' 0 count := by
  rw [← range_eq_range']
  exact map_coe_finRange_eq_range

theorem CallSequenceShrinker.current_map_val {callSequenceLen : ℕ}
    (shrinker : CallSequenceShrinker callSequenceLen) :
    shrinker.current.map Fin.val = includedFrom shrinker.includedCalls 0 callSequenceLen := by
  rw [includedFrom, ← finRange_map_val, filter_map]
  rfl

theorem applyWarpRoll_own_delay (call : BasicTxDetails) :
    applyWarpRoll call (0 + call.warp.getD 0) (0 + call.roll.getD 0) = call := by
  obtain ⟨warp, roll, sender, callDetails⟩ := call
  simp only [applyWarpRoll, mk.injEq, and_true]
  constructor
  · cases warp <;> simp
  · cases roll <;> simp

/-- What a shrunk call keeps of the original one. -/
def BasicTxDetails.identity (tx : BasicTxDetails) : Address × CallDetails :=
  (tx.sender, tx.callDetails)

private theorem buildAccumulated_sublist (includedCalls : Finset ℕ)
    (calls : List BasicTxDetails) (idx : ℕ) (warp roll : U256) :
    ((buildAccumulated includedCalls idx calls warp roll).map
      identity).Sublist (calls.map identity) := by
  induction calls generalizing idx warp roll with
  | nil => simp [buildAccumulated]
  | cons call calls ih =>
    by_cases member : idx ∈ includedCalls
    · simp only [buildAccumulated, member, if_true, map_cons]
      exact (ih (idx + 1) 0 0).cons_cons _
    · simp only [buildAccumulated, member, if_false, map_cons]
      exact (ih (idx + 1) _ _).cons _

/-- The rebuilt sequence keeps senders, targets and calldata of a subsequence
of the calls, in order. -/
theorem buildShrunkSequence_sublist (calls : List BasicTxDetails)
    (shrinker : CallSequenceShrinker calls.length)
    (accumulateWarpRoll : Bool) :
    ((buildShrunkSequence calls shrinker accumulateWarpRoll).map
      identity).Sublist (calls.map identity) := by
  cases accumulateWarpRoll with
  | true => exact buildAccumulated_sublist _ calls 0 0 0
  | false =>
    have selected : (shrinker.current.map calls.get).Sublist calls := by
      have kept := (filter_sublist (p := fun index : Fin calls.length =>
          decide (index.val ∈ shrinker.includedCalls))
        (l := finRange calls.length)).map calls.get
      simpa [CallSequenceShrinker.current, map_get_finRange] using kept
    exact selected.map identity

section

variable {Rest World Outcome Decoder Err : Type}
variable (evm : Evm Rest World Outcome Decoder Err)

/-- Executing the included calls of `calls` and executing the rebuilt list in
full make the same calls, whatever index the rebuilt list is counted from. -/
private theorem checkAccumulated_rebuilt (testAddress : Address)
    (calldata : Bytes) (options : CheckSequenceOptions Decoder)
    (includedCalls : Finset ℕ) (calls : List BasicTxDetails)
    (idx start : ℕ) (warp roll : U256) (executor : Executor Rest World) :
    checkAccumulated evm testAddress calldata options start
        (buildAccumulated includedCalls idx calls warp roll)
        (range' start (buildAccumulated includedCalls idx calls warp roll).length)
        0 0 executor =
      checkAccumulated evm testAddress calldata options idx calls
        (includedFrom includedCalls idx calls.length) warp roll executor := by
  induction calls generalizing idx start warp roll executor with
  | nil => simp [buildAccumulated, checkAccumulated]
  | cons call calls ih =>
    by_cases member : idx ∈ includedCalls
    · simp only [buildAccumulated, member, if_true, length_cons,
        range'_succ, includedFrom_succ_of_mem member, checkAccumulated,
        head?_cons, tail_cons, applyWarpRoll_own_delay]
      split
      · rfl
      · rfl
      · exact ih (idx + 1) (start + 1) 0 0 _
    simp only [buildAccumulated, member, if_false, length_cons,
      includedFrom_succ_of_not_mem member, checkAccumulated,
      head?_includedFrom_ne]
    exact ih (idx + 1) start _ _ executor

/-- Checking the rebuilt sequence in full gives the verdict of the candidate
it was built from. -/
theorem checkSequence_buildShrunkSequence
    (executor : Executor Rest World) (calls : List BasicTxDetails)
    (shrinker : CallSequenceShrinker calls.length) (testAddress : Address)
    (calldata : Bytes) (options : CheckSequenceOptions Decoder) :
    checkSequence evm executor (buildShrunkSequence calls shrinker options.accumulateWarpRoll)
        (finRange _) testAddress calldata options =
      checkSequence evm executor calls shrinker.current testAddress calldata
        options := by
  cases accumulates : options.accumulateWarpRoll with
  | true =>
    simp only [checkSequence, accumulates, if_true, finRange_map_val, shrinker.current_map_val]
    exact checkAccumulated_rebuilt evm testAddress calldata options
      shrinker.includedCalls calls 0 0 0 0 executor
  | false => simp [checkSequence, accumulates, buildShrunkSequence, map_get_finRange]

/-- The executor a candidate ends with does not depend on whether the
candidate or the rebuilt list is executed; the rebuilt list has no delay left
over. -/
private theorem sequenceValueLoop_rebuilt (includedCalls : Finset ℕ)
    (calls : List BasicTxDetails) (idx start : ℕ) (warp roll : U256)
    (executor : Executor Rest World) :
    sequenceValueLoop evm start (buildAccumulated includedCalls idx calls warp roll)
        (range' start (buildAccumulated includedCalls idx calls warp roll).length)
        0 0 executor =
      (sequenceValueLoop evm idx calls
        (includedFrom includedCalls idx calls.length) warp roll executor).map
          (fun final => (final.1, 0, 0)) := by
  induction calls generalizing idx start warp roll executor with
  | nil => simp [buildAccumulated, sequenceValueLoop, Except.map]
  | cons call calls ih =>
    by_cases member : idx ∈ includedCalls
    · simp only [buildAccumulated, member, if_true, length_cons, range'_succ,
        includedFrom_succ_of_mem member, sequenceValueLoop, head?_cons,
        tail_cons, applyWarpRoll_own_delay]
      split
      · rfl
      · exact ih (idx + 1) (start + 1) 0 0 _
    simp only [buildAccumulated, member, if_false, length_cons,
      includedFrom_succ_of_not_mem member, sequenceValueLoop,
      head?_includedFrom_ne]
    exact ih (idx + 1) start _ _ executor

variable (executor : Executor Rest World) (calls : List BasicTxDetails)

/-- The value of a candidate when the delays of the calls dropped after its
last kept call are left out. -/
def valueWithoutTrailingDelay (sequence : List (Fin calls.length))
    (testAddress : Address) (calldata : Bytes) :
    Except (Report Err) (Option I256) := do
  let (executor, _, _) ← sequenceValueLoop evm 0 calls (sequence.map Fin.val) 0 0 executor
  invariantValue evm testAddress calldata executor

/-- Replaying the rebuilt sequence gives the value of its candidate without
the trailing delays. -/
theorem checkSequenceValue_buildShrunkSequence
    (shrinker : CallSequenceShrinker calls.length) (testAddress : Address)
    (calldata : Bytes) :
    checkSequenceValue evm executor (buildShrunkSequence calls shrinker true)
        (finRange _) testAddress calldata =
      valueWithoutTrailingDelay evm executor calls shrinker.current testAddress calldata := by
  simp only [checkSequenceValue, valueWithoutTrailingDelay, finRange_map_val,
    shrinker.current_map_val]
  have rebuilt := sequenceValueLoop_rebuilt evm shrinker.includedCalls calls 0 0 0 0 executor
  simp only [buildShrunkSequence, if_true]
  rw [rebuilt]
  cases sequenceValueLoop evm 0 calls
      (includedFrom shrinker.includedCalls 0 calls.length) 0 0 executor with
  | error error => rfl
  | ok final =>
    exact congrArg (invariantValue evm testAddress calldata) (applyWarpRollToEnv_zero final.1)

end

end SwissledgerFoundry.Shrink
