import Mathlib.Data.List.Sublists
import SwissledgerFoundry.Shrink.Soundness

/-!
# Shrinking ends with a minimal sequence

A scan around all calls that drops none has tried each call that is left, and
a scan that drops one leaves fewer calls.
-/

namespace SwissledgerFoundry.Shrink

open List CallSequenceShrinker

section Search

variable {callSequenceLen : ℕ}

/-- No call that is left can be dropped. -/
def Minimal {Err : Type*} (judge : CallSequenceShrinker callSequenceLen → Except Err Judgement)
    (shrinker : CallSequenceShrinker callSequenceLen) : Prop :=
  ∀ index ∈ shrinker.includedCalls, judge (shrinker.clear index) = .ok .restore

/-- The index is one of the last `tried` ones before `callIdx`, around the
end. -/
def Behind (callSequenceLen callIdx tried index : ℕ) : Prop :=
  index < callIdx ∧ callIdx ≤ index + tried ∨ callIdx + callSequenceLen ≤ index + tried

variable {Err : Type} {judge : CallSequenceShrinker callSequenceLen → Except Err Judgement}
  {shrinker : CallSequenceShrinker callSequenceLen}

theorem minimal_of_count_eq_one (empty : judge ⟨∅⟩ = .ok .restore) (single : shrinker.count = 1) :
    Minimal judge shrinker := by
  obtain ⟨only, listed⟩ := Finset.card_eq_one.mp single
  intro index member
  have same : index = only := Finset.mem_singleton.mp (listed ▸ member)
  rw [clear, listed, same, Finset.erase_singleton, empty]

section

variable (total : ∀ candidate, judge candidate = .ok .keep ∨ judge candidate = .ok .restore)

include total

/-- If each index behind the current one was tried since the last call was
dropped, the steps that are left suffice to drop all calls but one. -/
theorem shrinkLoop_minimal {callIdx tried limit iteration : ℕ} (empty : judge ⟨∅⟩ = .ok .restore)
    (kept : judge shrinker = .ok .keep)
    (bounded : ∀ index ∈ shrinker.includedCalls, index < callSequenceLen)
    (inside : callIdx < callSequenceLen)
    (behind : ∀ index ∈ shrinker.includedCalls, Behind callSequenceLen callIdx tried index →
      judge (shrinker.clear index) = .ok .restore)
    (enough : callSequenceLen * shrinker.count ≤ limit + tried) :
    ∃ final, shrinkLoop judge (fun _ => false) limit iteration callIdx shrinker = .ok final ∧
      Minimal judge final := by
  induction limit generalizing iteration callIdx shrinker tried with
  | zero =>
    refine ⟨shrinker, rfl, fun index member => behind index member ?_⟩
    have positive : 0 < shrinker.count := Finset.card_pos.mpr ⟨index, member⟩
    have round := (Nat.le_mul_of_pos_right callSequenceLen positive).trans enough
    have bound := bounded index member
    unfold Behind
    omega
  | succ limit ih =>
    have next : shrinker.nextIndex callIdx < callSequenceLen := by
      unfold nextIndex
      split <;> omega
    have further (needed : callIdx ∈ shrinker.includedCalls →
        judge (shrinker.clear callIdx) = .ok .restore) :
        ∃ final, shrinkLoop judge (fun _ => false) limit (iteration + 1)
          (shrinker.nextIndex callIdx) shrinker = .ok final ∧ Minimal judge final := by
      refine ih kept bounded next ?_ (show _ ≤ limit + (tried + 1) by omega)
      intro index member passed
      by_cases here : index = callIdx
      · exact here ▸ needed (here ▸ member)
      apply behind index member
      have bound := bounded index member
      unfold Behind nextIndex at *
      split at passed <;> omega
    rw [shrinkLoop, if_neg Bool.false_ne_true]
    rcases total (shrinker.clear callIdx) with keeps | restores
    · simp only [keeps]
      split
      · rename_i single
        exact ⟨_, rfl, minimal_of_count_eq_one empty single⟩
      by_cases member : callIdx ∈ shrinker.includedCalls
      · have early : tried < callSequenceLen := by
          by_contra late
          have restores := behind callIdx member (.inr (by omega))
          simp [restores] at keeps
        have fewer : shrinker.count = (shrinker.clear callIdx).count + 1 :=
          (Finset.card_erase_add_one member).symm
        have rest : ∀ index ∈ (shrinker.clear callIdx).includedCalls, index < callSequenceLen :=
          fun index member => bounded index (Finset.mem_of_mem_erase member)
        rw [fewer, Nat.mul_succ] at enough
        refine ih keeps rest next ?_ (show _ ≤ limit + 0 by omega)
        intro index member passed
        have bound := rest index member
        unfold Behind at passed
        omega
      have same : shrinker.clear callIdx = shrinker := by
        rw [clear, Finset.erase_eq_of_notMem member]
      rw [same]
      exact further fun listed => absurd listed member
    · have changed : shrinker.clear callIdx ≠ shrinker := by
        intro same
        simp [same, kept] at restores
      simp only [restores, shrinker.set_clear changed]
      exact further fun _ => restores

theorem shrinkLoop_new_minimal {limit : ℕ}
    (empty : judge ⟨∅⟩ = .ok .restore) (kept : judge (.new callSequenceLen) = .ok .keep)
    (enough : callSequenceLen * (callSequenceLen + 1) ≤ limit) :
    ∃ final, shrinkLoop judge (fun _ => false) limit 0 0 (.new callSequenceLen) = .ok final ∧
      Minimal judge final := by
  have inside : 0 < callSequenceLen := by
    apply Nat.pos_of_ne_zero
    rintro rfl
    cases kept.symm.trans empty
  refine shrinkLoop_minimal total empty kept (fun _ => Finset.mem_range.mp) inside ?_
    (show _ ≤ limit + 0 from ?_)
  · intro index member passed
    have bound := Finset.mem_range.mp member
    unfold Behind at passed
    omega
  · rw [CallSequenceShrinker.count, CallSequenceShrinker.new, Finset.card_range]
    exact (Nat.mul_le_mul_left _ (Nat.le_succ _)).trans enough

end

end Search

/-- The first call takes over the delay of a call before it. -/
def foldDelay (warp roll : U256) : List BasicTxDetails → List BasicTxDetails
  | [] => []
  | call :: calls => applyWarpRoll call (warp + call.warp.getD 0) (roll + call.roll.getD 0) :: calls

/-- A sequence without one of its calls; with delays the next call takes over
the delay. -/
def withoutCall (hasDelay : Bool) : List BasicTxDetails → ℕ → List BasicTxDetails
  | [], _ => []
  | call :: calls, 0 =>
    if hasDelay then foldDelay (call.warp.getD 0) (call.roll.getD 0) calls else calls
  | call :: calls, position + 1 => call :: withoutCall hasDelay calls position

/-- The sums of the delays do not overflow. -/
def DelaysFit (warp roll : ℕ) (calls : List BasicTxDetails) : Prop :=
  warp + (calls.map fun call => (call.warp.getD 0).toNat).sum < 2 ^ 256 ∧
    roll + (calls.map fun call => (call.roll.getD 0).toNat).sum < 2 ^ 256

section Rebuilding

variable {calls : List BasicTxDetails} {call : BasicTxDetails} {includedCalls : Finset ℕ}
  {warp roll : U256}

theorem DelaysFit.mono {warps rolls warps' rolls' : ℕ} (fits : DelaysFit warps rolls calls)
    (fewer : warps' ≤ warps)
    (less : rolls' ≤ rolls) : DelaysFit warps' rolls' calls :=
  ⟨(Nat.add_le_add_right fewer _).trans_lt fits.1, (Nat.add_le_add_right less _).trans_lt fits.2⟩

section

variable (fits : DelaysFit warp.toNat roll.toNat (call :: calls))

include fits

theorem DelaysFit.later :
    DelaysFit (warp + call.warp.getD 0).toNat (roll + call.roll.getD 0).toNat calls := by
  unfold DelaysFit at *
  rw [map_cons, sum_cons, map_cons, sum_cons] at fits
  bv_omega

/-- The rebuilt call has the delays that were summed up. -/
theorem getD_applyWarpRoll :
    (applyWarpRoll call (warp + call.warp.getD 0) (roll + call.roll.getD 0)).warp.getD 0 =
        warp + call.warp.getD 0 ∧
      (applyWarpRoll call (warp + call.warp.getD 0) (roll + call.roll.getD 0)).roll.getD 0 =
        roll + call.roll.getD 0 := by
  have delayed : ∀ {own : Option U256} {delay : U256} {rest : ℕ},
      delay.toNat + ((own.getD 0).toNat + rest) < 2 ^ 256 →
      (if delay + own.getD 0 > 0 then some (delay + own.getD 0) else own).getD 0 =
        delay + own.getD 0 := by
    intro own delay rest fits
    split
    · rfl
    · bv_omega
  exact ⟨delayed fits.1, delayed fits.2⟩

end

theorem applyWarpRoll_again {warp' roll' : U256} (warps : warp ≤ warp') (rolls : roll ≤ roll') :
    applyWarpRoll (applyWarpRoll call warp roll) warp' roll' = applyWarpRoll call warp' roll' := by
  have later : ∀ {delay delay' : U256} {own : Option U256}, delay ≤ delay' →
      (if delay' > 0 then some delay' else if delay > 0 then some delay else own) =
        if delay' > 0 then some delay' else own := by
    intro delay delay' own less
    split
    · rfl
    · rw [if_neg (by bv_omega)]
  simp only [applyWarpRoll, later warps, later rolls]

variable {idx : ℕ}

theorem foldDelay_buildAccumulated {warp' roll' : U256}
    (fits : DelaysFit (warp + warp').toNat (roll + roll').toNat calls)
    (warps : warp' ≤ warp + warp') (rolls : roll' ≤ roll + roll') :
    foldDelay warp roll (buildAccumulated includedCalls idx calls warp' roll') =
      buildAccumulated includedCalls idx calls (warp + warp') (roll + roll') := by
  induction calls generalizing idx warp' roll' with
  | nil => rfl
  | cons call calls ih =>
    have later := fits.later
    have own := getD_applyWarpRoll (fits.mono warps rolls)
    unfold DelaysFit at fits
    rw [map_cons, sum_cons, map_cons, sum_cons] at fits
    replace warps : warp' + call.warp.getD 0 ≤ warp + (warp' + call.warp.getD 0) := by bv_omega
    replace rolls : roll' + call.roll.getD 0 ≤ roll + (roll' + call.roll.getD 0) := by bv_omega
    unfold buildAccumulated
    dsimp only
    rw [BitVec.add_assoc, BitVec.add_assoc] at later ⊢
    split
    · rw [foldDelay, own.1, own.2, applyWarpRoll_again warps rolls]
    · exact ih later warps rolls

theorem buildAccumulated_erase {index : ℕ} (before : index < idx) :
    buildAccumulated (includedCalls.erase index) idx calls warp roll =
      buildAccumulated includedCalls idx calls warp roll := by
  induction calls generalizing idx warp roll with
  | nil => rfl
  | cons call calls ih =>
    simp only [buildAccumulated, Finset.mem_erase, before.ne', ne_eq, not_false_eq_true, true_and,
      ih (before.trans (Nat.lt_succ_self idx))]

theorem withoutCall_buildAccumulated {position index : ℕ}
    (fits : DelaysFit warp.toNat roll.toNat calls)
    (listed : (includedFrom includedCalls idx calls.length)[position]? = some index) :
    withoutCall true (buildAccumulated includedCalls idx calls warp roll) position =
      buildAccumulated (includedCalls.erase index) idx calls warp roll := by
  induction calls generalizing idx warp roll position with
  | nil => simp [includedFrom] at listed
  | cons call calls ih =>
    have later := fits.later
    by_cases member : idx ∈ includedCalls
    · rw [length_cons, includedFrom_succ_of_mem member] at listed
      cases position with
      | zero =>
        cases listed
        obtain ⟨warps, rolls⟩ := getD_applyWarpRoll fits
        simp only [buildAccumulated, member, if_true, withoutCall, warps, rolls,
          Finset.notMem_erase, if_false]
        rw [buildAccumulated_erase (Nat.lt_succ_self _), foldDelay_buildAccumulated]
        all_goals simp only [BitVec.ofNat_eq_ofNat, BitVec.add_zero]
        · exact later
        · exact Nat.zero_le _
        · exact Nat.zero_le _
      | succ position =>
        have above := (mem_range'_1.mp (mem_of_mem_filter (mem_of_getElem? listed))).1
        have kept : idx ∈ includedCalls.erase index := Finset.mem_erase.mpr ⟨by omega, member⟩
        simp only [buildAccumulated, member, kept, if_true, withoutCall]
        exact congrArg _ (ih (later.mono (Nat.zero_le _) (Nat.zero_le _)) listed)
    rw [length_cons, includedFrom_succ_of_not_mem member] at listed
    have gone : idx ∉ includedCalls.erase index := fun kept => member (Finset.mem_of_mem_erase kept)
    simp only [buildAccumulated, member, gone, if_false]
    exact ih later listed

theorem withoutCall_false (calls : List BasicTxDetails) (position : ℕ) :
    withoutCall false calls position = calls.eraseIdx position := by
  induction calls generalizing position with
  | nil => rfl
  | cons call calls ih =>
    cases position with
    | zero => rfl
    | succ position => exact congrArg _ (ih position)

theorem length_buildAccumulated : (buildAccumulated includedCalls idx calls warp roll).length =
      (includedFrom includedCalls idx calls.length).length := by
  induction calls generalizing idx warp roll with
  | nil => rfl
  | cons call calls ih =>
    by_cases member : idx ∈ includedCalls
    · simp [buildAccumulated, member, includedFrom_succ_of_mem, ih]
    · simp [buildAccumulated, member, includedFrom_succ_of_not_mem, ih]

variable {shrinker : CallSequenceShrinker calls.length}

theorem length_buildShrunkSequence {hasDelay : Bool} :
    (buildShrunkSequence calls shrinker hasDelay).length = shrinker.current.length := by
  cases hasDelay with
  | true => exact length_buildAccumulated.trans (shrinker.current_map_val ▸ length_map _)
  | false => exact length_map _

/-- Removing a call from the rebuilt list is rebuilding without that call. -/
theorem withoutCall_buildShrunkSequence {position : ℕ} {hasDelay : Bool}
    (fits : DelaysFit 0 0 calls)
    (bound : position < shrinker.current.length) :
    withoutCall hasDelay (buildShrunkSequence calls shrinker hasDelay) position =
      buildShrunkSequence calls (shrinker.clear shrinker.current[position]) hasDelay := by
  cases hasDelay with
  | true =>
    have fits : DelaysFit (0 : U256).toNat (0 : U256).toNat calls := fits
    apply withoutCall_buildAccumulated fits
    rw [← shrinker.current_map_val, getElem?_map, getElem?_eq_getElem bound]
    rfl
  | false =>
    have nodup : shrinker.current.Nodup := (nodup_finRange _).filter _
    have rest : shrinker.current.eraseIdx position =
        (shrinker.clear shrinker.current[position]).current := by
      rw [← nodup.erase_getElem position bound, nodup.erase_eq_filter]
      simp [current, clear, filter_filter, Fin.ext_iff, bne, BEq.beq]
    rw [withoutCall_false]
    simp [buildShrunkSequence, ← rest, eraseIdx_map]

end Rebuilding

theorem judgeFailure_of_isOk {Err : Type} {outcome : Except (Report Err) Verdict}
    (ok : outcome.isOk = true) :
    judgeFailure outcome = .keep ∨ judgeFailure outcome = .restore := by
  rcases outcome with error | ⟨success, entirely, reason⟩
  · cases ok
  · cases success <;> simp [judgeFailure]

/-- With enough iterations no single call of the returned sequence can be
removed: the rest does not break the invariant. -/
theorem shrinkSequence_minimal {Rest World Outcome Decoder Err : Type}
    (evm : Evm Rest World Outcome Decoder Err) (contract : InvariantContract)
    (calls : List BasicTxDetails) (executor : Executor Rest World) (config : InvariantConfig)
    (expectAssertionFailure : Bool)
    (fails : ReportsFailure (candidateCheck evm contract executor config
      expectAssertionFailure calls (finRange calls.length)))
    (passes : ∃ entirely reason, candidateCheck evm contract executor config
      expectAssertionFailure [] [] = .ok (true, entirely, reason))
    (noError : ∀ candidate ∈ (finRange calls.length).sublists,
      (candidateCheck evm contract executor config expectAssertionFailure calls candidate).isOk)
    (fits : DelaysFit 0 0 calls)
    (enough : calls.length * (calls.length + 1) ≤ config.shrinkRunLimit.toNat) :
    ∃ sequence, shrinkSequence evm config contract calls expectAssertionFailure executor
        (fun _ => false) = .ok sequence ∧
      ∀ position < sequence.length, ¬ReportsFailure (candidateCheck evm contract executor config
        expectAssertionFailure (withoutCall config.hasDelay sequence position) (finRange _)) := by
  obtain ⟨entirely, reason, passes⟩ := passes
  have checked : candidateCheck evm contract executor config expectAssertionFailure [] [] =
      finishSequenceCheck evm contract.address contract.selector
        (shrinkOptions Decoder config contract expectAssertionFailure) executor := by
    unfold candidateCheck checkSequence
    split <;> rfl
  have build := stillFails_build_iff evm contract calls executor config expectAssertionFailure
  cases called : callInvariantFunction evm executor contract.address contract.selector with
  | error error =>
    rw [checked, finishSequenceCheck, called] at passes
    cases passes
  | ok called' =>
    obtain ⟨result, holds⟩ := called'
    cases holds with
    | false =>
      refine ⟨[], ?_, fun _ bound => by cases bound⟩
      simp [shrinkSequence, called, bind, Except.bind, pure, Except.pure]
    | true =>
      generalize judged : judgeCandidate evm contract calls executor config
        expectAssertionFailure = judge at build
      have total : ∀ candidate, judge candidate = .ok .keep ∨ judge candidate = .ok .restore := by
        intro candidate
        have ok := noError candidate.current (mem_sublists.mpr filter_sublist)
        simp only [← judged, judgeCandidate, Except.ok.injEq]
        exact judgeFailure_of_isOk ok
      have empty : judge ⟨∅⟩ = .ok .restore := by
        refine (total ⟨∅⟩).resolve_left fun keeps => ?_
        have none : buildShrunkSequence calls ⟨∅⟩ config.hasDelay = [] :=
          length_eq_zero_iff.mp (length_buildShrunkSequence.trans (by simp [current]))
        obtain ⟨_, _, _, reported⟩ := (build ⟨∅⟩).mpr keeps
        rw [none] at reported
        cases passes.symm.trans reported
      have kept : judge (.new calls.length) = .ok .keep := by
        simp only [← judged, judgeCandidate, Except.ok.injEq, current_new]
        exact judgeFailure_eq_keep_iff.mpr fails
      obtain ⟨final, returned, minimal⟩ := shrinkLoop_new_minimal total empty kept enough
      refine ⟨buildShrunkSequence calls final config.hasDelay, ?_, ?_⟩
      · refine (shrinkSequence_eq_map evm contract calls executor called).trans ?_
        rw [judged, returned]
        rfl
      intro position bound failure
      rw [length_buildShrunkSequence] at bound
      rw [withoutCall_buildShrunkSequence fits bound] at failure
      have keeps := (build _).mp ⟨buildShrunkSequence_sublist _ _ _, failure⟩
      rw [minimal] at keeps
      · cases keeps
      · exact of_decide_eq_true (mem_filter.mp (getElem_mem bound)).2

/-- An EVM whose invariant breaks once a call with calldata `[2]` was
executed at timestamp 10 or later. -/
def deadlineEvm : Evm Unit Bool Bool Unit Unit where
  callRaw executor _ _ calldata _ :=
    .ok
      { reverted := false
        result := []
        outcome := calldata = [2] ∧ executor.blockEnv.timestamp ≥ 10 }
  commit executor callResult := { executor with world := executor.world || callResult.outcome }
  isRawCallMutSuccess executor _ callResult _ := (!executor.world, callResult)
  hasGlobalFailure _ _ := false
  didFailOnAssert _ := false
  intoEvmError _ _ := .other
  afterInvariantSelector := []

def deadlineExecutor : Executor Unit Bool :=
  { blockEnv := { timestamp := 0, number := 0, rest := () }, cheatcodes := none, world := false }

def deadlineCalls : List BasicTxDetails := [demoCall (some 10) [1], demoCall none [2]]

def deadlineCheck (config : InvariantConfig) (sequence : List BasicTxDetails) :
    List (Fin sequence.length) → Except (Report Unit) Verdict :=
  candidateCheck deadlineEvm demoContract deadlineExecutor config false sequence

/-- The second call takes over the delay of the first one. -/
theorem shrinkSequence_minimal_delayed :
    ∃ sequence, shrinkSequence deadlineEvm { demoConfig 6 with maxTimeDelay := some 10 }
        demoContract deadlineCalls false deadlineExecutor (fun _ => false) = .ok sequence ∧
      ∀ position < sequence.length,
        ¬ReportsFailure (deadlineCheck { demoConfig 6 with maxTimeDelay := some 10 }
          (withoutCall true sequence position) (finRange _)) :=
  shrinkSequence_minimal deadlineEvm demoContract _ deadlineExecutor _ false
    ⟨true, none, by rfl⟩ ⟨true, none, by rfl⟩ (by decide +kernel) ⟨by decide, by decide⟩ (by decide)

/-- Without delays in the configuration both calls are returned, and the
invariant breaks without the first one if the second takes over its delay. -/
theorem shrinkSequence_not_minimal_folded :
    ReportsFailure (deadlineCheck (demoConfig 6) deadlineCalls (finRange 2)) ∧
    deadlineCheck (demoConfig 6) [] [] = .ok (true, true, none) ∧
    (∀ candidate ∈ (finRange 2).sublists,
      (deadlineCheck (demoConfig 6) deadlineCalls candidate).isOk) ∧
    DelaysFit 0 0 deadlineCalls ∧
    shrinkSequence deadlineEvm (demoConfig 6) demoContract deadlineCalls false deadlineExecutor
      (fun _ => false) = .ok deadlineCalls ∧
    ReportsFailure (deadlineCheck (demoConfig 6) (withoutCall true deadlineCalls 0)
      (finRange _)) := by
  refine ⟨⟨true, none, by rfl⟩, by rfl, ?_, ⟨by decide, by decide⟩, by rfl, true, none, by rfl⟩
  decide +kernel

end SwissledgerFoundry.Shrink
