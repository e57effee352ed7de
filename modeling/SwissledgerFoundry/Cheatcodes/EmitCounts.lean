import SwissledgerFoundry.Cheatcodes.ExpectEmit

/-!
# Counts of expected logs

Each expectation counts the logs that pass its checks, with one map for every
emitter.  `Counted` says which logs a count map has been shown.
-/

namespace SwissledgerFoundry.Cheatcodes

open List AList

variable {counts : LogCountMap}

namespace LogCountMap

theorem countUnchecked_bump (counts : LogCountMap) (log : RawLog)
    (passes : counts.satisfiesChecks log = true) :
    (counts.bump log passes).countUnchecked = counts.countUnchecked + 1 := by
  have inserted := sum_values_insert counts.map log ((counts.map.lookup log).getD 0 + 1) id
  simp only [map_id, id_eq] at inserted
  show (counts.map.insert log _).values.sum = counts.map.values.sum + 1
  rw [inserted]
  cases found : counts.map.lookup log with
  | none =>
    have absent : log ∉ counts.map := lookup_eq_none.mp found
    rw [erase_of_notMem absent]
    exact Nat.add_comm 1 _
  | some seen =>
    have erased := sum_values_erase found id
    simp only [map_id, id_eq] at erased
    rw [Option.getD_some]
    omega

theorem insert_of_passes {log : RawLog} (passes : counts.satisfiesChecks log = true) :
    (counts.insert log).1 = counts.bump log passes := by
  unfold insert
  split <;> rfl

theorem insert_of_fails {log : RawLog} (fails : counts.satisfiesChecks log = false) :
    (counts.insert log).1 = counts := by
  have unknown : log ∉ counts.map := by
    intro known
    have passes : counts.satisfiesChecks log = true := counts.satisfied log known
    simp [passes] at fails
  simp [insert, unknown, fails]

end LogCountMap

/-- A declared expectation whose log has been filled.  A log without topics
fills only an anonymous one. -/
structure Expectation where
  log : RawLog
  checks : Checks
  address : Option Address
  anonymous : Bool
  count : ℕ
  positive : 0 < count
  named : (anonymous || !log.topics.isEmpty) = true

namespace Expectation

section

variable (expectation : Expectation)

/-- The entry of an expectation in the queue. -/
def emitted (depth : ℕ) (found : Bool)
    (mismatchError : Option String) : ExpectedEmit where
  depth := depth
  log := some expectation.log
  checks := expectation.checks
  address := expectation.address
  anonymous := expectation.anonymous
  found := found
  count := expectation.count
  mismatchError := mismatchError

def passesChecks (log : Log) : Bool :=
  checksTopicsAndData expectation.checks expectation.log log.data

/-- The log comes from the emitter, if one is given. -/
def fromEmitter (log : Log) : Bool :=
  expectation.address.all (· == log.address)

def accepts (log : Log) : Bool :=
  expectation.passesChecks log && expectation.fromEmitter log

end

theorem fromEmitter_of_none {expectation : Expectation}
    (anyone : expectation.address = none) (log : Log) :
    expectation.fromEmitter log = true := by
  simp [fromEmitter, anyone]

end Expectation

def countOf (countMap : CountMap) (emitter : Address) : ℕ :=
  ((countMap.lookup emitter).map LogCountMap.countUnchecked).getD 0

/-- The count map of an expectation that has been shown the logs `seen`, all
of which pass its checks. -/
structure Counted (expectation : Expectation) (countMap : CountMap) (seen : List Log) : Prop where
  checks : ∀ emitter counts, countMap.lookup emitter = some counts →
    counts.checks = expectation.checks ∧ counts.expectedLog = expectation.log
  positive : ∀ emitter counts, countMap.lookup emitter = some counts → 0 < counts.countUnchecked
  counts : ∀ emitter, countOf countMap emitter = seen.countP (·.address == emitter)
  total : (countMap.values.map LogCountMap.countUnchecked).sum = seen.length

namespace Counted

variable {expectation : Expectation} {countMap : CountMap} {seen : List Log}

theorem empty (expectation : Expectation) : Counted expectation ∅ [] where
  checks := fun emitter counts found => by cases found
  positive := fun emitter counts found => by simp [lookup_empty] at found
  counts := fun emitter => by simp [countOf]
  total := rfl

section

variable {emitter : Address} (found : countMap.lookup emitter = some counts)
  (counted : Counted expectation countMap seen)

include found counted

theorem satisfiesChecks (log : RawLog) :
    counts.satisfiesChecks log = checksTopicsAndData expectation.checks expectation.log log := by
  obtain ⟨sameChecks, sameLog⟩ := counted.checks emitter counts found
  rw [LogCountMap.satisfiesChecks, sameChecks, sameLog]

theorem count_eq {log : RawLog}
    (passes : checksTopicsAndData expectation.checks expectation.log log = true) :
    counts.count log = counts.countUnchecked := by
  rw [LogCountMap.count, counted.satisfiesChecks found, if_pos passes]

end

variable (counted : Counted expectation countMap seen)

include counted

variable {log : Log}

theorem insert (sameChecks : counts.checks = expectation.checks)
    (sameLog : counts.expectedLog = expectation.log)
    (more : counts.countUnchecked = countOf countMap log.address + 1) :
    Counted expectation (countMap.insert log.address counts) (seen ++ [log]) where
  checks := by
    intro emitter other found
    obtain ⟨_, rfl⟩ | ⟨_, found⟩ := lookup_of_insert found
    · exact ⟨sameChecks, sameLog⟩
    · exact counted.checks emitter other found
  positive := by
    intro emitter other found
    obtain ⟨_, rfl⟩ | ⟨_, found⟩ := lookup_of_insert found
    · omega
    · exact counted.positive emitter other found
  counts := by
    intro emitter
    rw [countP_append, ← counted.counts emitter, countOf]
    by_cases same : emitter = log.address
    · subst same
      simp [more]
    · have other : (log.address == emitter) = false := beq_eq_false_iff_ne.mpr (Ne.symm same)
      simp [same, other, countOf]
  total := by
    rw [sum_values_insert, more, length_append, ← counted.total, countOf]
    cases found : countMap.lookup log.address with
    | none =>
      rw [erase_of_notMem (lookup_eq_none.mp found)]
      simp
      omega
    | some earlier =>
      rw [← sum_values_erase found]
      simp
      omega

theorem recordLog_of_fails (fails : expectation.passesChecks log = false) :
    Counted expectation (recordLog expectation.checks expectation.log countMap log) seen := by
  rw [Expectation.passesChecks] at fails
  unfold recordLog
  cases found : countMap.lookup log.address with
  | none =>
    simp only [LogCountMap.new, LogCountMap.satisfiesChecks, fails]
    exact counted
  | some counts =>
    have failsHere := counted.satisfiesChecks found log.data
    rw [fails] at failsHere
    simp only [LogCountMap.insert_of_fails failsHere]
    have same : ∀ probe, (countMap.insert log.address counts).lookup probe
        = countMap.lookup probe := by
      intro probe
      rw [lookup_insert_eq]
      split
      · rename_i equal
        rw [equal, found]
      · rfl
    constructor
    · intro emitter other
      rw [same]
      exact counted.checks emitter other
    · intro emitter other
      rw [same]
      exact counted.positive emitter other
    · intro emitter
      rw [countOf, same]
      exact counted.counts emitter
    · rw [← counted.total]
      exact ((values_perm same).map _).sum_eq

theorem recordLog_of_passes (passes : expectation.passesChecks log = true) :
    Counted expectation (recordLog expectation.checks expectation.log countMap log)
      (seen ++ [log]) := by
  rw [Expectation.passesChecks] at passes
  unfold recordLog
  cases found : countMap.lookup log.address with
  | none =>
    have fresh : (LogCountMap.new expectation.checks
        expectation.log).satisfiesChecks log.data = true := passes
    simp only [fresh, if_true, LogCountMap.insert_of_passes fresh]
    apply counted.insert rfl rfl
    rw [countOf, found]
    rfl
  | some counts =>
    have passesHere := counted.satisfiesChecks found log.data
    rw [passes] at passesHere
    obtain ⟨sameChecks, sameLog⟩ := counted.checks _ _ found
    simp only [LogCountMap.insert_of_passes passesHere]
    refine counted.insert ?_ ?_ ?_
    · exact sameChecks
    · exact sameLog
    · simp [LogCountMap.countUnchecked_bump, countOf, found]

theorem recordLog (log : Log) :
    Counted expectation (recordLog expectation.checks expectation.log countMap log)
      (seen ++ if expectation.passesChecks log then [log] else []) := by
  cases passes : expectation.passesChecks log with
  | false =>
    rw [if_neg Bool.false_ne_true, append_nil]
    exact counted.recordLog_of_fails passes
  | true => exact counted.recordLog_of_passes passes

theorem mem_seen {emitter : Address} (found : countMap.lookup emitter = some counts) :
    ∃ log ∈ seen, log.address = emitter := by
  have positive := counted.positive emitter counts found
  have counted := counted.counts emitter
  rw [countOf, found] at counted
  have some : 0 < seen.countP (·.address == emitter) := by
    rw [← counted]
    exact positive
  obtain ⟨log, member, same⟩ := countP_pos_iff.mp some
  exact ⟨log, member, beq_iff_eq.mp same⟩

theorem emittedCount (iteration : IterationOrder) (depth : ℕ) (found : Bool)
    (mismatchError : Option String) :
    emittedCount iteration (expectation.emitted depth found mismatchError)
      countMap = (seen.filter expectation.fromEmitter).length := by
  have self := checksTopicsAndData_self expectation.checks expectation.log
  unfold Cheatcodes.emittedCount
  cases address : expectation.address with
  | none =>
    have everyone : seen.filter expectation.fromEmitter = seen := by
      rw [filter_eq_self]
      exact fun log _ => expectation.fromEmitter_of_none address log
    simp only [Expectation.emitted, address]
    rw [everyone, ← counted.total, values, map_map]
    rw [← ((iteration.perm countMap).map _).sum_eq]
    congr 1
    apply map_congr_left
    intro entry member
    exact counted.count_eq (iteration.mem_order.mp member) self
  | some emitter =>
    have own : seen.filter expectation.fromEmitter = seen.filter (·.address == emitter) := by
      apply filter_congr
      intro log _
      rw [Expectation.fromEmitter, address]
      exact Bool.beq_comm
    simp only [Expectation.emitted, address]
    rw [own, ← countP_eq_length_filter, ← counted.counts, countOf]
    cases found : countMap.lookup emitter with
    | none => rfl
    | some counts => exact counted.count_eq found self

/-- Where the logs of an expectation without an emitter come from one
emitter, the handler counts what the end of the call counts. -/
theorem countReached_eq (member : log ∈ seen) (accepted : expectation.accepts log = true)
    (single : expectation.address = none → ∀ other ∈ seen, other.address = log.address)
    (context : EmitContext) (depth : ℕ) (found : Bool)
    (mismatchError : Option String) :
    countReached context (expectation.emitted depth found mismatchError)
      countMap log = decide (expectation.count ≤ (seen.filter expectation.fromEmitter).length) := by
  obtain ⟨passes, emitter⟩ := (Bool.and_eq_true _ _).mp accepted
  have own : seen.filter expectation.fromEmitter = seen.filter (·.address == log.address) := by
    apply filter_congr
    intro other member
    cases address : expectation.address with
    | none =>
      rw [expectation.fromEmitter_of_none address, single address other member, beq_self_eq_true]
    | some emitter' =>
      rw [Expectation.fromEmitter, address, Option.all_some, beq_iff_eq] at emitter
      rw [Expectation.fromEmitter, address, emitter]
      exact Bool.beq_comm
  rw [own, ← countP_eq_length_filter, ← counted.counts]
  have listed : ∃ counts, countMap.lookup log.address = some counts := by
    have positive : 0 < countOf countMap log.address := by
      rw [counted.counts, countP_pos_iff]
      exact ⟨log, member, beq_self_eq_true _⟩
    cases found : countMap.lookup log.address with
    | none => simp [countOf, found] at positive
    | some counts => exact ⟨counts, rfl⟩
  obtain ⟨counts, lookup⟩ := listed
  have number : counts.count log.data = countOf countMap log.address := by
    simp [counted.count_eq lookup passes, countOf, lookup]
  rw [← number]
  unfold countReached
  cases address : expectation.address with
  | some emitter' =>
    rw [Expectation.fromEmitter, address, Option.all_some, beq_iff_eq] at emitter
    subst emitter
    simp only [Expectation.emitted, address, lookup, Option.any_some]
  | none =>
    have visited : ⟨log.address, counts⟩ ∈ context.iteration.order countMap :=
      context.iteration.mem_order.mpr lookup
    have first : ((context.iteration.order countMap).map Sigma.snd).find?
        (·.satisfiesChecks log.data) = some counts := by
      cases found : ((context.iteration.order countMap).map
          Sigma.snd).find? (·.satisfiesChecks log.data) with
      | none =>
        have fails := find?_eq_none.mp found counts (mem_map.mpr ⟨_, visited, rfl⟩)
        rw [counted.satisfiesChecks lookup] at fails
        exact absurd passes fails
      | some other =>
        -- Every emitter in the map is the emitter of this log.
        obtain ⟨entry, entryMember, rfl⟩ := mem_map.mp (mem_of_find?_eq_some found)
        have entryLookup := context.iteration.mem_order.mp entryMember
        obtain ⟨earlier, earlierMember, same⟩ := counted.mem_seen entryLookup
        rw [← same, single address earlier earlierMember, lookup] at entryLookup
        exact entryLookup.symm
    simp only [Expectation.emitted, address, first, Option.any_some]

end Counted

end SwissledgerFoundry.Cheatcodes
