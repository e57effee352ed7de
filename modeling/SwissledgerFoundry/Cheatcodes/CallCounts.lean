import SwissledgerFoundry.Cheatcodes.ExpectCall
import SwissledgerFoundry.Collections.Transition

/-!
# Counts of expected calls

Expectations are stored by target and calldata alone, so the counts are the
declared ones when no two declarations differ only in value or gas.
-/

namespace SwissledgerFoundry.Cheatcodes

open List AList CallDeclaration Transition

def entryOf (expectedCalls : ExpectedCallTracker) (target : Address)
    (calldata : Bytes) : Option (ExpectedCallData × ℕ) :=
  (expectedCalls.lookup target).bind (·.lookup calldata)

variable (expectedCalls : ExpectedCallTracker) (target probe : Address)

theorem entryOf_insert (entries : HashMap Bytes (ExpectedCallData × ℕ)) (calldata : Bytes) :
    entryOf (expectedCalls.insert target entries) probe calldata =
      if probe = target then entries.lookup calldata
      else entryOf expectedCalls probe calldata := by
  rw [entryOf, lookup_insert_eq]
  split <;> rfl

theorem lookup_getD (calldata : Bytes) : ((expectedCalls.lookup target).getD ∅).lookup calldata =
      entryOf expectedCalls target calldata := by
  rw [entryOf]
  cases expectedCalls.lookup target with
  | none => exact lookup_empty calldata
  | some entries => rfl

theorem entryOf_store (calldata probeData : Bytes) (entry : ExpectedCallData × ℕ) :
    entryOf (expectedCalls.insert target
      (((expectedCalls.lookup target).getD ∅).insert calldata entry))
      probe probeData =
      if probe = target ∧ probeData = calldata then some entry
      else entryOf expectedCalls probe probeData := by
  rw [entryOf_insert]
  by_cases here : probe = target
  · subst here
    rw [if_pos rfl, lookup_insert_eq, lookup_getD]
    by_cases same : probeData = calldata
    · rw [if_pos same, if_pos ⟨rfl, same⟩]
    · rw [if_neg same, if_neg fun both => same both.2]
  · rw [if_neg here, if_neg fun both => here both.1]

theorem entryOf_trackCall (call : CallInputs) (target : Address) (calldata : Bytes) :
    entryOf (trackCall expectedCalls call) target calldata =
      (entryOf expectedCalls target calldata).map fun entry =>
        if target = call.bytecodeAddress ∧ entry.1.matches calldata call = true then
          (entry.1, entry.2 + 1)
        else entry := by
  have elsewhere : target ≠ call.bytecodeAddress →
      (entryOf expectedCalls target calldata).map (fun entry =>
        if target = call.bytecodeAddress ∧ entry.1.matches calldata call = true then
          (entry.1, entry.2 + 1)
        else entry) = entryOf expectedCalls target calldata := by
    intro different
    simp [different]
  unfold trackCall
  cases found : expectedCalls.lookup call.bytecodeAddress with
  | none =>
    by_cases here : target = call.bytecodeAddress
    · subst here
      simp [entryOf, found]
    · rw [elsewhere here]
  | some entries =>
    simp only [entryOf_insert]
    by_cases here : target = call.bytecodeAddress
    · subst here
      simp [entryOf, found, lookup_mapValues]
    · rw [if_neg here, elsewhere here]

/-- The check passes when no entry fails, in whatever order it looks. -/
theorem callEndCalls_eq_none_iff {result : InstructionResult} (completed : result ≠ .revert)
    (context : CallCheckContext)
    (expectedCalls : ExpectedCallTracker) :
    callEndCalls context 0 result expectedCalls = none ↔ ∀ target calldata entry,
        entryOf expectedCalls target calldata = some entry → entry.1.failed entry.2 = false := by
  have checked : ¬ (decide ((0 : ℕ) ≠ 0) || result.isRevert) = true := by
    simpa [InstructionResult.isRevert] using completed
  rw [callEndCalls, if_neg checked, findSome?_eq_none_iff]
  constructor
  · intro passes target calldata entry found
    obtain ⟨entries, lookup, inner⟩ := Option.bind_eq_some_iff.mp found
    have every := passes ⟨target, entries⟩ (context.iteration.mem_order.mpr lookup)
    rw [findSome?_eq_none_iff] at every
    have this := every ⟨calldata, entry⟩ (context.iteration.mem_order.mpr inner)
    simpa using this
  intro holds target member
  rw [findSome?_eq_none_iff]
  intro entry entryMember
  have found : entryOf expectedCalls target.1 entry.1 = some entry.2 :=
    Option.bind_eq_some_iff.mpr ⟨target.2, context.iteration.mem_order.mp member,
      context.iteration.mem_order.mp entryMember⟩
  simp [holds target.1 entry.1 entry.2 found]

variable {declaration : CallDeclaration}

namespace CallDeclaration

def admits (declaration : CallDeclaration) (call : CallInputs) : Bool :=
  declaration.target == call.bytecodeAddress && (declaration.calldata.isPrefixOf call.input &&
      declaration.value.all (fun value => call.transferValue == some value) &&
      declaration.gas.all (fun gas =>
        gas.toNat + declaration.positiveValueCostStipend.toNat == call.gasLimit.toNat) &&
      declaration.minGas.all fun minGas =>
        decide (minGas.toNat + declaration.positiveValueCostStipend.toNat ≤ call.gasLimit.toNat))

/-- The gas with the stipend is a 64-bit number. -/
structure Fits (declaration : CallDeclaration) : Prop where
  gas : ∀ gas ∈ declaration.gas, gas.toNat + declaration.positiveValueCostStipend.toNat < 2 ^ 64
  minGas : ∀ minGas ∈ declaration.minGas,
    minGas.toNat + declaration.positiveValueCostStipend.toNat < 2 ^ 64

theorem all_gas {gas : Option UInt64} {stipend : UInt64}
    (small : ∀ amount ∈ gas, amount.toNat + stipend.toNat < 2 ^ 64)
    (word : UInt64 → Bool) (natural : ℕ → Bool)
    (same : ∀ amount, word amount = natural amount.toNat) :
    (gas.map (· + stipend)).all word =
      gas.all fun amount => natural (amount.toNat + stipend.toNat) := by
  cases gas with
  | none => rfl
  | some amount =>
    rw [Option.map_some, Option.all_some, Option.all_some, same,
      UInt64.toNat_add, Nat.mod_eq_of_lt (small amount rfl)]

theorem matches_data (fits : declaration.Fits) (count : ℕ)
    (callType : ExpectedCallType) (call : CallInputs) :
    declaration.target = call.bytecodeAddress ∧
      (declaration.data count callType).matches declaration.calldata call =
        true ↔ declaration.admits call = true := by
  have data : (decide (declaration.calldata.length ≤ call.input.length) &&
      declaration.calldata == call.input.take declaration.calldata.length) =
      declaration.calldata.isPrefixOf call.input := by
    rw [Bool.eq_iff_iff, Bool.and_eq_true, decide_eq_true_eq, beq_iff_eq,
      ← prefix_iff_eq_take, isPrefixOf_iff_prefix]
    exact ⟨fun both => both.2, fun starts => ⟨starts.length_le, starts⟩⟩
  have value : (declaration.data count callType).value.all
      (fun value => some value == call.transferValue) =
      declaration.value.all fun value =>
        call.transferValue == some value := by
    congr 1
    funext value
    exact Bool.beq_comm
  have gas : (declaration.data count callType).gas.all (· == call.gasLimit) =
      declaration.gas.all fun gas =>
        gas.toNat + declaration.positiveValueCostStipend.toNat == call.gasLimit.toNat := by
    apply all_gas fits.gas (· == call.gasLimit) (· == call.gasLimit.toNat)
    intro amount
    rw [Bool.eq_iff_iff, beq_iff_eq, beq_iff_eq, UInt64.toNat_inj]
  have minGas : (declaration.data count callType).minGas.all
      (fun minGas => decide (minGas ≤ call.gasLimit)) =
      declaration.minGas.all fun minGas =>
        decide (minGas.toNat + declaration.positiveValueCostStipend.toNat ≤
          call.gasLimit.toNat) := by
    apply all_gas fits.minGas (fun gas => decide (gas ≤ call.gasLimit))
      fun gas => decide (gas ≤ call.gasLimit.toNat)
    intro amount
    rw [decide_eq_decide, UInt64.le_iff_toNat_le]
  rw [ExpectedCallData.matches, data, value, gas, minGas, admits,
    Bool.and_eq_true _ (_ && _), beq_iff_eq]

/-- An expectation without a count fails when there are too few calls. -/
theorem failed_data_eq_false_iff {actualCount : ℕ} (declaration : CallDeclaration) {count : ℕ} :
    (declaration.data count .nonCount).failed actualCount = false ↔ count ≤ actualCount :=
  decide_eq_false_iff_not.trans Nat.not_lt

end CallDeclaration

/-- No two declarations differ only in value or gas. -/
def Separate (declarations : List CallDeclaration) : Prop :=
  ∀ left ∈ declarations, ∀ right ∈ declarations,
    left.target = right.target → left.calldata = right.calldata → left = right

/-- The tracker after declarations without a count and after calls. -/
structure Tallied (declarations : List CallDeclaration)
    (calls : List CallInputs) (expectedCalls : ExpectedCallTracker) :
    Prop where
  stored : ∀ declaration ∈ declarations,
    entryOf expectedCalls declaration.target declaration.calldata =
      some (declaration.data (declarations.count declaration) .nonCount,
        calls.countP declaration.admits)
  only : ∀ target calldata entry, entryOf expectedCalls target calldata = some entry →
      ∃ declaration ∈ declarations, declaration.target = target ∧ declaration.calldata = calldata

namespace Tallied

variable {declarations : List CallDeclaration} {expectedCalls : ExpectedCallTracker}

theorem empty : Tallied [] [] ∅ where
  stored := fun _ member => absurd member not_mem_nil
  only := fun target calldata entry found => by cases found

section

variable (tallied : Tallied declarations [] expectedCalls)

include tallied

theorem expectCall (separate : Separate (declarations ++ [declaration])) :
    (expectCall expectedCalls declaration 1 .nonCount).2 = none ∧
      Tallied (declarations ++ [declaration]) []
        (Cheatcodes.expectCall expectedCalls declaration 1 .nonCount).1 := by
  have last : declaration ∈ declarations ++ [declaration] :=
    mem_append_right _ (mem_singleton.mpr rfl)
  have written : Cheatcodes.expectCall expectedCalls declaration 1
      .nonCount = (expectedCalls.insert declaration.target
        (((expectedCalls.lookup declaration.target).getD ∅).insert declaration.calldata
          (declaration.data ((declarations ++ [declaration]).count declaration) .nonCount,
            0)), none) := by
    rw [count_append, count_singleton_self]
    by_cases member : declaration ∈ declarations
    · have stored := tallied.stored declaration member
      rw [← lookup_getD] at stored
      simp only [Cheatcodes.expectCall, stored]
      rfl
    have absent : entryOf expectedCalls declaration.target declaration.calldata = none := by
      cases found : entryOf expectedCalls declaration.target declaration.calldata with
      | none => rfl
      | some entry =>
        obtain ⟨other, listed, target, calldata⟩ := tallied.only _ _ entry found
        have same := separate other (mem_append_left _ listed) declaration last target calldata
        exact absurd (same ▸ listed) member
    rw [← lookup_getD] at absent
    simp only [Cheatcodes.expectCall, absent, count_eq_zero_of_not_mem member]
  rw [written]
  refine ⟨rfl, ?_, ?_⟩
  · intro other member
    rw [entryOf_store]
    split
    · rename_i here
      simp [separate other member declaration last here.1 here.2]
    rename_i elsewhere
    have different : other ≠ declaration := by
      rintro rfl
      exact elsewhere ⟨rfl, rfl⟩
    have earlier : other ∈ declarations := by
      rcases mem_append.mp member with earlier | same
      · exact earlier
      · exact absurd (mem_singleton.mp same) different
    rw [tallied.stored other earlier, count_append,
      count_singleton, beq_eq_false_iff_ne.mpr (Ne.symm different)]
    rfl
  intro target calldata entry found
  rw [entryOf_store] at found
  split at found
  · rename_i here
    exact ⟨declaration, last, here.1.symm, here.2.symm⟩
  · obtain ⟨other, member, same⟩ := tallied.only target calldata entry found
    exact ⟨other, mem_append_left _ member, same⟩

end

variable {calls : List CallInputs} (fits : ∀ declaration ∈ declarations, declaration.Fits)
  (tallied : Tallied declarations calls expectedCalls)

include fits tallied

theorem trackCall (call : CallInputs) :
    Tallied declarations (calls ++ [call]) (trackCall expectedCalls call) where
  stored := by
    intro declaration member
    have matched := matches_data (fits declaration member)
      (declarations.count declaration) .nonCount call
    rw [entryOf_trackCall, tallied.stored declaration member, Option.map_some]
    cases admitted : declaration.admits call with
    | true =>
      rw [if_pos (matched.mpr admitted)]
      simp [admitted]
    | false =>
      have missed : ¬ (declaration.target = call.bytecodeAddress ∧
          (declaration.data (declarations.count declaration)
            .nonCount).matches declaration.calldata call = true) := by
        rw [matched, admitted]
        exact Bool.false_ne_true
      rw [if_neg missed]
      simp [admitted]
  only := by
    intro target calldata entry found
    rw [entryOf_trackCall, Option.map_eq_some_iff] at found
    obtain ⟨earlier, found, -⟩ := found
    exact tallied.only target calldata earlier found

theorem run (later : List CallInputs) :
    Tallied declarations (calls ++ later) (run Cheatcodes.trackCall expectedCalls later) := by
  induction later generalizing calls expectedCalls with
  | nil =>
    rw [append_nil]
    exact tallied
  | cons call later ih =>
    rw [append_cons]
    exact ih (tallied.trackCall fits call)

end Tallied

/-- The tracker after a sequence of declarations without a count. -/
def declareCalls (declarations : List CallDeclaration) : ExpectedCallTracker :=
  declarations.foldl (fun expectedCalls declaration =>
    (expectCall expectedCalls declaration 1 .nonCount).1) ∅

theorem tallied_declareCalls {declarations : List CallDeclaration}
    (separate : Separate declarations) :
    Tallied declarations [] (declareCalls declarations) := by
  induction declarations using reverseRecOn with
  | nil => exact .empty
  | append_singleton declarations declaration ih =>
    have before : Separate declarations := by
      intro left leftMember right rightMember
      exact separate left (mem_append_left _ leftMember) right (mem_append_left _ rightMember)
    rw [declareCalls, foldl_append]
    exact ((ih before).expectCall separate).2

/-- Declarations that are told apart by target and calldata, with gas that
fits: the check at the end of the root call passes when each was met by at
least as many calls as it was declared. -/
theorem callEndCalls_declareCalls {declarations : List CallDeclaration}
    (separate : Separate declarations)
    (fits : ∀ declaration ∈ declarations, declaration.Fits)
    {result : InstructionResult} (completed : result ≠ .revert)
    (calls : List CallInputs) (context : CallCheckContext) :
    callEndCalls context 0 result (run trackCall (declareCalls declarations) calls) = none ↔
      ∀ declaration ∈ declarations,
        declarations.count declaration ≤ calls.countP declaration.admits := by
  have tallied := (tallied_declareCalls separate).run fits calls
  rw [callEndCalls_eq_none_iff completed]
  constructor
  · intro passes declaration member
    exact declaration.failed_data_eq_false_iff.mp (passes _ _ _ (tallied.stored declaration member))
  intro met target calldata entry found
  obtain ⟨declaration, member, rfl, rfl⟩ := tallied.only target calldata entry found
  rw [tallied.stored declaration member] at found
  cases found
  exact declaration.failed_data_eq_false_iff.mpr (met declaration member)

namespace CallDeclaration

/-- A declaration of one byte of calldata for the address seven. -/
def plain (value : U256) (minGas : Option UInt64) : CallDeclaration where
  target := 7
  calldata := [1]
  value := some value
  gas := none
  minGas := minGas

end CallDeclaration

def CallInputs.plain (value : U256) (gasLimit : UInt64) : CallInputs where
  scheme := .call
  caller := 1
  targetAddress := 7
  bytecodeAddress := 7
  value := .transfer value
  gasLimit := gasLimit
  input := [1, 2]

/-- The order of the association lists, and an address in hexadecimal. -/
def CallCheckContext.listed : CallCheckContext where
  iteration := .listed
  display := fun address => "0x" ++ hexDigits 40 address.toNat


theorem callEndCalls_declareCalls_twice :
    let declarations := [plain 3 (some 500), .plain 3 (some 500)]
    let calls := [CallInputs.plain 3 2800, .plain 4 9000, .plain 3 2900]
    Separate declarations ∧
      callEndCalls .listed 0 .ok (run trackCall (declareCalls declarations) calls) =
        none := by
  have separate : Separate [plain 3 (some 500), .plain 3 (some 500)] := by
    intro left leftMember right rightMember _ _
    simp only [mem_cons, not_mem_nil, or_false, or_self] at leftMember rightMember
    rw [leftMember, rightMember]
  have fits : ∀ declaration ∈ [plain 3 (some 500), .plain 3 (some 500)], declaration.Fits := by
    intro declaration member
    simp only [mem_cons, not_mem_nil, or_false, or_self] at member
    subst member
    constructor
    · nofun
    intro minGas stored
    cases stored
    decide
  exact ⟨separate, (callEndCalls_declareCalls separate fits (by decide) _
    .listed).mpr (by decide +kernel)⟩

/-- Two declarations that differ in value become one that asks for two calls
with the first value. -/
theorem callEndCalls_merges_values :
    let declarations := [CallDeclaration.plain 3 none, .plain 4 none]
    let each := [CallInputs.plain 3 9000, .plain 4 9000]
    let first := [CallInputs.plain 3 9000, .plain 3 9000]
    (∀ declaration ∈ declarations, declarations.count declaration ≤
        each.countP declaration.admits) ∧
      (callEndCalls .listed 0 .ok (run trackCall (declareCalls declarations) each)).isSome = true ∧
      ¬ (∀ declaration ∈ declarations, declarations.count declaration ≤
        first.countP declaration.admits) ∧
      callEndCalls .listed 0 .ok (run trackCall (declareCalls declarations) first) = none := by
  decide +kernel

end SwissledgerFoundry.Cheatcodes
