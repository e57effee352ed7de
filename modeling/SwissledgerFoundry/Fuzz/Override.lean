import SwissledgerFoundry.Primitives

/-!
# Replacing calls by reentrant ones

The call generator replaces calls while its depth is zero.  A replaced call sets
the depth to one, and the end of any call decreases it.
-/

namespace SwissledgerFoundry.Fuzz

inductive CallScheme where
  | call
  | callCode
  | delegateCall
  | staticCall
  deriving DecidableEq

inductive CallValue where
  | transfer (value : U256)
  | apparent (value : U256)
  deriving DecidableEq

structure CallInputs where
  input : Bytes
  gasLimit : ℕ
  bytecodeAddress : Address
  targetAddress : Address
  caller : Address
  value : CallValue
  scheme : CallScheme
  deriving DecidableEq

structure GeneratedCall where
  sender : Address
  target : Address
  calldata : Bytes

/-- The parts of the generator and of the transaction that stay the same. -/
structure CallGenerator where
  txCaller : Address
  testAddress : Address
  cheatcodeAddress : Address
  handlerAddresses : List Address

/-- A call, the answer that the generator has for it, and whether the transfer
of its value returns an error.  Too small a balance is not one: the transfer
then returns `Ok` with the reason. -/
structure CallEvent where
  inputs : CallInputs
  next : Option GeneratedCall
  transferFails : Bool

def transferValue (call : CallInputs) : U256 :=
  match call.value with
  | .transfer value => value
  | .apparent _ => 0

/-- `call` and `override_call`: the inputs that replace those of the call. -/
def overrideCall (generator : CallGenerator) (overrideDepth : ℕ)
    (event : CallEvent) : Option CallInputs :=
  let call := event.inputs
  if generator.txCaller = call.caller ∨ call.caller = generator.testAddress ∨
      call.scheme ≠ .call ∨ overrideDepth > 0 ∨
      call.targetAddress = generator.cheatcodeAddress ∨
      !generator.handlerAddresses.contains call.caller ∧
        !generator.handlerAddresses.contains call.targetAddress then none
  else
    event.next.bind fun tx =>
      if transferValue call ≠ 0 ∧ call.gasLimit > 2300 ∧ event.transferFails then
        none
      else
        some
          { call with
            input := tx.calldata
            caller := tx.sender
            targetAddress := tx.target
            bytecodeAddress := tx.target
            value := .transfer 0 }

/-- A well-nested sequence of events: a call, the events up to its end, and
those after it. -/
inductive Calls where
  | done
  | call (event : CallEvent) (inner rest : Calls)

variable (generator : CallGenerator)

/-- The depth after `call`. -/
def enter (overrideDepth : ℕ) (event : CallEvent) : ℕ :=
  if (overrideCall generator overrideDepth event).isSome then 1
  else overrideDepth

/-- The depth after `call_end`. -/
def callEnd (overrideDepth : ℕ) : ℕ :=
  if overrideDepth > 0 then overrideDepth - 1 else overrideDepth

/-- The depth after a sequence of events. -/
def runCalls : Calls → ℕ → ℕ
  | .done, overrideDepth => overrideDepth
  | .call event inner rest, overrideDepth =>
    runCalls rest (callEnd (runCalls inner (enter generator overrideDepth event)))

/-- No call of the sequence is replaced. -/
def Untouched : Calls → ℕ → Prop
  | .done, _ => True
  | .call event inner rest, overrideDepth =>
    overrideCall generator overrideDepth event = none ∧ Untouched inner overrideDepth ∧
      Untouched rest (callEnd (runCalls generator inner overrideDepth))

def replaced : Calls → ℕ → List Calls
  | .done, _ => []
  | .call event inner rest, overrideDepth =>
    let entered := enter generator overrideDepth event
    (if (overrideCall generator overrideDepth event).isSome then [inner] else []) ++
      replaced inner entered ++ replaced rest (callEnd (runCalls generator inner entered))

/-- A call that is replaced outside of other replaced calls: a `CALL` from or to
a handler, for which the generator has an answer. -/
structure Replaceable (event : CallEvent) : Prop where
  caller : event.inputs.caller ≠ generator.txCaller ∧ event.inputs.caller ≠ generator.testAddress
  scheme : event.inputs.scheme = .call
  target : event.inputs.targetAddress ≠ generator.cheatcodeAddress
  handler : event.inputs.caller ∈ generator.handlerAddresses ∨
    event.inputs.targetAddress ∈ generator.handlerAddresses
  next : event.next.isSome
  transfer : transferValue event.inputs ≠ 0 → event.inputs.gasLimit > 2300 →
    event.transferFails = false

/-- No call of the sequence is replaceable. -/
def Fixed : Calls → Prop
  | .done => True
  | .call event inner rest => ¬ Replaceable generator event ∧ Fixed inner ∧ Fixed rest

/-- No call is replaceable that starts after another one has ended. -/
def FixedLater : Calls → Prop
  | .done => True
  | .call _ inner rest => FixedLater inner ∧ Fixed generator rest

variable {overrideDepth : ℕ}

theorem overrideCall_of_pos (inside : 0 < overrideDepth) (event : CallEvent) :
    overrideCall generator overrideDepth event = none := by
  simp [overrideCall, inside]

theorem runCalls_le_one (calls : Calls) (small : overrideDepth ≤ 1) :
    runCalls generator calls overrideDepth ≤ 1 := by
  induction calls generalizing overrideDepth with
  | done => exact small
  | call event inner rest innerSmall restSmall =>
    have entered : enter generator overrideDepth event ≤ 1 := by
      unfold enter
      split <;> omega
    apply restSmall
    have ended := innerSmall entered
    unfold callEnd
    split <;> omega

theorem callEnd_runCalls (calls : Calls) (small : overrideDepth ≤ 1) :
    callEnd (runCalls generator calls overrideDepth) = 0 := by
  have := runCalls_le_one generator calls small
  unfold callEnd
  split <;> omega

theorem overrideCall_eq_none_iff (event : CallEvent) :
    overrideCall generator 0 event = none ↔ ¬ Replaceable generator event := by
  rw [iff_not_comm]
  constructor
  · rintro ⟨caller, scheme, target, handler, next, transfer⟩
    obtain ⟨tx, answer⟩ := Option.isSome_iff_exists.mp next
    simp only [overrideCall, answer, Option.bind_some]
    grind
  · intro replaced
    simp only [overrideCall] at replaced
    cases answer : event.next <;> grind [Replaceable]

theorem untouched_zero_iff (calls : Calls) :
    Untouched generator calls 0 ↔ Fixed generator calls := by
  induction calls with
  | done => rfl
  | call event inner rest innerUntouched restUntouched =>
    rw [Untouched, Fixed, overrideCall_eq_none_iff, innerUntouched,
      callEnd_runCalls generator inner zero_le_one, restUntouched]

theorem untouched_one_iff (calls : Calls) :
    Untouched generator calls 1 ↔ FixedLater generator calls := by
  induction calls with
  | done => rfl
  | call event inner rest innerUntouched _ =>
    rw [Untouched, FixedLater, innerUntouched, callEnd_runCalls generator inner le_rfl,
      untouched_zero_iff]
    exact and_iff_right (overrideCall_of_pos generator Nat.one_pos event)

/-- Inside of a replaced call none is replaced, and the depth is zero after its
end, exactly if no call is replaceable there that starts after another one has
ended. -/
theorem no_override_inside_iff (generator : CallGenerator) (calls : Calls) :
    ∀ inner ∈ replaced generator calls 0,
      (Untouched generator inner 1 ∧ callEnd (runCalls generator inner 1) = 0) ↔
        FixedLater generator inner := by
  intro inner _
  rw [untouched_one_iff]
  exact and_iff_left (callEnd_runCalls generator inner le_rfl)

def oneHandler : CallGenerator where
  txCaller := 1
  testAddress := 2
  cheatcodeAddress := 3
  handlerAddresses := [4]

/-- A call of the handler that the generator would replace. -/
def handlerCall : CallEvent where
  inputs :=
    { input := []
      gasLimit := 5000
      bytecodeAddress := 5
      targetAddress := 5
      caller := 4
      value := .transfer 0
      scheme := .call }
  next := some { sender := 5, target := 4, calldata := [] }
  transferFails := false

theorem no_override_inside_iff_chain : Untouched oneHandler (.call handlerCall .done .done) 1 :=
  ((no_override_inside_iff oneHandler (.call handlerCall (.call handlerCall .done .done) .done) _
    (.head _)).mpr ⟨trivial, trivial⟩).1

/-- The first of two nested calls ends, and the second one is replaced. -/
theorem override_inside : ∃ inner ∈ replaced oneHandler (.call handlerCall (.call handlerCall .done
        (.call handlerCall .done .done)) .done) 0, ¬ Untouched oneHandler inner 1 := by
  refine ⟨_, .head _, fun untouched => ?_⟩
  exact absurd untouched.2.2.1 (by decide +kernel)

end SwissledgerFoundry.Fuzz
