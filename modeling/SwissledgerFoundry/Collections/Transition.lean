import Mathlib.Data.List.Infix

/-!
# Runs of a transition function

A component is a state with a function that applies one action.  Its runs are
finite action sequences; `Along` restricts the state in which each action is
taken, and `invariant_history` is the induction over such runs.
-/

namespace Transition

variable {State Action : Type*}

/-- The state after a sequence of actions. -/
def run (step : State → Action → State) (start : State) (actions : List Action) : State :=
  actions.foldl step start

section

variable (step : State → Action → State) (start : State)

include step

@[simp] theorem run_nil : run step start [] = start := rfl

@[simp] theorem run_cons (action : Action) (actions : List Action) :
    run step start (action :: actions) = run step (step start action) actions := rfl

theorem run_append (first second : List Action) :
    run step start (first ++ second) = run step (run step start first) second :=
  List.foldl_append

end

/-- Each action of the sequence is allowed in the state it is taken in. -/
def Along (step : State → Action → State)
    (allowed : State → Action → Prop) : State → List Action → Prop
  | _, [] => True
  | state, action :: actions =>
    allowed state action ∧ Along step allowed (step state action) actions

instance decidableAlong (step : State → Action → State) (allowed : State → Action → Prop)
    [∀ state action, Decidable (allowed state action)] :
    (state : State) → (actions : List Action) → Decidable (Along step allowed state actions)
  | _, [] => .isTrue trivial
  | state, action :: actions =>
    have := decidableAlong step allowed (step state action) actions
    inferInstanceAs (Decidable (_ ∧ _))

variable {allowed : State → Action → Prop} {step : State → Action → State}
  {actions : List Action}

theorem along_of_forall (each : ∀ action ∈ actions, ∀ state, allowed state action) (start : State) :
    Along step allowed start actions := by
  induction actions generalizing start with
  | nil => trivial
  | cons action actions ih =>
    refine ⟨each action List.mem_cons_self start, ih ?_ _⟩
    intro other member
    exact each other (List.mem_cons_of_mem action member)

variable {start : State}

theorem along_append {first second : List Action} : Along step allowed start (first ++ second) ↔
      Along step allowed start first ∧ Along step allowed (run step start first) second := by
  induction first generalizing start with
  | nil => simp [Along]
  | cons action first ih => simp only [List.cons_append, Along, run_cons, ih, and_assoc]

theorem invariant_history (invariant : List Action → State → Prop)
    (preserved : ∀ past state action, invariant past state →
      allowed state action → invariant (past ++ [action]) (step state action))
    (past : List Action) (initial : invariant past start)
    (along : Along step allowed start actions) :
    ∀ reached, reached <+: actions → invariant (past ++ reached) (run step start reached) := by
  induction actions generalizing past start with
  | nil =>
    intro reached isPrefix
    rw [List.prefix_nil.mp isPrefix, List.append_nil]
    exact initial
  | cons action actions ih =>
    intro reached isPrefix
    cases reached with
    | nil =>
      rw [List.append_nil]
      exact initial
    | cons first reached =>
      obtain ⟨rfl, shorter⟩ := List.cons_prefix_cons.mp isPrefix
      rw [List.append_cons]
      exact ih (past ++ [first]) (preserved past start first initial along.1) along.2 reached
        shorter

/-- A property of the start that every allowed action preserves holds in every
state that an allowed sequence reaches. -/
theorem invariant_along (invariant : State → Prop)
    (preserved : ∀ state action, invariant state → allowed state action →
      invariant (step state action))
    (initial : invariant start)
    (along : Along step allowed start actions) :
    ∀ reached, reached <+: actions → invariant (run step start reached) :=
  invariant_history (fun _ => invariant) (fun _ => preserved) [] initial along

end Transition
