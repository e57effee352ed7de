import Mathlib.Algebra.Order.Ring.Nat

/-!
# Loops that end

A loop is a step that goes on with a new state or ends with a result.  If each
round keeps an invariant and lowers a measure, the loop ends.
-/

namespace Loop

variable {State Result : Type*}

/-- At most the given number of rounds. -/
def run (step : State → State ⊕ Result) : ℕ → State → Option Result
  | 0, _ => none
  | fuel + 1, state =>
    match step state with
    | .inl next => run step fuel next
    | .inr result => some result

theorem run_ends {state : State} {fuel : ℕ} {step : State → State ⊕ Result}
    (invariant : State → Prop) (measure : State → ℕ) {post : Result → Prop}
    (continues : ∀ state next, invariant state → step state = .inl next →
      invariant next ∧ measure next < measure state)
    (ends : ∀ state result, invariant state → step state = .inr result → post result)
    (holds : invariant state)
    (enough : measure state < fuel) :
    ∃ result, run step fuel state = some result ∧ post result := by
  induction fuel generalizing state with
  | zero => omega
  | succ fuel ih =>
    rw [run]
    cases stepped : step state with
    | inl next =>
      obtain ⟨kept, lower⟩ := continues state next holds stepped
      exact ih kept (by omega)
    | inr result => exact ⟨result, rfl, ends state result holds stepped⟩

/-- Induction for a loop over a worklist, whose rounds may add to it. -/
theorem worklist {Work : Type*} {motive : ℕ → List Work → Prop} (nil : ∀ fuel, motive fuel [])
    (zero : ∀ first rest, motive 0 (first :: rest))
    (succ : ∀ fuel first rest, (∀ work, motive fuel work) → motive (fuel + 1) (first :: rest))
    (fuel : ℕ) (work : List Work) : motive fuel work := by
  induction fuel generalizing work with
  | zero => cases work with
    | nil => exact nil 0
    | cons first rest => exact zero first rest
  | succ fuel ih => cases work with
    | nil => exact nil _
    | cons first rest => exact succ fuel first rest ih

end Loop
