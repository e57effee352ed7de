import SwissledgerFoundry.Shrink.Replay

/-!
# What the shrinking searches return

`examined` lists the candidates of the search loop in their order.  The loop
returns the last of them that it did not take back.
-/

namespace SwissledgerFoundry.Shrink

open CallSequenceShrinker

section

variable {callSequenceLen : ℕ} {Err : Type}

/-- The candidates that the loop looks at until the limit is reached or the flag
is set. -/
def examined (judge : CallSequenceShrinker callSequenceLen → Except Err Judgement)
    (shouldStop : ℕ → Bool) :
    ℕ → ℕ → ℕ → CallSequenceShrinker callSequenceLen → List (CallSequenceShrinker callSequenceLen)
  | 0, _, _, _ => []
  | limit + 1, iteration, callIdx, shrinker =>
    if shouldStop iteration then []
    else
      let candidate := shrinker.clear callIdx
      let next := candidate.nextIndex callIdx
      candidate :: match judge candidate with
        | .error _ => []
        | .ok .keep =>
          if candidate.count = 1 then []
          else examined judge shouldStop limit (iteration + 1) next candidate
        | .ok .restore =>
          examined judge shouldStop limit (iteration + 1) next (candidate.set callIdx)
        | .ok .skip => examined judge shouldStop limit (iteration + 1) next candidate

variable {judge : CallSequenceShrinker callSequenceLen → Except Err Judgement}
  {shouldStop : ℕ → Bool} {limit iteration callIdx : ℕ}

/-- Dropping a call and setting it again restores the candidate, unless the
call had been dropped before. -/
theorem CallSequenceShrinker.set_clear (shrinker : CallSequenceShrinker callSequenceLen)
    (changed : shrinker.clear callIdx ≠ shrinker) :
    (shrinker.clear callIdx).set callIdx = shrinker := by
  have member : callIdx ∈ shrinker.includedCalls := by
    by_contra absent
    exact changed (by simp [clear, Finset.erase_eq_of_notMem absent])
  simp [clear, set, Finset.insert_erase member]

variable {shrinker final : CallSequenceShrinker callSequenceLen}

/-- The list ends in what was returned and candidates that were taken back. -/
def EndsIn (judge : CallSequenceShrinker callSequenceLen → Except Err Judgement)
    (candidates : List (CallSequenceShrinker callSequenceLen))
    (final : CallSequenceShrinker callSequenceLen) : Prop :=
  ∃ front back, candidates = front ++ final :: back ∧
    (judge final = .ok .keep ∨ judge final = .ok .skip) ∧ ∀ later ∈ back, judge later = .ok .restore

theorem EndsIn.cons {candidates : List (CallSequenceShrinker callSequenceLen)}
    (first : CallSequenceShrinker callSequenceLen) (ends : EndsIn judge candidates final) :
    EndsIn judge (first :: candidates) final := by
  obtain ⟨front, back, whole, dropped, restored⟩ := ends
  exact ⟨first :: front, back, by simp [whole], dropped, restored⟩

/-- A candidate that was not taken back is the returned one or stands before
it. -/
theorem EndsIn.mem_back {front back : List (CallSequenceShrinker callSequenceLen)}
    {candidate : CallSequenceShrinker callSequenceLen}
    (ends : EndsIn judge (front ++ candidate :: back) final)
    (stays : judge candidate ≠ .ok .restore) : candidate = final ∨ final ∈ back := by
  obtain ⟨before, after, whole, -, restored⟩ := ends
  obtain ⟨middle, -, rest⟩ | ⟨middle, -, rest⟩ := List.append_eq_append_iff.mp whole
  · cases middle with
    | nil => exact .inl (List.cons.inj rest).1
    | cons first middle =>
      obtain ⟨-, rfl⟩ := List.cons.inj rest
      exact .inr (by simp)
  · cases middle with
    | nil => exact .inl (List.cons.inj rest).1.symm
    | cons first middle =>
      obtain ⟨-, rfl⟩ := List.cons.inj rest
      exact absurd (restored candidate (by simp)) stays

/-- From a shrinker that would not be taken back itself, the loop returns it or
the last examined candidate that was not taken back. -/
theorem shrinkLoop_ok (settled : judge shrinker ≠ .ok .restore)
    (returned : shrinkLoop judge shouldStop limit iteration callIdx shrinker = .ok final) :
    final = shrinker ∧ (∀ later ∈ examined judge shouldStop limit iteration callIdx shrinker,
        judge later = .ok .restore) ∨
      EndsIn judge (examined judge shouldStop limit iteration callIdx shrinker) final := by
  induction limit generalizing iteration callIdx shrinker with
  | zero =>
    cases returned
    exact .inl ⟨rfl, by simp [examined]⟩
  | succ limit ih =>
    rw [shrinkLoop] at returned
    rw [examined]
    split_ifs at returned ⊢
    · cases returned
      exact .inl ⟨rfl, by simp⟩
    -- A candidate that stays dropped is the new start.
    have dropped {candidates : List (CallSequenceShrinker callSequenceLen)}
        (stays : judge (shrinker.clear callIdx) = .ok .keep ∨
          judge (shrinker.clear callIdx) = .ok .skip)
        (rest : final = shrinker.clear callIdx ∧ (∀ later ∈ candidates,
          judge later = .ok .restore) ∨ EndsIn judge candidates final) :
        EndsIn judge (shrinker.clear callIdx :: candidates) final := by
      obtain ⟨rfl, restored⟩ | ends := rest
      · exact ⟨[], candidates, rfl, stays, restored⟩
      · exact ends.cons _
    dsimp only at returned ⊢
    cases judged : judge (shrinker.clear callIdx) with
    | error error => simp [judged] at returned
    | ok judgement =>
      cases judgement with
      | keep =>
        simp only [judged] at returned ⊢
        split_ifs at returned ⊢
        · cases returned
          exact .inr (dropped (.inl judged) (.inl ⟨rfl, by simp⟩))
        · exact .inr (dropped (.inl judged) (ih (by simp [judged]) returned))
      | restore =>
        have changed : shrinker.clear callIdx ≠ shrinker := fun same => settled (same ▸ judged)
        simp only [judged, shrinker.set_clear changed] at returned ⊢
        obtain ⟨same, restored⟩ | ends := ih settled returned
        · exact .inl ⟨same, by simpa [judged] using restored⟩
        · exact .inr (ends.cons _)
      | skip =>
        simp only [judged] at returned ⊢
        exact .inr (dropped (.inr judged) (ih (by simp [judged]) returned))

/-- An error is that of the last examined candidate. -/
theorem shrinkLoop_error {error : Err}
    (failed : shrinkLoop judge shouldStop limit iteration callIdx shrinker = .error error) :
    ∃ last, (examined judge shouldStop limit iteration callIdx shrinker).getLast? = some last ∧
      judge last = .error error := by
  induction limit generalizing iteration callIdx shrinker with
  | zero => cases failed
  | succ limit ih =>
    rw [shrinkLoop] at failed
    rw [examined]
    split_ifs at failed ⊢
    rw [List.getLast?_cons]
    dsimp only at failed ⊢
    cases judged : judge (shrinker.clear callIdx) with
    | error other =>
      simp only [judged, Except.error.injEq] at failed
      exact ⟨_, rfl, judged.trans (congrArg _ failed)⟩
    | ok judgement =>
      cases judgement with
      | keep =>
        simp only [judged] at failed ⊢
        split_ifs at failed ⊢
        obtain ⟨last, found, errs⟩ := ih failed
        exact ⟨last, by rw [found, Option.getD_some], errs⟩
      | _ =>
        simp only [judged] at failed ⊢
        obtain ⟨last, found, errs⟩ := ih failed
        exact ⟨last, by rw [found, Option.getD_some], errs⟩

/-- Without errors of its judge the loop returns a candidate. -/
theorem shrinkLoop_succeeds (shouldStop : ℕ → Bool)
    (total : ∀ candidate, ∃ judgement, judge candidate = .ok judgement)
    (limit iteration callIdx : ℕ)
    (shrinker : CallSequenceShrinker callSequenceLen) :
    ∃ final, shrinkLoop judge shouldStop limit iteration callIdx shrinker = .ok final := by
  induction limit generalizing iteration callIdx shrinker with
  | zero => exact ⟨shrinker, rfl⟩
  | succ limit ih =>
    rw [shrinkLoop]
    split
    · exact ⟨shrinker, rfl⟩
    obtain ⟨judgement, outcome⟩ := total (shrinker.clear callIdx)
    cases judgement with
    | keep =>
      simp only [outcome]
      split
      · exact ⟨_, rfl⟩
      · exact ih _ _ _
    | restore =>
      simp only [outcome]
      exact ih _ _ _
    | skip =>
      simp only [outcome]
      exact ih _ _ _

end

theorem CallSequenceShrinker.current_new (callSequenceLen : ℕ) :
    (new callSequenceLen).current = List.finRange callSequenceLen := by
  simp [current, new]

end SwissledgerFoundry.Shrink
