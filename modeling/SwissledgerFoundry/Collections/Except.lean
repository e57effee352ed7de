import Mathlib.Data.List.Forall2

/-!
# Inversion of fallible computations

From the outcome of a composed computation to the outcomes of its parts.
-/

namespace Except

variable {Error Value Result : Type*} {value : Except Error Value}

/-- What is asked of a result is asked of nothing after a failure. -/
@[reducible] def decidableForallOk (value : Except Error Value)
    (property : Value → Prop) [DecidablePred property] :
    Decidable (∀ result, value = .ok result → property result) :=
  match value with
  | .ok result => decidable_of_iff (property result)
      ⟨fun holds _ same => Except.ok.inj same ▸ holds, fun all => all _ rfl⟩
  | .error _ => .isTrue fun _ same => by cases same

variable {next : Value → Except Error Result} {function : Value → Result} {result : Result}

theorem bind_eq_ok_iff : value.bind next = .ok result ↔ ∃ intermediate, value = .ok intermediate ∧
        next intermediate = .ok result := by
  cases value <;> simp [Except.bind]

variable {error : Error}

theorem bind_eq_error_iff : value.bind next = .error error ↔ value = .error error ∨
        ∃ intermediate, value = .ok intermediate ∧ next intermediate = .error error := by
  cases value <;> simp [Except.bind]

theorem map_eq_ok_iff : value.map function = .ok result ↔
      ∃ intermediate, value = .ok intermediate ∧ function intermediate = result := by
  cases value <;> simp [Except.map]

theorem map_eq_error_iff : value.map function = .error error ↔ value = .error error := by
  cases value <;> simp [Except.map]

theorem toOption_eq_some_iff {result : Value} :
    value.toOption = some result ↔ value = .ok result := by
  cases value <;> simp [Except.toOption]

variable {Elem : Type*}

theorem foldlM_cons_eq (step : Value → Elem → Except Error Value)
    (start : Value) (elem : Elem) (elems : List Elem) :
    (elem :: elems).foldlM step start =
      (step start elem).bind (fun next => elems.foldlM step next) :=
  List.foldlM_cons

variable {elems : List Elem}

theorem foldlM_eq_error {start : Value} {step : Value → Elem → Except Error Value}
    (failed : elems.foldlM step start = .error error) :
    ∃ before elem after intermediate, elems = before ++ elem :: after ∧
      before.foldlM step start = .ok intermediate ∧
      step intermediate elem = .error error := by
  induction elems generalizing start with
  | nil => cases failed
  | cons elem elems ih =>
    rw [foldlM_cons_eq, bind_eq_error_iff] at failed
    rcases failed with first | ⟨next, first, rest⟩
    · exact ⟨[], elem, elems, start, rfl, rfl, first⟩
    obtain ⟨before, other, after, intermediate, split, earlier, failed⟩ := ih rest
    refine ⟨elem :: before, other, after, intermediate, ?_, ?_, failed⟩
    · rw [split, List.cons_append]
    · rw [foldlM_cons_eq, first]
      exact earlier

theorem mapM_cons_eq (function : Elem → Except Error Value) (elem : Elem) (elems : List Elem) :
    (elem :: elems).mapM function = (function elem).bind (fun value =>
        (elems.mapM function).bind (fun values => .ok (value :: values))) :=
  List.mapM_cons

variable {function : Elem → Except Error Value}

/-- A list whose elements all map to a value maps to the list of values, and
the other way round. -/
theorem mapM_eq_ok_iff {values : List Value} : elems.mapM function = .ok values ↔
      List.Forall₂ (fun elem value => function elem = .ok value) elems values := by
  induction elems generalizing values with
  | nil => cases values <;> simp [pure, Except.pure]
  | cons elem elems ih =>
    rw [mapM_cons_eq, bind_eq_ok_iff]
    constructor
    · intro found
      obtain ⟨value, first, rest⟩ := found
      obtain ⟨tail, later, same⟩ := bind_eq_ok_iff.mp rest
      cases same
      exact .cons first (ih.mp later)
    intro pairs
    cases pairs with
    | cons first later =>
      refine ⟨_, first, bind_eq_ok_iff.mpr ⟨_, ?_, rfl⟩⟩
      exact ih.mpr later

theorem mapM_eq_ok_getElem? {values : List Value}
    (mapped : elems.mapM function = .ok values) {index : ℕ} {elem : Elem}
    {value : Value} (found : elems[index]? = some elem)
    (result : values[index]? = some value) :
    function elem = .ok value := by
  obtain ⟨_, each⟩ := List.forall₂_iff_get.mp (mapM_eq_ok_iff.mp mapped)
  obtain ⟨bound, rfl⟩ := List.getElem?_eq_some_iff.mp found
  obtain ⟨bound', rfl⟩ := List.getElem?_eq_some_iff.mp result
  exact each index bound bound'

theorem mapM_eq_error (failed : elems.mapM function = .error error) :
    ∃ elem ∈ elems, function elem = .error error := by
  induction elems with
  | nil => simp [pure, Except.pure] at failed
  | cons elem elems ih =>
    rw [mapM_cons_eq, bind_eq_error_iff] at failed
    rcases failed with first | ⟨value, _, rest⟩
    · exact ⟨elem, List.mem_cons_self, first⟩
    rcases bind_eq_error_iff.mp rest with later | ⟨values, _, impossible⟩
    · obtain ⟨other, member, failed⟩ := ih later
      exact ⟨other, List.mem_cons_of_mem elem member, failed⟩
    · cases impossible

end Except
