import Mathlib.Data.List.Perm.Basic

/-!
# Removal that moves the last element

`Vec::swap_remove` puts the last element in the place of the removed one.
-/

namespace List

open List

variable {Elem : Type*}

def swapRemove (elems : List Elem) (index : ℕ) : List Elem :=
  match elems.getLast? with
  | none => []
  | some last => (elems.set index last).dropLast

variable {elems : List Elem}

theorem swapRemove_perm {index : ℕ} {elem : Elem} (found : elems[index]? = some elem) :
    (elem :: elems.swapRemove index).Perm elems := by
  obtain ⟨bounded, same⟩ := getElem?_eq_some_iff.mp found
  rcases eq_nil_or_concat' elems with rfl | ⟨front, last, rfl⟩
  · cases bounded
  unfold swapRemove
  rw [getLast?_concat]
  dsimp only
  by_cases inFront : index < front.length
  · rw [getElem_append_left inFront] at same
    rw [set_append_left index last inFront, dropLast_concat]
    have front_perm : (elem :: front.eraseIdx index).Perm front :=
      same ▸ getElem_cons_eraseIdx_perm inFront
    calc
      Perm (elem :: front.set index last) (elem :: last :: front.eraseIdx index) :=
        (set_perm_cons_eraseIdx inFront last).cons elem
      Perm _ (last :: elem :: front.eraseIdx index) := .swap last elem _
      Perm _ (last :: front) := front_perm.cons last
      Perm _ (front ++ [last]) := (perm_append_singleton last front).symm
  have final : index = front.length := by
    rw [length_append, length_singleton] at bounded
    omega
  subst index
  rw [getElem_concat_length rfl] at same
  subst elem
  rw [set_append_right front.length last (Nat.le_refl _), Nat.sub_self]
  simp only [set_cons_zero, dropLast_concat]
  exact (perm_append_singleton last front).symm

theorem swapRemove_length {index : ℕ} {elem : Elem} (found : elems[index]? = some elem) :
    (elems.swapRemove index).length + 1 = elems.length :=
  (swapRemove_perm found).length_eq

end List
