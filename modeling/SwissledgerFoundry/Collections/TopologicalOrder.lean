import Mathlib.Data.Set.Finite.List

/-!
# Topological orders and cycles

In a finite set in which every element is related to another one there is a
cycle.  Elements that are only related to earlier ones are on no cycle.
-/

namespace TopologicalOrder

open Relation

variable {Elem : Type*} {relation : Elem → Elem → Prop}

theorem exists_cycle (elems : List Elem) (nonempty : elems ≠ [])
    (successor : ∀ elem ∈ elems, ∃ next ∈ elems, relation elem next) :
    ∃ elem, TransGen relation elem elem := by
  by_contra acyclic
  have finite : Finite {elem // elem ∈ elems} := (List.finite_toSet elems).to_subtype
  have irreflexive : Std.Irrefl (fun next elem : {elem // elem ∈ elems} =>
        TransGen relation elem.1 next.1) :=
    ⟨fun elem cycle => acyclic ⟨elem.1, cycle⟩⟩
  have wellFounded : WellFounded (fun next elem : {elem // elem ∈ elems} =>
        TransGen relation elem.1 next.1) :=
    Finite.wellFounded_of_trans_of_irrefl _
  obtain ⟨first, member⟩ := List.exists_mem_of_ne_nil elems nonempty
  obtain ⟨least, _, minimal⟩ := wellFounded.has_min Set.univ ⟨⟨first, member⟩, trivial⟩
  obtain ⟨next, later, related⟩ := successor least.1 least.2
  exact minimal ⟨next, later⟩ trivial (.single related)

/-- Each element of the list is only related to elements before it. -/
def Ordered (relation : Elem → Elem → Prop) (elems : List Elem) : Prop :=
  ∀ (index : ℕ) elem next, elems[index]? = some elem →
    relation elem next → ∃ earlier < index, elems[earlier]? = some next

variable {elems : List Elem}

theorem Ordered.append {last : Elem} (ordered : Ordered relation elems)
    (before : ∀ next, relation last next → next ∈ elems) :
    Ordered relation (elems ++ [last]) := by
  intro index elem next found related
  have bounded := (List.getElem?_eq_some_iff.mp found).1
  rw [List.length_append, List.length_singleton] at bounded
  by_cases old : index < elems.length
  · rw [List.getElem?_append_left old] at found
    obtain ⟨earlier, smaller, listed⟩ := ordered index elem next found related
    refine ⟨earlier, smaller, ?_⟩
    rw [List.getElem?_append_left (smaller.trans old)]
    exact listed
  have final : index = elems.length := by omega
  subst index
  rw [List.getElem?_concat_length] at found
  cases found
  obtain ⟨earlier, smaller, same⟩ := List.getElem_of_mem (before next related)
  refine ⟨earlier, smaller, ?_⟩
  rw [List.getElem?_append_left smaller, List.getElem?_eq_getElem smaller, same]

theorem Ordered.transGen {elem next : Elem} (ordered : Ordered relation elems) {index : ℕ}
    (found : elems[index]? = some elem)
    (path : TransGen relation elem next) :
    ∃ earlier < index, elems[earlier]? = some next := by
  induction path with
  | single related => exact ordered index elem _ found related
  | tail _ related ih =>
    obtain ⟨middle, smaller, listed⟩ := ih
    obtain ⟨earlier, before, found⟩ := ordered middle _ _ listed related
    exact ⟨earlier, before.trans smaller, found⟩

theorem Ordered.acyclic (ordered : Ordered relation elems) (nodup : elems.Nodup)
    {elem : Elem} (member : elem ∈ elems) : ¬ TransGen relation elem elem := by
  intro cycle
  obtain ⟨index, found⟩ := List.getElem?_of_mem member
  obtain ⟨earlier, smaller, again⟩ := ordered.transGen found cycle
  have bounded := (List.getElem?_eq_some_iff.mp found).1
  have same := (List.getElem?_inj (smaller.trans bounded) nodup).mp (again.trans found.symm)
  omega

end TopologicalOrder
