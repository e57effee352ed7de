import Mathlib.Data.List.Basic
import Mathlib.Data.List.Pairwise
import Mathlib.Order.Lattice

/-!
# Ordered sets

An ordered set is a list that is sorted by a key, which stands for the element
in every comparison.
-/

structure BTreeSet {Elem Key : Type*} [LinearOrder Key] (key : Elem → Key) where
  elems : List Elem
  sorted : elems.Pairwise (fun left right => key left < key right)

namespace BTreeSet

open List

variable {Elem Key : Type*} [LinearOrder Key] {key : Elem → Key}

instance : Membership Elem (BTreeSet key) := ⟨fun set elem => elem ∈ set.elems⟩

variable {set : BTreeSet key} {elem : Elem}

theorem mem_def : elem ∈ set ↔ elem ∈ set.elems := Iff.rfl

def empty : BTreeSet key := { elems := [], sorted := .nil }

@[simp] theorem notMem_empty (elem : Elem) : elem ∉ (empty : BTreeSet key) := not_mem_nil

/-- Whether an element with this key is present. -/
def contains (set : BTreeSet key) (probe : Key) : Bool :=
  set.elems.any (fun elem => key elem = probe)

theorem contains_iff {probe : Key} : set.contains probe ↔ ∃ elem ∈ set, key elem = probe := by
  simp [contains, mem_def]

def insertSorted (key : Elem → Key) (elem : Elem) : List Elem → List Elem
  | [] => [elem]
  | head :: tail =>
    if key elem < key head then elem :: head :: tail
    else if key head < key elem then head :: insertSorted key elem tail
    else head :: tail

variable {probe : Elem} {elems : List Elem}

theorem mem_of_mem_insertSorted (member : probe ∈ insertSorted key elem elems) :
    probe = elem ∨ probe ∈ elems := by
  induction elems with
  | nil => exact .inl (mem_singleton.mp member)
  | cons head tail ih =>
    rw [insertSorted] at member
    split at member
    · exact mem_cons.mp member
    split at member
    · rcases mem_cons.mp member with same | later
      · exact .inr (mem_cons.mpr (.inl same))
      · exact (ih later).imp_right (mem_cons_of_mem head)
    · exact .inr member

section

variable (sorted : elems.Pairwise (fun left right => key left < key right))

include sorted

theorem insertSorted_sorted :
    (insertSorted key elem elems).Pairwise (fun left right => key left < key right) := by
  induction elems with
  | nil => exact pairwise_singleton _ _
  | cons head tail ih =>
    obtain ⟨smallest, tailSorted⟩ := pairwise_cons.mp sorted
    rw [insertSorted]
    split
    · rename_i before
      apply pairwise_cons.mpr
      refine ⟨?_, sorted⟩
      intro probe member
      rcases mem_cons.mp member with same | later
      · exact same ▸ before
      · exact before.trans (smallest probe later)
    split
    · rename_i after
      apply pairwise_cons.mpr
      refine ⟨?_, ih tailSorted⟩
      intro probe member
      rcases mem_of_mem_insertSorted member with same | later
      · exact same ▸ after
      · exact smallest probe later
    · exact sorted

theorem mem_insertSorted : probe ∈ insertSorted key elem elems ↔
      probe ∈ elems ∨ (probe = elem ∧ ∀ other ∈ elems, key other ≠ key elem) := by
  induction elems with
  | nil => simp [insertSorted]
  | cons head tail ih =>
    obtain ⟨smallest, tailSorted⟩ := pairwise_cons.mp sorted
    rw [insertSorted]
    split
    · rename_i before
      have absent : ∀ other ∈ head :: tail, key other ≠ key elem := by
        intro other member
        rcases mem_cons.mp member with same | later
        · exact same ▸ before.ne'
        · exact (before.trans (smallest other later)).ne'
      rw [and_iff_left absent, mem_cons, or_comm]
    split
    · rename_i after
      rw [mem_cons, ih tailSorted, forall_mem_cons, mem_cons, and_iff_right after.ne, or_assoc]
    rename_i notBefore notAfter
    have same := le_antisymm (not_lt.mp notBefore) (not_lt.mp notAfter)
    simp [same]

end

/-- Inserts an element unless its key is present. -/
def insert (set : BTreeSet key) (elem : Elem) : BTreeSet key :=
  { elems := insertSorted key elem set.elems, sorted := insertSorted_sorted set.sorted }

theorem mem_insert :
    probe ∈ set.insert elem ↔ probe ∈ set ∨ (probe = elem ∧ ∀ other ∈ set, key other ≠ key elem) :=
  mem_insertSorted set.sorted

theorem mem_insert_of_eq (same : ∀ other ∈ set, key other = key elem → other = elem) :
    probe ∈ set.insert elem ↔ probe = elem ∨ probe ∈ set := by
  rw [mem_insert]
  constructor
  · rintro (member | ⟨added, _⟩)
    · exact .inr member
    · exact .inl added
  rintro (added | member)
  · by_cases present : elem ∈ set
    · exact .inl (added ▸ present)
    · refine .inr ⟨added, ?_⟩
      intro other member sameKey
      exact present (same other member sameKey ▸ member)
  · exact .inl member

theorem mem_insert_of_injective (injective : Function.Injective key) :
    probe ∈ set.insert elem ↔ probe = elem ∨ probe ∈ set := by
  apply mem_insert_of_eq
  intro other _ sameKey
  exact injective sameKey

theorem mem_foldl_insert (injective : Function.Injective key) :
    probe ∈ elems.foldl insert set ↔ probe ∈ elems ∨ probe ∈ set := by
  induction elems generalizing set with
  | nil => simp
  | cons head tail ih =>
    rw [foldl_cons, ih, mem_insert_of_injective injective, mem_cons, or_left_comm, or_assoc]

def remove (set : BTreeSet key) (probe : Key) : BTreeSet key :=
  { elems := set.elems.filter (fun elem => key elem ≠ probe)
    sorted := set.sorted.filter _ }

theorem mem_remove {probe : Key} : elem ∈ set.remove probe ↔ elem ∈ set ∧ key elem ≠ probe := by
  simp [remove, mem_def]

theorem remove_insert (absent : ∀ other ∈ set, key other ≠ key elem) :
    (set.insert elem).remove (key elem) = set := by
  have kept : ∀ {elems : List Elem}, (∀ other ∈ elems, key other ≠ key elem) →
      (insertSorted key elem elems).filter (fun other => key other ≠ key elem) = elems := by
    intro elems different
    have unfiltered : elems.filter (fun other => key other ≠ key elem) =
        elems := by
      apply filter_eq_self.mpr
      intro other member
      exact decide_eq_true (different other member)
    induction elems with
    | nil => simp [insertSorted]
    | cons head tail ih =>
      obtain ⟨headDifferent, tailDifferent⟩ := forall_mem_cons.mp different
      rw [insertSorted]
      split
      · rw [filter_cons_of_neg (by simp), unfiltered]
      split
      · rw [filter_cons_of_pos (by simpa using headDifferent)]
        congr 1
        apply ih tailDifferent
        apply filter_eq_self.mpr
        intro other member
        exact decide_eq_true (tailDifferent other member)
      · exact unfiltered
  cases set with
  | mk elems sorted =>
    have same := kept absent
    simp only [insert, remove, same]

theorem eq_of_key_eq {left right : Elem} (leftMember : left ∈ set)
    (rightMember : right ∈ set) (same : key left = key right) :
    left = right := by
  have distinct : set.elems.Pairwise (fun left right => key left ≠ key right) := by
    apply set.sorted.imp
    intro _ _ before
    exact before.ne
  have symmetric : Std.Symm (fun left right => key left ≠ key right) := ⟨fun _ _ => Ne.symm⟩
  by_contra different
  exact distinct.forall leftMember rightMember different same

theorem nodup (set : BTreeSet key) : set.elems.Nodup := by
  apply set.sorted.imp
  intro left right before same
  exact before.ne (congrArg key same)

/-- The element with the largest key. -/
def last? (set : BTreeSet key) : Option Elem := set.elems.getLast?

theorem last?_eq_none_iff : set.last? = none ↔ ∀ elem, elem ∉ set := by
  rw [last?, getLast?_eq_none_iff, eq_nil_iff_forall_not_mem]
  exact Iff.rfl

theorem last?_eq_some (found : set.last? = some elem) :
    elem ∈ set ∧ ∀ other ∈ set, key other ≤ key elem := by
  obtain ⟨front, split⟩ := getLast?_eq_some_iff.mp found
  have sorted := set.sorted
  rw [split, pairwise_append] at sorted
  constructor
  · rw [mem_def, split]
    exact mem_append_right front (mem_singleton_self elem)
  intro other member
  rw [mem_def, split] at member
  rcases mem_append.mp member with earlier | same
  · exact (sorted.2.2 other earlier elem (mem_singleton_self elem)).le
  · rw [mem_singleton.mp same]

end BTreeSet
