import Mathlib.Data.List.Nodup
import Mathlib.Algebra.Order.Ring.Nat

/-!
# Sets in insertion order

A set that remembers the order in which its elements were inserted, and can be
cut back to its first elements.
-/

structure IndexSet (Elem : Type) where
  elems : List Elem
  nodup : elems.Nodup

namespace IndexSet

variable {Elem : Type}

instance : Membership Elem (IndexSet Elem) where
  mem set elem := elem ∈ set.elems

def empty : IndexSet Elem where
  elems := []
  nodup := List.nodup_nil

instance : Inhabited (IndexSet Elem) := ⟨empty⟩

def len (set : IndexSet Elem) : ℕ := set.elems.length

/-- Keeps the first elements. -/
def truncate (set : IndexSet Elem) (count : ℕ) : IndexSet Elem where
  elems := set.elems.take count
  nodup := set.nodup.sublist (List.take_sublist count set.elems)

variable [DecidableEq Elem]

instance (set : IndexSet Elem) (elem : Elem) : Decidable (elem ∈ set) :=
  inferInstanceAs (Decidable (elem ∈ set.elems))

/-- Inserts an element at the end unless it is there, and returns whether it is
new. -/
def insert (set : IndexSet Elem) (elem : Elem) : IndexSet Elem × Bool :=
  if absent : elem ∉ set.elems then
    ({ elems := set.elems ++ [elem]
       nodup := by
        rw [List.nodup_append]
        refine ⟨set.nodup, List.nodup_singleton _, ?_⟩
        rintro other member _ last rfl
        exact absent (List.mem_singleton.mp last ▸ member) }, true)
  else (set, false)

variable {set : IndexSet Elem}

variable {elem : Elem}

theorem insert_of_mem (member : elem ∈ set) : set.insert elem = (set, false) :=
  dif_neg (not_not.mpr member)

theorem insert_elems (absent : elem ∉ set) :
    (set.insert elem).1.elems = set.elems ++ [elem] ∧ (set.insert elem).2 = true := by
  have fresh : elem ∉ set.elems := absent
  unfold insert
  rw [dif_pos fresh]
  exact ⟨rfl, rfl⟩

theorem mem_insert {other : Elem} : other ∈ (set.insert elem).1 ↔ other ∈ set ∨ other = elem := by
  by_cases member : elem ∈ set
  · rw [insert_of_mem member]
    constructor
    · exact .inl
    rintro (old | rfl)
    · exact old
    · exact member
  show other ∈ (set.insert elem).1.elems ↔ _
  rw [(insert_elems member).1, List.mem_append, List.mem_singleton]
  rfl

theorem prefix_insert (set : IndexSet Elem) (elem : Elem) :
    set.elems <+: (set.insert elem).1.elems := by
  by_cases member : elem ∈ set
  · simp only [insert_of_mem member, List.prefix_refl]
  · rw [(insert_elems member).1]
    exact List.prefix_append _ _

end IndexSet
