import Mathlib.Algebra.BigOperators.Group.List.Basic
import Mathlib.Algebra.Order.Ring.Nat
import Mathlib.Data.List.AList

/-!
# Finite maps

A hash map is Mathlib's association list with distinct keys.  Code that iterates
over it does so through a permutation of its entries.
-/

abbrev HashMap (Key Value : Type) := AList (fun _ : Key => Value)

namespace AList

open List AList

variable {Key Value : Type}

def values (map : HashMap Key Value) : List Value := map.entries.map Sigma.snd

def size (map : HashMap Key Value) : ℕ := map.entries.length

variable [DecidableEq Key]

theorem lookup_insert_eq (map : HashMap Key Value) (key probe : Key) (value : Value) :
    (map.insert key value).lookup probe = if probe = key then some value else map.lookup probe := by
  by_cases same : probe = key
  · subst probe
    simp
  · rw [lookup_insert_ne same, if_neg same]

theorem lookup_erase_eq (map : HashMap Key Value) (key probe : Key) : (map.erase key).lookup probe =
      if probe = key then none else map.lookup probe := by
  by_cases same : probe = key
  · subst probe
    simp
  · rw [lookup_erase_ne same, if_neg same]

variable {map : HashMap Key Value} {key : Key}

variable {value : Value} {probe : Key}

theorem lookup_of_insert {found : Value}
    (stored : (map.insert key value).lookup probe = some found) :
    probe = key ∧ value = found ∨ probe ≠ key ∧ map.lookup probe = some found := by
  rw [lookup_insert_eq] at stored
  split at stored
  · rename_i same
    exact .inl ⟨same, Option.some.inj stored⟩
  · rename_i different
    exact .inr ⟨different, stored⟩

theorem mem_iff_exists_lookup : key ∈ map ↔ ∃ value, map.lookup key = some value := by
  rw [← lookup_isSome, Option.isSome_iff_exists]

theorem mem_of_lookup (found : map.lookup key = some value) : key ∈ map :=
  mem_iff_exists_lookup.mpr ⟨value, found⟩

theorem lookup_of_erase (found : (map.erase key).lookup probe = some value) :
    map.lookup probe = some value := by
  rw [lookup_erase_eq] at found
  split at found
  · cases found
  · exact found

theorem mem_values_iff : value ∈ map.values ↔ ∃ key, map.lookup key = some value := by
  constructor
  · intro member
    obtain ⟨entry, entryMember, rfl⟩ := mem_map.mp member
    exact ⟨entry.1, mem_lookup_iff.mpr entryMember⟩
  · rintro ⟨key, found⟩
    exact mem_map.mpr ⟨⟨key, value⟩, mem_lookup_iff.mp found, rfl⟩

theorem erase_of_notMem (absent : key ∉ map) : map.erase key = map :=
  AList.ext (kerase_of_notMem_keys (mt mem_keys.mpr absent))

theorem erase_insert_of_notMem (absent : key ∉ map) : (map.insert key value).erase key = map := by
  apply AList.ext
  change (map.insert key value).entries.kerase key = map.entries
  have unkeyed : map.entries.kerase key = map.entries :=
    kerase_of_notMem_keys (mt mem_keys.mpr absent)
  simp [entries_insert, unkeyed]

theorem size_erase (member : key ∈ map) : (map.erase key).size + 1 = map.size := by
  have keys : (map.erase key).size = (map.keys.erase key).length := by
    rw [← keys_erase]
    simp [size, AList.keys, List.keys]
  have total : map.size = map.keys.length := by simp [size, AList.keys, List.keys]
  have positive := length_pos_of_mem (mem_keys.mp member)
  rw [keys, length_erase_of_mem (mem_keys.mp member)]
  omega

theorem size_insert (value : Value) (absent : key ∉ map) :
    (map.insert key value).size = map.size + 1 := by
  have fresh : map.entries.kerase key = map.entries :=
    kerase_of_notMem_keys (mt mem_keys.mpr absent)
  simp [size, entries_insert, fresh]

variable {right left : HashMap Key Value}

theorem values_perm (same : ∀ probe, left.lookup probe = right.lookup probe) :
    left.values.Perm right.values := by
  apply Perm.map
  apply lookup_ext left.nodupKeys right.nodupKeys
  intro probe value
  exact iff_of_eq (congrArg (value ∈ ·) (same probe))

theorem sum_values_insert (map : HashMap Key Value) (key : Key)
    (value : Value) (weight : Value → ℕ) :
    ((map.insert key value).values.map weight).sum =
      weight value + ((map.erase key).values.map weight).sum := by
  rfl

theorem sum_values_erase (found : map.lookup key = some value) (weight : Value → ℕ) :
    weight value + ((map.erase key).values.map weight).sum = (map.values.map weight).sum := by
  rw [← sum_values_insert]
  apply Perm.sum_eq
  apply Perm.map
  apply values_perm
  intro probe
  rw [lookup_insert_eq]
  split
  · rename_i same
    rw [same, found]
  · rfl

theorem sum_values_le {weight : Value → ℕ} (bounded : ∀ {key value}, right.lookup key = some value →
      ∃ other, left.lookup key = some other ∧ weight value ≤ weight other) :
    (right.values.map weight).sum ≤ (left.values.map weight).sum := by
  induction right using insertRec generalizing left with
  | H0 => exact Nat.zero_le _
  | IH key value right absent ih =>
    obtain ⟨other, found, lighter⟩ := bounded (lookup_insert right)
    rw [sum_values_insert, erase_of_notMem absent, ← sum_values_erase found weight]
    apply Nat.add_le_add lighter
    apply ih
    intro probe probeValue probeFound
    have different : probe ≠ key := by
      rintro rfl
      exact absent (mem_iff_exists_lookup.mpr ⟨probeValue, probeFound⟩)
    rw [lookup_erase_ne different]
    apply bounded
    rw [lookup_insert_ne different]
    exact probeFound

theorem size_le (stored : ∀ {key value}, right.lookup key = some value → key ∈ left) :
    right.size ≤ left.size := by
  have weights : ∀ map : HashMap Key Value, (map.values.map fun _ => 1).sum = map.size := by
    intro map
    rw [map_const', sum_replicate_nat, Nat.mul_one, values, length_map]
    rfl
  rw [← weights, ← weights]
  apply sum_values_le
  intro key value found
  obtain ⟨other, otherFound⟩ := mem_iff_exists_lookup.mp (stored found)
  exact ⟨other, otherFound, Nat.le_refl 1⟩

/-- Erases a list of keys, one after the other. -/
def eraseAll (map : HashMap Key Value) (keys : List Key) : HashMap Key Value :=
  keys.foldl (fun map key => map.erase key) map

theorem lookup_eraseAll (map : HashMap Key Value) (keys : List Key) (probe : Key) :
    (map.eraseAll keys).lookup probe = if probe ∈ keys then none else map.lookup probe := by
  induction keys generalizing map with
  | nil => simp [eraseAll]
  | cons key keys ih =>
    have step : map.eraseAll (key :: keys) = (map.erase key).eraseAll keys := rfl
    rw [step, ih, lookup_erase_eq]
    by_cases later : probe ∈ keys <;> simp [later]

variable {keys : List Key}

theorem lookup_of_eraseAll (found : (map.eraseAll keys).lookup probe = some value) :
    map.lookup probe = some value := by
  rw [lookup_eraseAll] at found
  split at found
  · cases found
  · exact found

theorem mem_eraseAll : probe ∈ map.eraseAll keys ↔ probe ∉ keys ∧ probe ∈ map := by
  rw [mem_iff_exists_lookup, mem_iff_exists_lookup, lookup_eraseAll]
  by_cases erased : probe ∈ keys <;> simp [erased]

theorem size_eraseAll (nodup : keys.Nodup) (stored : ∀ key ∈ keys, key ∈ map) :
    (map.eraseAll keys).size + keys.length = map.size := by
  induction keys generalizing map with
  | nil => rfl
  | cons key keys ih =>
    obtain ⟨absent, nodup⟩ := nodup_cons.mp nodup
    have erased := size_erase (stored key mem_cons_self)
    have remaining : ∀ other ∈ keys, other ∈ map.erase key := by
      intro other member
      refine mem_erase.mpr ⟨?_, ?_⟩
      · rintro rfl
        exact absent member
      · exact stored other (mem_cons_of_mem key member)
    have rest := ih nodup remaining
    have step : map.eraseAll (key :: keys) = (map.erase key).eraseAll keys := rfl
    rw [step, length_cons]
    omega

theorem mem_foldl_insert {value : Key → Value} :
    probe ∈ keys.foldl (fun map key => map.insert key (value key)) map ↔
      probe ∈ keys ∨ probe ∈ map := by
  induction keys generalizing map with
  | nil => simp
  | cons key keys ih =>
    simp only [foldl_cons, ih, mem_insert, mem_cons]
    tauto

/-- Changes every value of a map in place. -/
def mapValues (update : Key → Value → Value) (map : HashMap Key Value) : HashMap Key Value where
  entries := map.entries.map fun entry => ⟨entry.1, update entry.1 entry.2⟩
  nodupKeys := by
    have keys : (map.entries.map fun entry =>
        (⟨entry.1, update entry.1 entry.2⟩ : Σ _ : Key, Value)).keys =
        map.entries.keys := by
      simp [List.keys]
    unfold List.NodupKeys
    rw [keys]
    exact map.nodupKeys

theorem lookup_mapValues {update : Key → Value → Value} :
    (map.mapValues update).lookup probe = (map.lookup probe).map (update probe) := by
  ext value
  rw [Option.map_eq_some_iff]
  constructor
  · intro found
    obtain ⟨entry, member, same⟩ := mem_map.mp (mem_lookup_iff.mp found)
    cases same
    exact ⟨entry.2, mem_lookup_iff.mpr member, rfl⟩
  rintro ⟨stored, found, rfl⟩
  apply mem_lookup_iff.mpr
  exact mem_map.mpr ⟨⟨probe, stored⟩, mem_lookup_iff.mp found, rfl⟩

end AList
