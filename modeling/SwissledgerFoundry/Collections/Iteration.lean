import Mathlib.Data.List.Induction
import SwissledgerFoundry.Collections.HashMap

/-!
# Iteration over finite maps and lists

A loop over a hash map visits every entry once, in an order that the code does
not choose.  Written into another map, the entries give the same map for every
order.  What the round of one item establishes and all rounds keep holds at the
end.
-/

/-- The order in which hash maps are iterated over. -/
structure IterationOrder where
  order : {Key Value : Type} → HashMap Key Value → List (Σ _ : Key, Value)
  perm : ∀ {Key Value : Type} (map : HashMap Key Value), (order map).Perm map.entries

namespace IterationOrder

def listed : IterationOrder where
  order := AList.entries
  perm map := .refl map.entries

/-- The other way round. -/
def reversed (iteration : IterationOrder) : IterationOrder where
  order map := (iteration.order map).reverse
  perm map := (List.reverse_perm _).trans (iteration.perm map)

variable {Key Value : Type} (iteration : IterationOrder)

theorem nodupKeys (map : HashMap Key Value) : (iteration.order map).NodupKeys :=
  (List.perm_nodupKeys (iteration.perm map)).mpr map.nodupKeys

theorem mem_order {entry : Σ _ : Key, Value} [DecidableEq Key] {map : HashMap Key Value} :
    entry ∈ iteration.order map ↔ map.lookup entry.1 = some entry.2 := by
  rw [(iteration.perm map).mem_iff]
  exact AList.mem_lookup_iff.symm

theorem dlookup_order [DecidableEq Key] (map : HashMap Key Value) (probe : Key) :
    (iteration.order map).dlookup probe = map.lookup probe :=
  List.perm_dlookup probe (iteration.nodupKeys map) (iteration.perm map)

/-- Maps with the same lookups are visited alike, up to the order. -/
theorem order_perm [DecidableEq Key] (other : IterationOrder) {left right : HashMap Key Value}
    (same : ∀ probe, left.lookup probe = right.lookup probe) :
    (iteration.order left).Perm (other.order right) := by
  apply List.lookup_ext (iteration.nodupKeys left) (other.nodupKeys right)
  intro probe value
  rw [iteration.dlookup_order, other.dlookup_order, same]

end IterationOrder

namespace List

variable {Key Value Other : Type} (change : Value → Other)

theorem nodupKeys_map_values {entries : List (Σ _ : Key, Value)} (nodup : entries.NodupKeys) :
    (entries.map fun entry =>
      (⟨entry.1, change entry.2⟩ : Σ _ : Key, Other)).NodupKeys := by
  rw [NodupKeys, keys, map_map]
  exact nodup

theorem dlookup_map_values [DecidableEq Key] (entries : List (Σ _ : Key, Value)) (probe : Key) :
    (entries.map fun entry =>
      (⟨entry.1, change entry.2⟩ : Σ _ : Key, Other)).dlookup probe =
      (entries.dlookup probe).map change := by
  induction entries with
  | nil => rfl
  | cons entry entries ih =>
    by_cases same : probe = entry.1
    · subst same
      rw [map_cons, dlookup_cons_eq, dlookup_cons_eq]
      rfl
    · have other : probe ≠ (⟨entry.1, change entry.2⟩ : Σ _ : Key, Other).1 := same
      rw [map_cons, dlookup_cons_ne _ _ same, dlookup_cons_ne _ _ other, ih]

/-- Where no value stands twice, a key whose first entry is also its last one
has only this entry. -/
theorem dlookup_of_reverse [DecidableEq Key] {entries : List (Σ _ : Key, Value)}
    {entry : Σ _ : Key, Value} (nodup : (entries.map Sigma.snd).Nodup)
    (same : entries.dlookup entry.1 = entries.reverse.dlookup entry.1) (member : entry ∈ entries) :
    entries.dlookup entry.1 = some entry.2 := by
  induction entries with
  | nil => cases member
  | cons head rest ih =>
    obtain ⟨new, nodup⟩ := nodup_cons.mp nodup
    rw [reverse_cons, dlookup_append] at same
    by_cases key : entry.1 = head.1
    · have first : dlookup entry.1 (head :: rest) = some head.2 := by
        rw [key]
        exact dlookup_cons_eq ..
      obtain rfl | later := mem_cons.mp member
      · exact first
      -- The entry of the rest that is found from the back would repeat the value.
      have listed : entry.1 ∈ rest.reverse.keys :=
        mem_keys_of_mem (mem_reverse.mpr later)
      obtain ⟨value, found⟩ := Option.isSome_iff_exists.mp (dlookup_isSome.mpr listed)
      rw [first, found] at same
      obtain rfl : head.2 = value := Option.some.inj same
      have repeated := mem_reverse.mp (of_mem_dlookup found)
      exact absurd (mem_map_of_mem repeated) new
    · rw [dlookup_cons_ne _ _ key] at same ⊢
      rw [dlookup_cons_ne _ _ key, dlookup_nil, Option.or_none] at same
      refine ih nodup same ((mem_cons.mp member).resolve_left ?_)
      rintro rfl
      exact key rfl

end List

namespace AList

variable {Key Value : Type} [DecidableEq Key]

def extend (map : HashMap Key Value) (entries : List (Σ _ : Key, Value)) : HashMap Key Value :=
  entries.foldl (fun map entry => map.insert entry.1 entry.2) map

theorem lookup_extend {entries : List (Σ _ : Key, Value)}
    (nodup : entries.NodupKeys) (map : HashMap Key Value) (probe : Key) :
    (map.extend entries).lookup probe = (entries.dlookup probe).or (map.lookup probe) := by
  induction entries generalizing map with
  | nil => rfl
  | cons entry entries ih =>
    obtain ⟨absent, nodup⟩ := List.nodupKeys_cons.mp nodup
    have step : map.extend (entry :: entries) = (map.insert entry.1 entry.2).extend entries := rfl
    rw [step, ih nodup, lookup_insert_eq]
    by_cases same : probe = entry.1
    · subst same
      rw [List.dlookup_eq_none.mpr absent, List.dlookup_cons_eq]
      simp
    · rw [List.dlookup_cons_ne _ _ same, if_neg same]

/-- The last of the entries with a key counts. -/
theorem lookup_extend_reverse (map : HashMap Key Value) (entries : List (Σ _ : Key, Value))
    (probe : Key) :
    (map.extend entries).lookup probe = (entries.reverse.dlookup probe).or (map.lookup probe) := by
  induction entries using List.reverseRecOn with
  | nil => rfl
  | append_singleton entries entry ih =>
    rw [extend, List.foldl_append, List.reverse_append]
    change ((map.extend entries).insert entry.1 entry.2).lookup probe = _
    rw [lookup_insert_eq]
    change _ = (List.dlookup probe (entry :: entries.reverse)).or _
    by_cases same : probe = entry.1
    · subst same
      rw [if_pos rfl, List.dlookup_cons_eq, Option.some_or]
    · rw [if_neg same, ih, List.dlookup_cons_ne _ _ same]

/-- The last entry of each key is in the map. -/
def Repeats (map : HashMap Key Value) (entries : List (Σ _ : Key, Value)) : Prop :=
  ∀ probe value, entries.reverse.dlookup probe = some value → map.lookup probe = some value

theorem extend_same_iff (map : HashMap Key Value) (entries : List (Σ _ : Key, Value)) :
    (∀ probe, (map.extend entries).lookup probe = map.lookup probe) ↔ map.Repeats entries := by
  refine forall_congr' fun probe => ?_
  rw [lookup_extend_reverse]
  cases entries.reverse.dlookup probe <;> simp [eq_comm]

theorem lookup_extend_order (iteration : IterationOrder)
    (map other : HashMap Key Value) (probe : Key) :
    (map.extend (iteration.order other)).lookup probe =
      (other.lookup probe).or (map.lookup probe) := by
  rw [lookup_extend (iteration.nodupKeys other), iteration.dlookup_order]

end AList

namespace List

variable {State Item : Type*}

theorem foldl_establishes {target : Item} {start : State} {step : State → Item → State}
    (invariant : State → Prop) {done : State → Prop} {items : List Item}
    (member : target ∈ items) (initial : invariant start)
    (keeps : ∀ state item, invariant state → invariant (step state item))
    (establishes : ∀ state, invariant state → done (step state target))
    (stays : ∀ state item, invariant state → done state → done (step state item)) :
    done (items.foldl step start) := by
  induction items generalizing start with
  | nil => cases member
  | cons item items ih =>
    by_cases later : target ∈ items
    · exact ih later (keeps start item initial)
    have here : target = item := by
      rcases mem_cons.mp member with same | after
      · exact same
      · exact absurd after later
    subst here
    have final : invariant (items.foldl step (step start target)) ∧
        done (items.foldl step (step start target)) := by
      apply foldlRecOn (motive := fun state => invariant state ∧ done state)
      · exact ⟨keeps start target initial, establishes start initial⟩
      · intro state holds item _
        exact ⟨keeps state item holds.1, stays state item holds.1 holds.2⟩
    exact final.2

end List
