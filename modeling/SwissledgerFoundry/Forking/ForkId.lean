import SwissledgerFoundry.Collections.Radix
import SwissledgerFoundry.Forking.Backend

/-!
# Names of forks

A fork is named by its endpoint and its block.  Further forks of the same
endpoint and block get the numbers of a counter appended.
-/

namespace SwissledgerFoundry.Forking.ForkId

open List Nat

def new (url : List Char) (num : Option ℕ) : ForkId :=
  url ++ '@' ::
    match num with
    | some n => '0' :: 'x' :: toDigits 16 n
    | none => ['l', 'a', 't', 'e', 's', 't']

/-- The name that `inc_senders` returns for a number of the counter. -/
def append (id : ForkId) (number : ℕ) : ForkId := id ++ '-' :: toDigits 10 number

/-- A name with all its numbers. -/
def numbered (url : List Char) (block : ℕ) (numbers : List ℕ) : ForkId :=
  url ++ '@' :: (('0' :: 'x' :: toDigits 16 block) ++
    (numbers.map (toDigits 10)).flatMap ('-' :: ·))

variable (block : ℕ)

theorem numbered_nil (url : List Char) (block : ℕ) :
    numbered url block [] = new url (some block) := by
  simp only [numbered, new, map_nil, flatMap_nil, append_nil]

theorem append_numbered (url : List Char) (block : ℕ) (numbers : List ℕ) (number : ℕ) :
    append (numbered url block numbers) number = numbered url block (numbers ++ [number]) := by
  simp only [append, numbered, map_append, map_singleton, flatMap_append,
    flatMap_singleton, append_assoc, cons_append]

theorem at_notMem_toDigits {base number : ℕ} (atLeast : 1 < base) : '@' ∉ toDigits base number :=
  Nat.notMem_toDigits atLeast (fun _ => Nat.digitChar_ne '@' (by decide))

theorem dash_notMem_toDigits {base number : ℕ} (atLeast : 1 < base) : '-' ∉ toDigits base number :=
  Nat.notMem_toDigits atLeast (fun _ => Nat.digitChar_ne '-' (by decide))

theorem at_notMem_block : '@' ∉ '0' :: 'x' :: toDigits 16 block := by
  simp [at_notMem_toDigits]

/-- The name after the endpoint holds no further separator of this kind. -/
theorem at_notMem_numbers (numbers : List ℕ) : '@' ∉ ('0' :: 'x' :: toDigits 16 block) ++
      (numbers.map (toDigits 10)).flatMap ('-' :: ·) := by
  intro member
  rcases mem_append.mp member with inBlock | inNumbers
  · exact at_notMem_block block inBlock
  obtain ⟨digits, listed, inDigits⟩ := mem_flatMap.mp inNumbers
  obtain ⟨number, _, rfl⟩ := mem_map.mp listed
  rcases mem_cons.mp inDigits with dash | inDigits
  · cases dash
  · exact at_notMem_toDigits (by decide) inDigits

theorem dash_notMem_parts (numbers : List ℕ) : ∀ part ∈ ('0' :: 'x' :: toDigits 16 block) ::
      numbers.map (toDigits 10), '-' ∉ part := by
  rw [forall_mem_cons, forall_mem_map]
  exact ⟨by simp [dash_notMem_toDigits], fun _ _ => dash_notMem_toDigits (by decide)⟩

theorem numbered_inj {url url' : List Char} {block block' : ℕ} {numbers numbers' : List ℕ}
    (same : numbered url block numbers = numbered url' block' numbers') :
    url = url' ∧ block = block' ∧ numbers = numbers' := by
  obtain ⟨sameUrl, sameRest⟩ := append_cons_inj_of_notMem_right
    (at_notMem_numbers _ _) (at_notMem_numbers _ _) same
  obtain ⟨sameBlock, sameNumbers⟩ := append_flatMap_inj
    (dash_notMem_parts _ _) (dash_notMem_parts _ _) sameRest
  have digits := (cons.inj (cons.inj sameBlock).2).2
  exact ⟨sameUrl, Radix.toDigits_injective (by decide) (by decide) digits,
    (Radix.toDigits_injective (by decide) (by decide)).list_map sameNumbers⟩

theorem new_inj {url : List Char} {num : Option ℕ} {url' : List Char} {num' : Option ℕ}
    (same : new url num = new url' num') : url = url' ∧ num = num' := by
  have free : ∀ num : Option ℕ, '@' ∉
      (match num with
        | some n => '0' :: 'x' :: toDigits 16 n
        | none => ['l', 'a', 't', 'e', 's', 't']) := by
    intro num
    cases num with
    | none => decide
    | some n => exact at_notMem_block n
  obtain ⟨sameUrl, sameRest⟩ := append_cons_inj_of_notMem_right (free num) (free num') same
  refine ⟨sameUrl, ?_⟩
  cases num with
  | none =>
    cases num' with
    | none => rfl
    | some n => cases sameRest
  | some n =>
    cases num' with
    | none => cases sameRest
    | some n' =>
      have digits := (cons.inj (cons.inj sameRest).2).2
      rw [Radix.toDigits_injective (by decide) (by decide) digits]

end SwissledgerFoundry.Forking.ForkId
