import Mathlib.Data.List.Basic

/-!
# Lines and columns of source offsets

The table of a source has the start of the text before the positions of its
newlines, and the entry before that of the line is taken for its start.
-/

namespace SwissledgerFoundry.Traces

open List

def newline : UInt8 := 10

def newlinesBefore (content : List UInt8) (offset : ℕ) : List ℕ :=
  (range offset).filter fun position => content[position]? = some newline

def computeLineOffsets (content : List UInt8) : List ℕ := 0 :: newlinesBefore content content.length

/-- What `binary_search` may answer; any of several matches. -/
def BinarySearch (sorted : List ℕ) (key : ℕ) : Except ℕ ℕ → Prop
  | .ok index => sorted[index]? = some key
  | .error index => index ≤ sorted.length ∧
      (∀ entry ∈ sorted.take index, entry < key) ∧ ∀ entry ∈ sorted.drop index, key < entry

def offsetToLineColumn (binarySearch : List ℕ → ℕ → Except ℕ ℕ) (lineOffsets : List (List ℕ))
    (sourceIdx offset : ℕ) : Option (ℕ × ℕ) :=
  lineOffsets[sourceIdx]?.map fun offsets =>
    let line := match binarySearch offsets offset with
      | .ok index => index
      | .error index => index - 1
    let lineStart := if line = 0 then 0 else offsets.getD (line - 1) 0 + 1
    (line + 1, offset - lineStart + 1)

/-- The line and the column that an offset has, both from one. -/
def location (content : List UInt8) (offset : ℕ) : ℕ × ℕ :=
  ((newlinesBefore content offset).length + 1,
    match (newlinesBefore content offset).getLast? with
    | none => offset + 1
    | some last => offset - last)

instance (sorted : List ℕ) (key : ℕ) (found : Except ℕ ℕ) :
    Decidable (BinarySearch sorted key found) := by
  unfold BinarySearch
  split <;> infer_instance

variable {content : List UInt8} {offset : ℕ}

theorem mem_newlinesBefore {position : ℕ} : position ∈ newlinesBefore content offset ↔
      position < offset ∧ content[position]? = some newline := by
  simp [newlinesBefore]

theorem filter_lt_append {key : ℕ} {left right : List ℕ} (below : ∀ entry ∈ left, entry < key)
    (above : ∀ entry ∈ right, key ≤ entry) : (left ++ right).filter (· < key) = left := by
  have kept : left.filter (· < key) = left := by simpa using below
  have dropped : right.filter (· < key) = [] := by simpa using above
  rw [filter_append, kept, dropped, append_nil]

theorem newlinesBefore_length (inside : offset < content.length) :
    newlinesBefore content content.length = newlinesBefore content offset ++
      ((range (content.length - offset)).map (offset + ·)).filter
        fun position => content[position]? = some newline := by
  rw [newlinesBefore, newlinesBefore, ← filter_append, ← range_add,
    Nat.add_sub_cancel' (Nat.le_of_lt inside)]

/-- A search that hits a newline goes one line too far. -/
theorem search_hit {index : ℕ} (inside : offset < content.length)
    (hit : (newlinesBefore content content.length)[index]? = some offset) :
    (newlinesBefore content offset).length ≠ index + 1 := by
  intro next
  have earlier : index < (newlinesBefore content offset).length := by omega
  rw [newlinesBefore_length inside, getElem?_append_left earlier] at hit
  exact Nat.lt_irrefl _ (mem_newlinesBefore.mp (mem_of_getElem? hit)).1

/-- A search misses at an offset that is not a newline only. -/
theorem search_miss {index : ℕ} (inside : offset < content.length)
    (miss : BinarySearch (computeLineOffsets content) offset (.error index)) :
    content[offset]? ≠ some newline ∧ 0 < offset ∧
      index = (newlinesBefore content offset).length + 1 ∧
      ∃ after, computeLineOffsets content = 0 :: newlinesBefore content offset ++ after := by
  obtain ⟨bound, below, above⟩ := miss
  have text : content[offset]? ≠ some newline := by
    intro ends
    have listed : offset ∈ computeLineOffsets content :=
      mem_cons_of_mem _ (mem_newlinesBefore.mpr ⟨inside, ends⟩)
    rw [← take_append_drop index (computeLineOffsets content), mem_append] at listed
    exact listed.elim (fun early => Nat.lt_irrefl _ (below offset early))
      fun late => Nat.lt_irrefl _ (above offset late)
  have positive : 0 < offset := by
    cases index with
    | zero => exact absurd (above 0 mem_cons_self) (Nat.not_lt_zero _)
    | succ index => exact below 0 mem_cons_self
  have cut : (computeLineOffsets content).take index = 0 :: newlinesBefore content offset := by
    rw [← filter_lt_append below fun entry member => Nat.le_of_lt (above entry member),
      take_append_drop, computeLineOffsets, newlinesBefore_length inside, ← cons_append]
    apply filter_lt_append
    · exact forall_mem_cons.mpr ⟨positive, fun entry member => (mem_newlinesBefore.mp member).1⟩
    intro entry member
    obtain ⟨_, _, rfl⟩ := mem_map.mp (mem_of_mem_filter member)
    exact Nat.le_add_right _ _
  refine ⟨text, positive, by rw [← length_take_of_le bound, cut, length_cons],
    (computeLineOffsets content).drop index, ?_⟩
  rw [← cut, take_append_drop]

/-- The location is right exactly if there is no newline before the offset, or
only one at the start of the text, and the offset is not a newline. Only at a
newline at the start does it rest on the search, which may give either entry 0. -/
theorem offsetToLineColumn_eq_location_iff (binarySearch : List ℕ → ℕ → Except ℕ ℕ)
    (contents : List (List UInt8)) (sourceIdx : ℕ) (content : List UInt8) (offset : ℕ)
    (source : contents[sourceIdx]? = some content) (inside : offset < content.length)
    (searches : BinarySearch (computeLineOffsets content) offset
      (binarySearch (computeLineOffsets content) offset)) :
    offsetToLineColumn binarySearch (contents.map computeLineOffsets) sourceIdx offset =
        some (location content offset) ↔
      (newlinesBefore content offset = [] ∨ newlinesBefore content offset = [0]) ∧
        (content[offset]? = some newline →
          offset = 0 ∧ binarySearch (computeLineOffsets content) offset = .ok 0) := by
  rw [offsetToLineColumn, getElem?_map, source, Option.map_some, Option.map_some]
  cases found : binarySearch (computeLineOffsets content) offset with
  | ok index =>
    rw [found] at searches
    cases index with
    | zero =>
      obtain rfl : 0 = offset := Option.some.inj searches
      simp [location, newlinesBefore]
    | succ index =>
      have ends := (mem_newlinesBefore.mp (mem_of_getElem? searches)).2
      have further := search_hit inside searches
      simp [location, ends, Ne.symm further]
  | error index =>
    rw [found] at searches
    obtain ⟨text, positive, rfl, after, offsets⟩ := search_miss inside searches
    have sorted : (newlinesBefore content offset).Pairwise (· < ·) := pairwise_lt_range.filter _
    rw [location, offsets, and_iff_left fun ends => absurd ends text]
    rcases eq_nil_or_concat' (newlinesBefore content offset) with none | ⟨init, last, same⟩
    · simp [none]
    have bound : last < offset := (mem_newlinesBefore.mp (same ▸ mem_concat_self)).1
    rw [same] at sorted ⊢
    rcases eq_nil_or_concat' init with rfl | ⟨earlier, previous, rfl⟩
    · simp
      omega
    have rising := (pairwise_append.mp sorted).2.2 previous (by simp) last (by simp)
    simp [append_eq_singleton_iff]
    omega

/-- A leading newline, and the second byte of the line after it. -/
theorem offsetToLineColumn_eq_location_leading :
    offsetToLineColumn (fun _ _ => .error 2) [computeLineOffsets [10, 97, 98]] 0 2 =
      some (location [10, 97, 98] 2) :=
  (offsetToLineColumn_eq_location_iff (fun _ _ => .error 2) [[10, 97, 98]] 0 _ 2 rfl (by decide)
    (by decide)).mpr (by decide)

/-- The first byte of the second line, and the newline before it. -/
theorem offsetToLineColumn_second_line :
    BinarySearch (computeLineOffsets [97, 98, 10, 99]) 3 (.error 2) ∧
    offsetToLineColumn (fun _ _ => .error 2) [computeLineOffsets [97, 98, 10, 99]] 0 3 =
      some (2, 3) ∧
    location [97, 98, 10, 99] 3 = (2, 1) ∧
    BinarySearch (computeLineOffsets [97, 98, 10, 99]) 2 (.ok 1) ∧
    offsetToLineColumn (fun _ _ => .ok 1) [computeLineOffsets [97, 98, 10, 99]] 0 2 = some (2, 2) ∧
    location [97, 98, 10, 99] 2 = (1, 3) := by
  refine ⟨by decide, ?_⟩
  decide

end SwissledgerFoundry.Traces
