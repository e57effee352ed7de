import SwissledgerFoundry.Cheatcodes.SafeMemory

/-!
# Which memory the check keeps safe

The check looks at one region of memory of an instruction.  An instruction that
is let through keeps to the allowed ranges exactly if the ends are computed without
overflow and the regions that the check does not look at keep to them.
-/

namespace SwissledgerFoundry.Cheatcodes

open List

/-- A region of memory that an instruction writes or reads.  Reading expands
the memory up to the end of the region; a region of size zero is not
touched. -/
structure MemAccess where
  offset : ℕ
  size : ℕ
  writes : Bool

variable {access : MemAccess} {memorySize : ℕ}

namespace MemAccess

section

variable (access : MemAccess)

/-- The bytes that are written, and those by which a memory of the given size
is expanded, are allowed. -/
def Safe (ranges : List MemRange) (memorySize : ℕ) : Prop :=
  ∀ byte, access.offset ≤ byte → byte < access.offset + access.size →
    access.writes = true ∨ memorySize ≤ byte → ∃ range ∈ ranges, range.contains byte = true

/-- An allowed range contains the offset and the last byte, of a size that is cut
down to 64 bits. -/
def Covered (ranges : List MemRange) : Prop :=
  ∃ range ∈ ranges, range.contains access.offset = true ∧
    range.contains (access.offset + (min access.size u64Max - 1)) = true

/-- The last byte is computed, since a range contains the offset, and it is no
64-bit number. -/
def Wraps (ranges : List MemRange) : Prop :=
  (∃ range ∈ ranges, range.contains access.offset = true) ∧
    2 ^ 64 ≤ access.offset + (min access.size u64Max - 1)

/-- The end is no 64-bit number. -/
def EndWraps : Prop := 2 ^ 64 ≤ min access.offset u64Max + min access.size u64Max

/-- The region is only read and lies within the memory. -/
def Inside (memorySize : ℕ) : Prop :=
  access.writes = false ∧ access.offset < memorySize ∧ access.offset + access.size ≤ memorySize

end

theorem Inside.safe (inside : access.Inside memorySize) (ranges : List MemRange) :
    access.Safe ranges memorySize := by
  obtain ⟨reads, -, bounded⟩ := inside
  intro byte lower upper touches
  rcases touches with writes | beyond
  · simp [reads] at writes
  · omega

end MemAccess

def operand (stack : List U256) (position : ℕ) : ℕ := (stack[position]?.getD 0).toNat

namespace MemOpcode

/-- How many words the instruction takes from the stack. -/
def inputs : MemOpcode → ℕ
  | .mstore => 2
  | .mstore8 => 2
  | .mload => 1
  | .mcopy => 3
  | .calldatacopy => 3
  | .codecopy => 3
  | .returndatacopy => 3
  | .extcodecopy => 4
  | .call => 7
  | .callcode => 7
  | .staticcall => 6
  | .delegatecall => 6
  | .keccak256 => 2
  | .log topics => 2 + topics
  | .create => 3
  | .create2 => 4
  | .ret => 2
  | .revert => 2
  | .other => 0

section

variable (opcode : MemOpcode) (stack : List U256)

/-- The region that the check looks at. -/
def checked : List MemAccess :=
  match opcode with
  | .mstore => [⟨operand stack 0, 32, true⟩]
  | .mstore8 => [⟨operand stack 0, 1, true⟩]
  | .mload => [⟨operand stack 0, 32, false⟩]
  | .mcopy => []
  | .calldatacopy => [⟨operand stack 0, operand stack 2, true⟩]
  | .codecopy => [⟨operand stack 0, operand stack 2, true⟩]
  | .returndatacopy => [⟨operand stack 0, operand stack 2, true⟩]
  | .extcodecopy => [⟨operand stack 1, operand stack 3, true⟩]
  | .call => [⟨operand stack 5, operand stack 6, true⟩]
  | .callcode => [⟨operand stack 5, operand stack 6, true⟩]
  | .staticcall => [⟨operand stack 4, operand stack 5, true⟩]
  | .delegatecall => [⟨operand stack 4, operand stack 5, true⟩]
  | .keccak256 => [⟨operand stack 0, operand stack 1, false⟩]
  | .log _ => [⟨operand stack 0, operand stack 1, false⟩]
  | .create => [⟨operand stack 1, operand stack 2, false⟩]
  | .create2 => [⟨operand stack 1, operand stack 2, false⟩]
  | .ret => [⟨operand stack 0, operand stack 1, false⟩]
  | .revert => [⟨operand stack 0, operand stack 1, false⟩]
  | .other => []

/-- The regions that the check does not look at: both of a copy within the
memory, and the arguments of a call. -/
def unchecked : List MemAccess :=
  match opcode with
  | .mcopy => [⟨operand stack 0, operand stack 2, true⟩, ⟨operand stack 1, operand stack 2, false⟩]
  | .call => [⟨operand stack 3, operand stack 4, false⟩]
  | .callcode => [⟨operand stack 3, operand stack 4, false⟩]
  | .staticcall => [⟨operand stack 2, operand stack 3, false⟩]
  | .delegatecall => [⟨operand stack 2, operand stack 3, false⟩]
  | _ => []

/-- What the instruction touches.  Without enough words on the stack it
halts. -/
def touched : List MemAccess :=
  if stack.length < opcode.inputs then []
  else opcode.checked stack ++ opcode.unchecked stack

end

/-- The check computes an end that is no 64-bit number.  For the instructions
that only read, and for the arguments of a call to the cheatcode address, a further
end is computed if no range covers the region. -/
def Overflows (opcode : MemOpcode) (ranges : List MemRange) (interpreter : MemInterpreter) : Prop :=
  ∃ access ∈ opcode.checked interpreter.stack,
    match opcode with
    | .mload => interpreter.memory.length ≤ access.offset ∧ access.Wraps ranges
    | .call => access.Wraps ranges ∨ ¬ access.Covered ranges ∧ 7 ≤ interpreter.stack.length ∧
        (interpreter.stack[1]?.getD 0).setWidth 160 = vmAddress ∧
        ∃ arguments ∈ opcode.unchecked interpreter.stack, arguments.EndWraps
    | _ => access.Wraps ranges ∨
        ¬ access.Covered ranges ∧ access.writes = false ∧ access.EndWraps

/-- What the check lets through, if nothing overflows. -/
def Accepts (opcode : MemOpcode) (ranges : List MemRange) (interpreter : MemInterpreter) : Prop :=
  ∀ access ∈ opcode.checked interpreter.stack, access.Covered ranges ∨
    match opcode with
    | .mload => access.offset < interpreter.memory.length
    | _ => access.Inside interpreter.memory.length

/-- The check can judge the instruction: no end overflows, and if it lets the
instruction through, the regions that it does not look at are safe, and so is a
load that begins within the memory; the region that it looks at is not longer than
a 64-bit number. -/
structure Checkable (opcode : MemOpcode) (ranges : List MemRange)
    (interpreter : MemInterpreter) : Prop where
  fits : ¬ opcode.Overflows ranges interpreter
  judged : opcode.inputs ≤ interpreter.stack.length → opcode.Accepts ranges interpreter →
    (∀ access ∈ opcode.unchecked interpreter.stack,
      access.Safe ranges interpreter.memory.length) ∧
    ∀ access ∈ opcode.checked interpreter.stack,
      (opcode = .mload → access.Safe ranges interpreter.memory.length) ∧
      (access.Covered ranges → access.size < 2 ^ 64)

end MemOpcode

variable {offset : ℕ}

theorem MemRange.contains_iff {range : MemRange} :
    range.contains offset = true ↔ range.start ≤ offset ∧ offset < range.stop := by
  simp [MemRange.contains]

/-- Cutting an offset down to 64 bits does not bring it into a range: no range
reaches the largest 64-bit number. -/
theorem MemRange.contains_min (range : MemRange) :
    range.contains (min offset u64Max) = range.contains offset := by
  have fits := range.fits
  rw [Bool.eq_iff_iff, contains_iff, contains_iff]
  simp only [u64Max]
  omega

variable {length : ℕ} {ranges : List MemRange}

theorem containsBoth_overflowed : (containsBoth offset length ranges).2 = true ↔
    (∃ range ∈ ranges, range.contains offset = true) ∧ 2 ^ 64 ≤ offset + length := by
  induction ranges with
  | nil => simp [containsBoth]
  | cons range ranges ih =>
    simp only [containsBoth, exists_mem_cons_iff]
    split
    · rename_i first
      split
      · simp [first]
      · simp only [Bool.or_eq_true, decide_eq_true_eq, ih, first]
        tauto
    · rename_i first
      simp [ih, first]

theorem containsBoth_found (small : (∃ range ∈ ranges, range.contains offset = true) →
      offset + length < 2 ^ 64) :
    (containsBoth offset length ranges).1 = true ↔ ∃ range ∈ ranges,
      range.contains offset = true ∧ range.contains (offset + length) = true := by
  induction ranges with
  | nil => simp [containsBoth]
  | cons range ranges ih =>
    have later := ih fun found => small ((exists_mem_cons_iff ..).mpr (.inr found))
    simp only [containsBoth, exists_mem_cons_iff]
    split
    · rename_i first
      rw [Nat.mod_eq_of_lt (small ⟨range, mem_cons_self, first⟩)]
      split
      · next last => simp [first, last]
      · next last => simp [last, later]
    · next first => simp [first, later]

/-- The comparison as the check makes it, on the region cut down to 64
bits. -/
def MemAccess.compare (access : MemAccess) (ranges : List MemRange) : Bool × Bool :=
  containsBoth (min access.offset u64Max) (min access.size u64Max - 1) ranges

namespace MemAccess

variable {access : MemAccess}

/-- An offset in a range is a 64-bit number. -/
theorem min_offset {range : MemRange} (contains : range.contains access.offset = true) :
    min access.offset u64Max = access.offset := by
  have fits := range.fits
  rw [MemRange.contains_iff] at contains
  simp only [u64Max]
  omega

theorem compare_overflowed : (access.compare ranges).2 = true ↔ access.Wraps ranges := by
  simp only [compare, containsBoth_overflowed, MemRange.contains_min, Wraps]
  refine and_congr_right ?_
  rintro ⟨range, _, contains⟩
  rw [min_offset contains]

theorem compare_found (fits : ¬ access.Wraps ranges) :
    (access.compare ranges).1 = true ↔ access.Covered ranges := by
  have small : (∃ range ∈ ranges, range.contains (min access.offset u64Max) = true) →
      min access.offset u64Max + (min access.size u64Max - 1) < 2 ^ 64 := by
    simp only [MemRange.contains_min]
    intro found
    have bounded := Nat.not_le.mp fun wraps => fits ⟨found, wraps⟩
    obtain ⟨range, _, contains⟩ := found
    rw [min_offset contains]
    exact bounded
  simp only [compare, containsBoth_found small, MemRange.contains_min, Covered]
  refine exists_congr fun range => and_congr_right fun _ => and_congr_right fun contains => ?_
  rw [min_offset contains]

theorem Covered.safe (covered : access.Covered ranges) (small : access.size < 2 ^ 64)
    (memorySize : ℕ) : access.Safe ranges memorySize := by
  obtain ⟨range, member, first, last⟩ := covered
  intro byte lower upper _
  refine ⟨range, member, ?_⟩
  rw [MemRange.contains_iff] at first last ⊢
  simp only [u64Max] at last
  omega

/-- The largest 64-bit number is in no range. -/
theorem Covered.size_lt (covered : access.Covered ranges) (bounded : memorySize < 2 ^ 64)
    (safe : access.Safe ranges memorySize) : access.size < 2 ^ 64 := by
  obtain ⟨range, _, first, _⟩ := covered
  have fits := range.fits
  rw [MemRange.contains_iff] at first
  by_contra large
  obtain ⟨other, _, contains⟩ := safe (2 ^ 64 - 1) (by omega) (by omega) (.inr (by omega))
  have otherFits := other.fits
  rw [MemRange.contains_iff] at contains
  omega

end MemAccess

/-- When the outcome has overflowed, and when it lets the instruction run. -/
structure MemOutcome.Judges (outcome : MemOutcome) (overflows accepts enough : Prop) : Prop where
  overflowed : outcome.overflowed = true ↔ overflows
  proceeds : ¬ overflows → enough → (outcome.action = .proceed ↔ accepts)

variable {outcome : MemOutcome} {enough : Prop}

/-- An outcome that rests on the comparison alone. -/
theorem MemOutcome.Judges.of_compare (overflowed : outcome.overflowed = (access.compare ranges).2)
    (action : enough → (outcome.action = .proceed ↔ (access.compare ranges).1 = true)) :
    outcome.Judges (access.Wraps ranges) (access.Covered ranges) enough where
  overflowed := by rw [overflowed, MemAccess.compare_overflowed]
  proceeds fits taken := (action taken).trans (MemAccess.compare_found fits)

/-- On a stack without the operand nothing is judged. -/
theorem MemOutcome.Judges.of_missing {stack : List U256} {overflows accepts : Prop} {needed : ℕ}
    (missing : stack[0]? = none) (calm : outcome.overflowed ≠ true) (fits : ¬ overflows)
    (reads : 0 < needed) : outcome.Judges overflows accepts (needed ≤ stack.length) where
  overflowed := iff_of_false calm fits
  proceeds _ taken := by
    rw [getElem?_eq_none_iff] at missing
    omega

/-- A covered region is let through; for another one, `further` says what else
overflows and `accepts` what else is let through. -/
theorem MemOutcome.judges_ite (access : MemAccess) (ranges : List MemRange) {other : MemOutcome}
    {further accepts : Prop}
    (flag : other.overflowed = true ↔ (access.compare ranges).2 = true ∨ further)
    (action : ¬ further → enough → (other.action = .proceed ↔ accepts)) :
    MemOutcome.Judges (if (access.compare ranges).1 = true then
        { action := .proceed, overflowed := (access.compare ranges).2 }
      else other) (access.Wraps ranges ∨ ¬ access.Covered ranges ∧ further)
      (access.Covered ranges ∨ accepts) enough := by
  rw [MemAccess.compare_overflowed] at flag
  constructor
  · by_cases wraps : access.Wraps ranges
    · refine iff_of_true ?_ (.inl wraps)
      split
      · exact MemAccess.compare_overflowed.mpr wraps
      · exact flag.mpr (.inl wraps)
    rw [← MemAccess.compare_found wraps, or_iff_right wraps]
    split
    · rename_i covered
      exact iff_of_false (fun flagged => wraps (MemAccess.compare_overflowed.mp flagged))
        fun both => both.1 covered
    · rename_i uncovered
      rw [flag, or_iff_right wraps, and_iff_right uncovered]
  · intro fits taken
    rw [not_or, not_and] at fits
    rw [← MemAccess.compare_found fits.1] at fits ⊢
    split
    · rename_i covered
      exact iff_of_true rfl (.inl covered)
    · rename_i uncovered
      rw [or_iff_right uncovered]
      exact action (fits.2 uncovered) taken

/-- A write is let through only if it is covered, and computes no further
end. -/
theorem MemOutcome.Judges.of_writes
    (judges : outcome.Judges (access.Wraps ranges) (access.Covered ranges) enough)
    (writes : access.writes = true) :
    outcome.Judges
      (access.Wraps ranges ∨ ¬ access.Covered ranges ∧ access.writes = false ∧ access.EndWraps)
      (access.Covered ranges ∨ access.Inside memorySize) enough := by
  have notRead : ¬ access.writes = false := by simp [writes]
  have apart : ¬ access.Inside memorySize := fun inside => notRead inside.1
  rwa [or_iff_left fun further => notRead further.2.1, or_iff_left apart]

variable {stack : List U256}

theorem operand_eq {position : ℕ} {word : U256} (found : stack[position]? = some word) :
    operand stack position = word.toNat := by
  simp [operand, found]

theorem operand_eq_zero {position : ℕ} (missing : stack[position]? = none) :
    operand stack position = 0 := by
  simp [operand, missing]

/-- A region whose offset or size is not on the stack overflows nowhere. -/
theorem MemAccess.not_wraps (small : access.offset = 0 ∨ access.size = 0) :
    ¬ access.Wraps ranges ∧ ¬ access.EndWraps := by
  constructor
  · rintro ⟨⟨range, _, contains⟩, large⟩
    have fits := range.fits
    rw [MemRange.contains_iff] at contains
    simp only [u64Max] at large
    omega
  · simp only [EndWraps, u64Max]
    omega

section

variable {interpreter : MemInterpreter}

theorem checkMstore_judges : (checkMstore ranges interpreter).Judges
    (MemAccess.Wraps ⟨operand interpreter.stack 0, 32, true⟩ ranges)
    (MemAccess.Covered ⟨operand interpreter.stack 0, 32, true⟩ ranges)
    (2 ≤ interpreter.stack.length) := by
  unfold checkMstore
  cases found : interpreter.stack[0]? with
  | none =>
    rw [operand_eq_zero found]
    exact .of_missing found nofun (MemAccess.not_wraps (.inl rfl)).1 two_pos
  | some top =>
    rw [operand_eq found]
    apply MemOutcome.Judges.of_compare
    · dsimp only
      split
      · rfl
      split
      · rfl
      split <;> rfl
    intro taken
    dsimp only
    split
    · rename_i covered
      exact iff_of_true rfl covered
    rename_i uncovered
    split
    · rename_i missing
      rw [getElem?_eq_none_iff] at missing
      omega
    split <;> exact iff_of_false nofun uncovered

theorem containsBoth_zero (small : offset < 2 ^ 64) :
    containsBoth offset 0 ranges = (ranges.any (·.contains offset), false) := by
  induction ranges with
  | nil => rfl
  | cons range ranges ih =>
    simp only [containsBoth, Nat.add_zero, Nat.mod_eq_of_lt small, ih, any_cons]
    split
    · rename_i first
      simpa [first] using small
    · rename_i first
      simp [first]

theorem checkMstore8_judges : (checkMstore8 ranges interpreter).Judges
    (MemAccess.Wraps ⟨operand interpreter.stack 0, 1, true⟩ ranges)
    (MemAccess.Covered ⟨operand interpreter.stack 0, 1, true⟩ ranges)
    (2 ≤ interpreter.stack.length) := by
  unfold checkMstore8
  cases found : interpreter.stack[0]? with
  | none =>
    rw [operand_eq_zero found]
    exact .of_missing found nofun (MemAccess.not_wraps (.inl rfl)).1 two_pos
  | some top =>
    rw [operand_eq found]
    have compared : MemAccess.compare ⟨top.toNat, 1, true⟩ ranges =
        (ranges.any (·.contains (saturatingToU64 top)), false) := by
      apply containsBoth_zero
      simp only [u64Max]
      omega
    apply MemOutcome.Judges.of_compare
    · rw [compared]
      dsimp only
      split <;> rfl
    intro _
    rw [compared]
    dsimp only
    split
    · rename_i covered
      exact iff_of_true rfl covered
    · rename_i uncovered
      exact iff_of_false nofun uncovered

/-- A load below the end of the memory is not compared with the ranges. -/
theorem checkMload_judges : (checkMload ranges interpreter).Judges
    (interpreter.memory.length ≤ operand interpreter.stack 0 ∧
      MemAccess.Wraps ⟨operand interpreter.stack 0, 32, false⟩ ranges)
    (MemAccess.Covered ⟨operand interpreter.stack 0, 32, false⟩ ranges ∨
      operand interpreter.stack 0 < interpreter.memory.length)
    (1 ≤ interpreter.stack.length) := by
  unfold checkMload
  cases found : interpreter.stack[0]? with
  | none =>
    rw [operand_eq_zero found]
    exact .of_missing found nofun (fun wraps => (MemAccess.not_wraps (.inl rfl)).1 wraps.2) one_pos
  | some top =>
    rw [operand_eq found]
    have beyond : interpreter.memory.length ≤ saturatingToU64 top ↔
        interpreter.memory.length ≤ top.toNat := by
      have size := interpreter.fits
      simp only [saturatingToU64, u64Max]
      omega
    dsimp only
    by_cases outside : interpreter.memory.length ≤ top.toNat
    · rw [if_pos (beyond.mpr outside)]
      rw [and_iff_right outside]
      have judges := @MemOutcome.judges_ite (1 ≤ interpreter.stack.length)
        ⟨top.toNat, 32, false⟩ ranges (disallowedMemWrite (saturatingToU64 top) 32 ranges
          (containsBoth (saturatingToU64 top) 31 ranges).2) False (top.toNat <
            interpreter.memory.length) (or_iff_left id).symm
        fun _ _ => iff_of_false nofun (Nat.not_lt.mpr outside)
      rwa [or_iff_left fun further => further.2] at judges
    · rw [if_neg fun beyondEnd => outside (beyond.mp beyondEnd)]
      exact ⟨iff_of_false nofun fun wraps => outside wraps.1,
        fun _ _ => iff_of_true rfl (.inr (Nat.not_le.mp outside))⟩

/-- The exception for `stopExpectSafeMemory` never lets a call run as one that
was checked. -/
theorem exemptCall_spec (destOffset size : ℕ) (overflowed : Bool)
    (taken : 7 ≤ interpreter.stack.length) :
    ((exemptCall interpreter destOffset size ranges overflowed).overflowed = true ↔
      overflowed = true ∨ (interpreter.stack[1]?.getD 0).setWidth 160 = vmAddress ∧
        MemAccess.EndWraps
          ⟨operand interpreter.stack 3, operand interpreter.stack 4, false⟩) ∧
      (exemptCall interpreter destOffset size ranges overflowed).action ≠ .proceed := by
  have callee := getElem?_eq_getElem (by omega : 1 < interpreter.stack.length)
  have argsOffset := getElem?_eq_getElem (by omega : 3 < interpreter.stack.length)
  have argsSize := getElem?_eq_getElem (by omega : 4 < interpreter.stack.length)
  rw [operand_eq argsOffset, operand_eq argsSize]
  simp only [exemptCall, callee, argsOffset, argsSize, Option.getD_some, MemAccess.EndWraps]
  split
  · rename_i isVm
    have flag : (overflowed || decide (2 ^ 64 ≤ saturatingToU64 interpreter.stack[3] +
        saturatingToU64 interpreter.stack[4])) = true ↔ overflowed = true ∨
          interpreter.stack[1].setWidth 160 = vmAddress ∧
            2 ^ 64 ≤ saturatingToU64 interpreter.stack[3] +
              saturatingToU64 interpreter.stack[4] := by
      rw [Bool.or_eq_true, decide_eq_true_eq, and_iff_right isVm]
    split
    · exact ⟨flag, nofun⟩
    split <;> exact ⟨flag, nofun⟩
  · rename_i other
    simp only [other, false_and, or_false]
    exact ⟨Iff.rfl, nofun⟩

theorem checkCall_judges : (checkCall ranges interpreter).Judges
    (MemAccess.Wraps ⟨operand interpreter.stack 5, operand interpreter.stack 6, true⟩ ranges ∨
      ¬ MemAccess.Covered ⟨operand interpreter.stack 5, operand interpreter.stack 6, true⟩ ranges ∧
        7 ≤ interpreter.stack.length ∧
        (interpreter.stack[1]?.getD 0).setWidth 160 = vmAddress ∧
        MemAccess.EndWraps ⟨operand interpreter.stack 3, operand interpreter.stack 4, false⟩)
    (MemAccess.Covered ⟨operand interpreter.stack 5, operand interpreter.stack 6, true⟩ ranges ∨
      MemAccess.Inside ⟨operand interpreter.stack 5, operand interpreter.stack 6, true⟩
        interpreter.memory.length)
    (7 ≤ interpreter.stack.length) := by
  by_cases taken : 7 ≤ interpreter.stack.length
  · have foundOffset := getElem?_eq_getElem (by omega : 5 < interpreter.stack.length)
    have foundSize := getElem?_eq_getElem (by omega : 6 < interpreter.stack.length)
    rw [operand_eq foundOffset, operand_eq foundSize]
    simp only [checkCall, foundOffset, foundSize]
    obtain ⟨flag, refused⟩ := @exemptCall_spec ranges interpreter
      (saturatingToU64 interpreter.stack[5]) (saturatingToU64 interpreter.stack[6])
      (MemAccess.compare ⟨interpreter.stack[5].toNat, interpreter.stack[6].toNat, true⟩ ranges).2
      taken
    refine MemOutcome.judges_ite ⟨interpreter.stack[5].toNat, interpreter.stack[6].toNat, true⟩
      ranges ?_ fun _ _ => iff_of_false refused ?_
    · rw [and_iff_right taken]
      exact flag
    · rintro ⟨⟨⟩, _⟩
  · have missing := getElem?_eq_none_iff.mpr (by omega : interpreter.stack.length ≤ 6)
    have proceeds : checkCall ranges interpreter = .proceed := by
      unfold checkCall
      rw [missing]
      split
      · rename_i absurd
        cases absurd
      · rfl
    rw [proceeds, operand_eq_zero missing]
    refine ⟨iff_of_false nofun ?_, fun _ enough => absurd enough taken⟩
    rintro (wraps | further)
    · exact (MemAccess.not_wraps (.inr rfl)).1 wraps
    · exact taken further.2.1

/-- An instruction that only reads adds its size to its offset whenever no
range covers the region. -/
theorem checkOffsetSize_judges {offsetDepth sizeDepth : ℕ} {inputs : ℕ}
    (aligned : 32 ∣ interpreter.memory.length)
    (offsetTaken : offsetDepth < inputs) (sizeTaken : sizeDepth < inputs) (writes : Bool) :
    (checkOffsetSize ranges interpreter offsetDepth sizeDepth writes).Judges
      (MemAccess.Wraps ⟨operand interpreter.stack offsetDepth,
          operand interpreter.stack sizeDepth, writes⟩ ranges ∨
        ¬ MemAccess.Covered ⟨operand interpreter.stack offsetDepth,
          operand interpreter.stack sizeDepth, writes⟩ ranges ∧ writes = false ∧
        MemAccess.EndWraps ⟨operand interpreter.stack offsetDepth,
          operand interpreter.stack sizeDepth, writes⟩)
      (MemAccess.Covered ⟨operand interpreter.stack offsetDepth,
          operand interpreter.stack sizeDepth, writes⟩ ranges ∨
        MemAccess.Inside ⟨operand interpreter.stack offsetDepth,
          operand interpreter.stack sizeDepth, writes⟩ interpreter.memory.length)
      (inputs ≤ interpreter.stack.length) := by
  unfold checkOffsetSize
  split
  · rename_i offsetWord sizeWord foundOffset foundSize
    rw [operand_eq foundOffset, operand_eq foundSize]
    refine MemOutcome.judges_ite ⟨offsetWord.toNat, sizeWord.toNat, writes⟩ ranges ?_ ?_
    · cases writes with
      | true => exact (or_iff_left fun further => nomatch further.1).symm
      | false =>
        rw [if_neg Bool.false_ne_true, and_iff_right rfl]
        have flag : ((MemAccess.compare ⟨offsetWord.toNat, sizeWord.toNat, false⟩ ranges).2 ||
            decide (2 ^ 64 ≤ saturatingToU64 offsetWord + saturatingToU64 sizeWord)) = true ↔
              (MemAccess.compare ⟨offsetWord.toNat, sizeWord.toNat, false⟩ ranges).2 = true ∨
                MemAccess.EndWraps ⟨offsetWord.toNat, sizeWord.toNat, false⟩ := by
          rw [Bool.or_eq_true, decide_eq_true_eq]
          rfl
        split <;> exact flag
    · intro fits _
      cases writes with
      | true => exact iff_of_false nofun fun inside => nomatch inside.1
      | false =>
        rw [if_neg Bool.false_ne_true]
        rw [and_iff_right rfl] at fits
        have small : saturatingToU64 offsetWord + saturatingToU64 sizeWord < 2 ^ 64 :=
          Nat.not_le.mp fits
        have refuses : interpreter.memory.length ≤ saturatingToU64 offsetWord ∨
            interpreter.memory.length ≤
              (saturatingToU64 offsetWord + saturatingToU64 sizeWord) % 2 ^ 64 - 1 ↔
            ¬ (offsetWord.toNat < interpreter.memory.length ∧
              offsetWord.toNat + sizeWord.toNat ≤ interpreter.memory.length) := by
          obtain ⟨words, aligned⟩ := aligned
          have size := interpreter.fits
          rw [Nat.mod_eq_of_lt small]
          simp only [saturatingToU64, u64Max] at small ⊢
          omega
        split
        · rename_i refused
          exact iff_of_false nofun fun inside => refuses.mp refused inside.2
        · rename_i passed
          exact iff_of_true rfl ⟨rfl, not_not.mp fun outside => passed (refuses.mpr outside)⟩
  · rename_i missing
    have absent : operand interpreter.stack offsetDepth = 0 ∨
        operand interpreter.stack sizeDepth = 0 := by
      cases foundOffset : interpreter.stack[offsetDepth]? with
      | none => exact .inl (operand_eq_zero foundOffset)
      | some offsetWord =>
        cases foundSize : interpreter.stack[sizeDepth]? with
        | none => exact .inr (operand_eq_zero foundSize)
        | some sizeWord => exact (missing _ _ foundOffset foundSize).elim
    refine ⟨iff_of_false nofun ?_, fun _ taken => ?_⟩
    · rintro (wraps | further)
      · exact (MemAccess.not_wraps absent).1 wraps
      · exact (@MemAccess.not_wraps ⟨_, _, writes⟩ ranges absent).2 further.2.2
    · exact (missing _ _ (getElem?_eq_getElem (by omega : offsetDepth < _))
        (getElem?_eq_getElem (by omega : sizeDepth < _))).elim

end

variable {opcode : MemOpcode}

section

variable {offsetDepth sizeDepth : ℕ} {writes : Bool}
  (row : memOpcodeMatch opcode = some (offsetDepth, sizeDepth, writes))

include row

/-- The rows of the table are the regions that the instructions touch. -/
theorem memOpcodeMatch_checked (stack : List U256) :
    opcode.checked stack = [⟨operand stack offsetDepth, operand stack sizeDepth, writes⟩] ∧
      offsetDepth < opcode.inputs ∧ sizeDepth < opcode.inputs ∧ opcode ≠ .mload ∧
      opcode ≠ .call := by
  cases opcode with
  | log topics =>
    cases row
    refine ⟨rfl, by simp [MemOpcode.inputs], ?_, by simp, by simp⟩
    simp only [MemOpcode.inputs]
    omega
  | _ =>
    cases row
    try exact ⟨rfl, by decide, by decide, by decide, by decide⟩

theorem checkRanges_row (ranges : List MemRange) (interpreter : MemInterpreter) :
    checkRanges ranges interpreter opcode =
      checkOffsetSize ranges interpreter offsetDepth sizeDepth writes := by
  cases opcode <;> cases row <;> rfl

end

theorem MemOpcode.overflows_iff {interpreter : MemInterpreter} (region :
      opcode.checked interpreter.stack = [access]) (notLoad : opcode ≠ .mload)
    (notCall : opcode ≠ .call) :
    (opcode.Overflows ranges interpreter ↔ access.Wraps ranges ∨
        ¬ access.Covered ranges ∧ access.writes = false ∧ access.EndWraps) ∧
      (opcode.Accepts ranges interpreter ↔ access.Covered ranges ∨
        access.Inside interpreter.memory.length) := by
  constructor
  · simp only [Overflows, region, mem_singleton, exists_eq_left]
  · simp only [Accepts, region, mem_singleton, forall_eq]

theorem checkRanges_judges {interpreter : MemInterpreter}
    (aligned : 32 ∣ interpreter.memory.length) :
    (checkRanges ranges interpreter opcode).Judges (opcode.Overflows ranges interpreter)
      (opcode.Accepts ranges interpreter) (opcode.inputs ≤ interpreter.stack.length) := by
  cases row : memOpcodeMatch opcode with
  | some entry =>
    obtain ⟨offsetDepth, sizeDepth, writes⟩ := entry
    obtain ⟨region, offsetTaken, sizeTaken, notLoad, notCall⟩ :=
      memOpcodeMatch_checked row interpreter.stack
    obtain ⟨overflows, accepts⟩ := MemOpcode.overflows_iff region notLoad notCall
    rw [checkRanges_row row, overflows, accepts]
    exact checkOffsetSize_judges aligned offsetTaken sizeTaken writes
  | none =>
    cases opcode with
    | mstore =>
      obtain ⟨overflows, accepts⟩ := @MemOpcode.overflows_iff _ ranges .mstore interpreter rfl
        nofun nofun
      rw [overflows, accepts]
      exact checkMstore_judges.of_writes rfl
    | mstore8 =>
      obtain ⟨overflows, accepts⟩ := @MemOpcode.overflows_iff _ ranges .mstore8 interpreter rfl
        nofun nofun
      rw [overflows, accepts]
      exact checkMstore8_judges.of_writes rfl
    | mload =>
      simpa [checkRanges, MemOpcode.Overflows, MemOpcode.Accepts, MemOpcode.checked,
        MemOpcode.inputs] using @checkMload_judges ranges interpreter
    | call =>
      simpa [checkRanges, MemOpcode.Overflows, MemOpcode.Accepts, MemOpcode.checked,
        MemOpcode.unchecked, MemOpcode.inputs] using @checkCall_judges ranges interpreter
    | mcopy => exact ⟨iff_of_false nofun nofun, fun _ _ => iff_of_true rfl nofun⟩
    | other => exact ⟨iff_of_false nofun nofun, fun _ _ => iff_of_true rfl nofun⟩
    | _ => cases row

/-- An instruction that the check lets run writes only bytes of the allowed
ranges and expands the memory only by such bytes, and the check does not overflow,
exactly if the check can judge the instruction. -/
theorem checkMemOpcodes_safe_iff {allowed : AllowedMemWrites} {depth : ℕ}
    {ranges : List MemRange} {interpreter : MemInterpreter}
    {opcode : MemOpcode} (declared : allowed.lookup depth = some ranges)
    (aligned : 32 ∣ interpreter.memory.length) :
    ((checkMemOpcodes allowed depth interpreter opcode).overflowed = false ∧
      ((checkMemOpcodes allowed depth interpreter opcode).action = .proceed →
        ∀ access ∈ opcode.touched interpreter.stack,
          access.Safe ranges interpreter.memory.length)) ↔
      opcode.Checkable ranges interpreter := by
  simp only [checkMemOpcodes, declared]
  have judges := @checkRanges_judges ranges opcode interpreter aligned
  rw [← Bool.not_eq_true, judges.overflowed]
  constructor
  · rintro ⟨fits, safe⟩
    refine ⟨fits, fun taken accepts => ?_⟩
    have allSafe := safe ((judges.proceeds fits taken).mpr accepts)
    rw [MemOpcode.touched, if_neg (Nat.not_lt.mpr taken)] at allSafe
    refine ⟨fun access member => allSafe access (mem_append_right _ member),
      fun access member => ?_⟩
    have own := allSafe access (mem_append_left _ member)
    exact ⟨fun _ => own, fun covered => covered.size_lt interpreter.fits own⟩
  · rintro ⟨fits, judged⟩
    refine ⟨fits, fun proceeds access member => ?_⟩
    simp only [MemOpcode.touched] at member
    split at member
    · cases member
    rename_i enough
    have taken := Nat.not_lt.mp enough
    have accepts := (judges.proceeds fits taken).mp proceeds
    obtain ⟨unchecked, checked⟩ := judged taken accepts
    rcases mem_append.mp member with looked | missed
    · obtain ⟨load, small⟩ := checked access looked
      rcases accepts access looked with covered | inside
      · exact covered.safe (small covered) _
      · split at inside
        · exact load rfl
        · exact inside.safe ranges
    · exact unchecked access missed

/-- The scratch space and two words behind the free memory pointer. -/
def twoWords : List MemRange := [scratchSpace, ⟨0x80, 0xc0, by decide⟩]

def twoWordsAllowed : AllowedMemWrites := AList.insert 1 twoWords ∅

def eightWords (stack : List U256) : MemInterpreter where
  stack := stack
  memory := List.replicate 256 0
  fits := by
    rw [List.length_replicate]
    omega

theorem eightWords_length : (eightWords stack).memory.length = 256 := length_replicate

/-- A store into the first of the two words. -/
theorem checkMemOpcodes_safe_iff_mstore :
    MemOpcode.mstore.Checkable twoWords (eightWords [0x80, 7]) ∧
      (checkMemOpcodes twoWordsAllowed 1 (eightWords [0x80, 7]) .mstore).action = .proceed ∧
      (checkMemOpcodes twoWordsAllowed 1 (eightWords [0x80, 7]) .mstore).overflowed = false ∧
      ∀ access ∈ MemOpcode.mstore.touched [0x80, 7], access.Safe twoWords 256 := by
  have checkable : MemOpcode.mstore.Checkable twoWords (eightWords [0x80, 7]) := by
    obtain ⟨overflows, _⟩ := @MemOpcode.overflows_iff _ twoWords .mstore (eightWords [0x80, 7]) rfl
      nofun nofun
    refine ⟨?_, fun _ _ => ⟨nofun, ?_⟩⟩
    · rw [overflows]
      rintro (⟨_, wraps⟩ | ⟨_, reads, _⟩)
      · exact absurd wraps (by decide)
      · cases reads
    · intro access member
      rw [mem_singleton.mp member]
      exact ⟨nofun, fun _ => by decide⟩
  have aligned : 32 ∣ (eightWords [0x80, 7]).memory.length := by
    rw [eightWords_length]
    decide
  have proceeds : (checkMemOpcodes twoWordsAllowed 1
      (eightWords [0x80, 7]) .mstore).action = .proceed := by
    decide +kernel
  obtain ⟨noOverflow, safe⟩ := (checkMemOpcodes_safe_iff
    (rfl : twoWordsAllowed.lookup 1 = some twoWords) aligned).mpr checkable
  rw [eightWords_length] at safe
  exact ⟨checkable, proceeds, noOverflow, safe proceeds⟩

/-- Let through: a copy within the memory to a place that is not allowed, a
call whose arguments expand the memory, a load across the end of the memory,
and a hash whose end wraps around.  The last one also overflows, as does a
hash at the largest offset. -/
theorem checkMemOpcodes_lets_through : twoWordsAllowed.lookup 1 = some twoWords ∧
      ((checkMemOpcodes twoWordsAllowed 1 (eightWords [0x200, 0, 32]) .mcopy).action = .proceed ∧
        ∃ access ∈ MemOpcode.mcopy.touched [0x200, 0, 32], ¬ access.Safe twoWords 256) ∧
      ((checkMemOpcodes twoWordsAllowed 1
          (eightWords [0, 1, 0x200, 32, 0, 0]) .staticcall).action = .proceed ∧
        ∃ access ∈ MemOpcode.staticcall.touched [0, 1, 0x200, 32, 0, 0],
          ¬ access.Safe twoWords 256) ∧
      ((checkMemOpcodes twoWordsAllowed 1 (eightWords [0xf0]) .mload).action = .proceed ∧
        ∃ access ∈ MemOpcode.mload.touched [0xf0], ¬ access.Safe twoWords 256) ∧
      ((checkMemOpcodes twoWordsAllowed 1
          (eightWords [0xd0, 0xffffffffffffff31]) .keccak256).action = .proceed ∧
        (checkMemOpcodes twoWordsAllowed 1 (eightWords [0xd0, 0xffffffffffffff31])
          .keccak256).overflowed = true ∧
        ∃ access ∈ MemOpcode.keccak256.touched [0xd0, 0xffffffffffffff31],
          ¬ access.Safe twoWords 256) ∧
      (checkMemOpcodes twoWordsAllowed 1
        (eightWords [BitVec.allOnes 256, 1]) .keccak256).overflowed =
          true := by
  refine ⟨rfl, ⟨by decide +kernel, ?copy⟩, ⟨by decide +kernel, ?call⟩, ⟨by decide +kernel, ?load⟩,
    ⟨by decide +kernel, by decide +kernel, ?hash⟩, by decide +kernel⟩
  case copy =>
    refine ⟨_, .head _, fun safe => ?_⟩
    exact absurd (safe 0x200 (by decide) (by decide) (.inl rfl)) (by decide +kernel)
  case call =>
    refine ⟨_, .tail _ (.head _), fun safe => ?_⟩
    exact absurd (safe 0x200 (by decide) (by decide) (.inr (by decide))) (by decide +kernel)
  case load =>
    refine ⟨_, .head _, fun safe => ?_⟩
    exact absurd (safe 0x100 (by decide) (by decide) (.inr (by decide))) (by decide +kernel)
  case hash =>
    refine ⟨_, .head _, fun safe => ?_⟩
    exact absurd (safe 0x100 (by decide) (by decide) (.inr (by decide))) (by decide +kernel)

end SwissledgerFoundry.Cheatcodes
