import SwissledgerFoundry.Collections.Iteration
import SwissledgerFoundry.Evm.Bytecode

/-!
# Instruction counters

The debugger numbers the instructions of a code and goes back and forth between
those numbers and the program counters.
-/

namespace SwissledgerFoundry.Evm

open List UInt32

def u32Max : ℕ := 2 ^ 32 - 1

/-- `make_map`, which refuses a code that is too long for its counters. -/
def makeMap (pcFirst : Bool) (code : Bytes) : Option (HashMap UInt32 UInt32) :=
  if code.length ≤ u32Max then
    some (AList.extend ∅ ((withPc 0 (immediates code)).zipIdx.map fun (pc, ic) =>
      if pcFirst then ⟨.ofNat pc, .ofNat ic⟩ else ⟨.ofNat ic, .ofNat pc⟩))
  else none

def PcIcMap.new (code : Bytes) : Option (HashMap UInt32 UInt32) := makeMap true code

def IcPcMap.new (code : Bytes) : Option (HashMap UInt32 UInt32) := makeMap false code

variable {code : Bytes} {pc ic : ℕ}

/-- The instruction with a number starts at a program counter. -/
def Numbered (code : Bytes) (pc ic : ℕ) : Prop := (withPc 0 (immediates code))[ic]? = some pc

theorem Numbered.lt (numbered : Numbered code pc ic) (fits : code.length ≤ u32Max) :
    pc < size ∧ ic < size := by
  have before := (mem_withPc_immediates.mp (mem_of_getElem? numbered)).lt_length
  have counted := le_of_withPc numbered
  simp only [u32Max, size] at fits ⊢
  omega

theorem Numbered.increasing {otherPc otherIc : ℕ} (numbered : Numbered code pc ic)
    (other : Numbered code otherPc otherIc) (before : ic < otherIc) : pc < otherPc := by
  obtain ⟨counted, rfl⟩ := List.getElem?_eq_some_iff.mp numbered
  obtain ⟨otherCounted, rfl⟩ := List.getElem?_eq_some_iff.mp other
  exact pairwise_iff_getElem.mp (withPc_increasing 0 _) _ _ counted otherCounted before

theorem ofNat_ne {n m : ℕ} (left : n < size) (right : m < size) (before : n < m) :
    ofNat n ≠ ofNat m := by
  intro same
  have equal := congrArg toNat same
  rw [toNat_ofNat_of_lt' left, toNat_ofNat_of_lt' right] at equal
  omega

/-- Either map holds the numbered program counters. -/
theorem lookup_makeMap (fits : code.length ≤ u32Max) (pcFirst : Bool) :
    ∃ map, makeMap pcFirst code = some map ∧ ∀ pc ic : UInt32,
      map.lookup (if pcFirst then pc else ic) = some (if pcFirst then ic else pc) ↔
        Numbered code pc.toNat ic.toNat := by
  have nodup : ((withPc 0 (immediates code)).zipIdx.map fun (pc, ic) =>
      if pcFirst then (⟨.ofNat pc, .ofNat ic⟩ : Σ _ : UInt32, UInt32)
      else ⟨.ofNat ic, .ofNat pc⟩).NodupKeys := by
    rw [nodupKeys_iff_pairwise, pairwise_map, pairwise_iff_getElem]
    intro i j iLt jLt before
    simp only [length_zipIdx] at iLt jLt
    have left : Numbered code _ i := getElem?_eq_getElem iLt
    have right : Numbered code _ j := getElem?_eq_getElem jLt
    cases pcFirst with
    | true => simpa using ofNat_ne (left.lt fits).1 (right.lt fits).1 (left.increasing right before)
    | false => simpa using ofNat_ne (left.lt fits).2 (right.lt fits).2 before
  refine ⟨_, if_pos fits, fun pc ic => ?_⟩
  rw [AList.lookup_extend nodup, AList.lookup_empty, Option.or_none, ← Option.mem_def,
    mem_dlookup_iff nodup, mem_map]
  constructor
  · rintro ⟨⟨start, number⟩, member, same⟩
    have numbered : Numbered code start number := mem_zipIdx_iff_getElem?.mp member
    obtain ⟨rfl, rfl⟩ : .ofNat start = pc ∧ .ofNat number = ic := by cases pcFirst <;> simp_all
    rw [toNat_ofNat_of_lt' (numbered.lt fits).1, toNat_ofNat_of_lt' (numbered.lt fits).2]
    exact numbered
  intro numbered
  refine ⟨(pc.toNat, ic.toNat), mem_zipIdx_iff_getElem?.mpr numbered, ?_⟩
  cases pcFirst <;> simp

/-- The two maps are each other's inverse, the instructions are numbered
without gaps in the order of the code, and they are those of its decoding. -/
theorem counters_inverse (code : Bytes) (fits : code.length ≤ u32Max) :
    ∃ byPc byIc, PcIcMap.new code = some byPc ∧ IcPcMap.new code = some byIc ∧
      (∀ pc ic, byPc.lookup pc = some ic ↔ byIc.lookup ic = some pc) ∧
      (∃ count, ∀ ic, ic ∈ byIc ↔ ic.toNat < count) ∧
      (∀ ic pc ic' pc', byIc.lookup ic = some pc → byIc.lookup ic' = some pc' →
        ic < ic' → pc < pc') ∧
      ∀ pc, Starts code pc ↔ ∃ counter ∈ byPc, counter.toNat = pc := by
  obtain ⟨byPc, byPcNew, inByPc⟩ := lookup_makeMap fits true
  obtain ⟨byIc, byIcNew, inByIc⟩ := lookup_makeMap fits false
  change ∀ pc ic, byPc.lookup pc = some ic ↔ _ at inByPc
  change ∀ pc ic, byIc.lookup ic = some pc ↔ _ at inByIc
  refine ⟨byPc, byIc, byPcNew, byIcNew, ?_, ?_, ?_, ?_⟩
  · intro pc ic
    rw [inByPc, inByIc]
  · refine ⟨(withPc 0 (immediates code)).length, fun ic => ?_⟩
    simp only [AList.mem_iff_exists_lookup, inByIc]
    constructor
    · rintro ⟨pc, numbered⟩
      exact (List.getElem?_eq_some_iff.mp numbered).1
    intro counted
    have numbered : Numbered code _ ic.toNat := getElem?_eq_getElem counted
    rw [← toNat_ofNat_of_lt' (numbered.lt fits).1] at numbered
    exact ⟨_, numbered⟩
  · intro ic pc ic' pc' found found' before
    exact ((inByIc pc ic).mp found).increasing ((inByIc pc' ic').mp found') before
  intro pc
  simp only [← mem_withPc_immediates, AList.mem_iff_exists_lookup, inByPc]
  constructor
  · intro member
    obtain ⟨ic, numbered⟩ := mem_iff_getElem?.mp member
    obtain ⟨pcLt, icLt⟩ := Numbered.lt numbered fits
    refine ⟨.ofNat pc, ⟨.ofNat ic, ?_⟩, toNat_ofNat_of_lt' pcLt⟩
    rw [toNat_ofNat_of_lt' pcLt, toNat_ofNat_of_lt' icLt]
    exact numbered
  · rintro ⟨counter, ⟨ic, numbered⟩, rfl⟩
    exact mem_of_getElem? numbered

theorem counters_inverse_cutOff : ∃ byPc, PcIcMap.new [0x5b, 0x61, 0x69] = some byPc ∧
      ∀ pc, Starts [0x5b, 0x61, 0x69] pc ↔ ∃ counter ∈ byPc, counter.toNat = pc := by
  obtain ⟨byPc, _, byPcNew, _, _, _, _, starts⟩ := counters_inverse [0x5b, 0x61, 0x69] (by decide)
  exact ⟨byPc, byPcNew, starts⟩

end SwissledgerFoundry.Evm
