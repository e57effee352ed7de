import SwissledgerFoundry.Primitives

/-!
# Mutators of integers

The fuzzer changes the integers of a call: by one, by noise, by a bit, or by
interesting bytes.  A changed value is kept only if it fits its type.  `bound`
draws a value of a range.  The random choices are arguments.
-/

namespace SwissledgerFoundry.Fuzz

open BitVec

def interesting8 : List ℤ := [-128, -1, 0, 1, 16, 32, 64, 100, 127]

def interesting16 : List ℤ :=
  interesting8 ++ [-32768, -129, 128, 255, 256, 512, 1000, 1024, 4096, 32767]

def interesting32 : List ℤ :=
  interesting16 ++ [-2147483648, -100663046, -32769, 32768, 65535, 65536, 100663045, 2147483647]

/-- The word with the given number of ones, `(U256::ONE << bits) - U256::ONE`. -/
def mask (bits : ℕ) : U256 := (1 : U256) <<< bits - 1

def validateUintMutation (original mutated : U256) (size : ℕ) : Option U256 :=
  if mutated = original then none
  else
    let max := if size < 256 then mask size else allOnes 256
    if mutated ≤ max then some mutated else none

def validateIntMutation (original mutated : I256) (size : ℕ) : Option I256 :=
  if mutated = original then none
  else
    let maxAbs := mask (size - 1)
    if if mutated.msb then (-maxAbs).slt mutated else mutated.slt maxAbs then some mutated
    else none

def flipRandomBitInSlice (choice : ℕ) (bytes : Bytes) : Option Bytes :=
  if bytes.isEmpty then none
  else
    let bitIndex := choice % (bytes.length * 8)
    some (bytes.modify (bitIndex / 8) (· ^^^ (1 <<< UInt8.ofNat (bitIndex % 8))))

/-- Writes one of the values over the bytes at a random place. -/
def mutateInteresting (width : ℕ) (values : List ℤ) (place choice : ℕ) (bytes : Bytes) :
    Option Bytes :=
  if bytes.length < width then none
  else do
    let index := place % (bytes.length - width + 1)
    let val ← values[choice % values.length]?
    some (bytes.take index ++ (leBytes width (val % 256 ^ width).toNat).reverse ++
      bytes.drop (index + width))

def mutateInterestingByteSlice := mutateInteresting 1 interesting8

def mutateInterestingWordSlice := mutateInteresting 2 interesting16

def mutateInterestingDwordSlice := mutateInteresting 4 interesting32

inductive Mutator where
  | incrementDecrement (increment : Bool)
  /-- The noise is a product with a floating-point number. -/
  | gaussianNoise (applyScaleToBytes : Bytes → Option Bytes)
  | flipRandomBit (choice : ℕ)
  | interestingByte (place choice : ℕ)
  | interestingWord (place choice : ℕ)
  | interestingDword (place choice : ℕ)

section

variable (validate : U256 → U256 → ℕ → Option U256) (value : U256) (size : ℕ)

/-- Changes the bytes of a value that its type has. -/
def mutateBytes
    (change : Bytes → Option Bytes) : Option U256 := do
  let bytes := (leBytes 32 value.toNat).reverse
  let changed ← change (bytes.drop (32 - size / 8))
  validate value (.ofNat 256 (beValue (bytes.take (32 - size / 8) ++ changed))) size

/-- The mutators of `U256` and `I256` differ in the validation. -/
def mutate : Mutator → Option U256
  | .incrementDecrement increment =>
    validate value (if increment then value + 1 else value - 1) size
  | .gaussianNoise applyScaleToBytes => mutateBytes validate value size applyScaleToBytes
  | .flipRandomBit choice => mutateBytes validate value size (flipRandomBitInSlice choice)
  | .interestingByte place choice =>
    mutateBytes validate value size (mutateInterestingByteSlice place choice)
  | .interestingWord place choice =>
    mutateBytes validate value size (mutateInterestingWordSlice place choice)
  | .interestingDword place choice =>
    mutateBytes validate value size (mutateInterestingDwordSlice place choice)

end

variable {value result : U256} {size : ℕ}

theorem mutate_validates {mutator : Mutator} {validate : U256 → U256 → ℕ → Option U256}
    (mutated : mutate validate value size mutator = some result) :
    ∃ candidate, validate value candidate size = some result := by
  have ofBytes : ∀ change, mutateBytes validate value size change = some result →
      ∃ candidate, validate value candidate size = some result := by
    intro change changed
    obtain ⟨_, _, validated⟩ := Option.bind_eq_some_iff.mp changed
    exact ⟨_, validated⟩
  cases mutator with
  | incrementDecrement increment => exact ⟨_, mutated⟩
  | _ => exact ofBytes _ mutated

variable {bits : ℕ}

theorem toNat_shift (small : bits < 256) : ((1 : U256) <<< bits).toNat = 2 ^ bits := by
  rw [toNat_shiftLeft, Nat.shiftLeft_eq]
  exact (congrArg (· % _) (Nat.one_mul _)).trans
    (Nat.mod_eq_of_lt (Nat.pow_lt_pow_right (by decide) small))

theorem usubOverflow_shift (small : bits ≤ 256) :
    ((1 : U256) <<< bits).usubOverflow 1 = decide (bits = 256) := by
  have one : (1 : U256).toNat = 1 := rfl
  rcases Nat.lt_or_eq_of_le small with smaller | rfl
  · have positive := Nat.two_pow_pos bits
    simp only [usubOverflow, toNat_shift smaller, one, decide_eq_decide]
    omega
  · decide

theorem toNat_mask (small : bits < 256) : (mask bits).toNat = 2 ^ bits - 1 := by
  rw [mask, toNat_sub_of_not_usubOverflow, toNat_shift small]
  · rfl
  · rw [usubOverflow_shift small.le, decide_eq_true_eq]
    exact small.ne

theorem toInt_mask (small : bits < 256) : (mask bits).toInt = 2 ^ bits - 1 := by
  have bound : 2 ^ bits ≤ 2 ^ 255 := Nat.pow_le_pow_right (by decide) (by omega)
  have positive := Nat.two_pow_pos bits
  rw [toInt_eq_toNat_cond, toNat_mask small, if_pos (by omega)]
  push_cast [positive]
  rfl

theorem validateUintMutation_eq_some {original mutated : U256} (small : size ≤ 256) :
    validateUintMutation original mutated size = some result ↔
      mutated ≠ original ∧ mutated.toNat < 2 ^ size ∧ mutated = result := by
  have fits : mutated ≤ (if size < 256 then mask size else allOnes 256) ↔
      mutated.toNat < 2 ^ size := by
    have positive := Nat.two_pow_pos size
    split
    · rename_i smaller
      rw [le_def, toNat_mask smaller]
      omega
    obtain rfl : size = 256 := by omega
    have bound := mutated.isLt
    rw [le_def, toNat_allOnes]
    omega
  simp only [validateUintMutation, fits]
  split_ifs <;> simp [*]

theorem validateIntMutation_eq_some {original mutated result : I256} (large : 8 ≤ size)
    (small : size ≤ 256) :
    validateIntMutation original mutated size = some result ↔
      mutated ≠ original ∧ (1 - 2 ^ (size - 1) < mutated.toInt ∧
        mutated.toInt < 2 ^ (size - 1) - 1) ∧ mutated = result := by
  have max := toInt_mask (show size - 1 < 256 by omega)
  have wide : (2 : ℤ) ^ 1 ≤ 2 ^ (size - 1) := by
    exact_mod_cast Nat.pow_le_pow_right two_pos (show 1 ≤ size - 1 by omega)
  have min : (-mask (size - 1)).toInt = 1 - 2 ^ (size - 1) := by
    rw [toInt_neg_of_ne_intMin, max, Int.neg_sub]
    intro same
    rw [same] at max
    rw [show (intMin 256).toInt = -2 ^ 255 by decide] at max
    omega
  have fits : (if mutated.toInt < 0 then (-mask (size - 1)).slt mutated
      else mutated.slt (mask (size - 1))) = true ↔
        1 - 2 ^ (size - 1) < mutated.toInt ∧ mutated.toInt < 2 ^ (size - 1) - 1 := by
    split
    · rw [slt_iff_toInt_lt, min]
      omega
    · rw [slt_iff_toInt_lt, max]
      omega
  simp only [validateIntMutation, msb_eq_toInt, decide_eq_true_eq, fits]
  split_ifs <;> simp [*]

/-- A mutated integer fits its type and is not the old one.  The validation
refuses no other integer of an unsigned type, and of a signed type only the
largest and the two smallest ones. -/
theorem mutate_fits (size : ℕ) (large : 8 ≤ size) (small : size ≤ 256) (original : U256)
    (mutator : Mutator) :
    (∀ result, mutate validateUintMutation original size mutator = some result →
      result ≠ original ∧ result.toNat < 2 ^ size) ∧
    (∀ result, mutate validateIntMutation original size mutator = some result →
      result ≠ original ∧ -2 ^ (size - 1) ≤ result.toInt ∧ result.toInt ≤ 2 ^ (size - 1) - 1) ∧
    (∀ candidate, candidate ≠ original → candidate.toNat < 2 ^ size →
      validateUintMutation original candidate size = some candidate) ∧
    (∀ candidate, candidate ≠ original → 1 - 2 ^ (size - 1) < candidate.toInt →
      candidate.toInt < 2 ^ (size - 1) - 1 →
      validateIntMutation original candidate size = some candidate) := by
  refine ⟨?_, ?_, ?_, ?_⟩
  · intro result mutated
    obtain ⟨candidate, validated⟩ := mutate_validates mutated
    obtain ⟨changed, fits, rfl⟩ := (validateUintMutation_eq_some small).mp validated
    exact ⟨changed, fits⟩
  · intro result mutated
    obtain ⟨candidate, validated⟩ := mutate_validates mutated
    obtain ⟨changed, ⟨above, below⟩, rfl⟩ := (validateIntMutation_eq_some large small).mp validated
    exact ⟨changed, by omega, by omega⟩
  · intro candidate changed fits
    exact (validateUintMutation_eq_some small).mpr ⟨changed, fits, rfl⟩
  · intro candidate changed above below
    exact (validateIntMutation_eq_some large small).mpr ⟨changed, ⟨above, below⟩, rfl⟩

theorem mutate_fits_increment : mutate validateIntMutation 5 8 (.incrementDecrement true) = some 6 ∧
      (6 : I256).toInt ≤ 2 ^ 7 - 1 :=
  ⟨by decide, ((mutate_fits 8 (by decide) (by decide) 5 (.incrementDecrement true)).2.1 6
    (by decide)).2.2⟩

/-- The ends of the range of `int8` are refused. -/
theorem validateIntMutation_refuses_ends :
    validateIntMutation 0 127 8 = none ∧ validateIntMutation 0 (-128) 8 = none ∧
      validateIntMutation 0 (-127) 8 = none := by
  decide

/-- A draw of `bound`: the number of bits and the random word. -/
abbrev Draw := ℕ × BitVec 128

def Draw.masked (draw : Draw) : U256 := draw.2.setWidth 256 &&& mask draw.1

/-- The loop of `bound` ends with the first candidate that is not the value. -/
def boundWith (outside : Bool) (candidate : Draw → U256) (value : U256) (draws : List Draw) :
    Option (Option U256) :=
  if outside then some none else ((draws.map candidate).find? (· ≠ value)).map some

namespace U256

def candidate (min max : U256) (draw : Draw) : U256 :=
  min + draw.masked % (max - min).saturatingAdd 1

def bound (value min max : U256) (draws : List Draw) : Option (Option U256) :=
  boundWith (max < min ∨ value < min ∨ max < value ∨ min = max) (candidate min max) value draws

end U256

namespace I256

def saturate (exact : ℤ) : I256 := .ofInt 256 (max (-2 ^ 255) (min exact (2 ^ 255 - 1)))

def unsignedAbs (value : I256) : U256 := if value.msb then -value else value

def range (min max : I256) : U256 :=
  unsignedAbs (saturate ((saturate (max.toInt - min.toInt)).toInt + 1))

def signedCandidate (draw : Draw) : I256 :=
  if draw.masked < (1 : U256) <<< (draw.1 - 1) then draw.masked
  else draw.masked - (1 : U256) <<< draw.1

section

variable (min max : I256) (draw : Draw)

def wrapped : I256 :=
  unsignedAbs (signedCandidate draw) % range min max

def candidate : I256 :=
  if (signedCandidate draw).msb then max - wrapped min max draw else min + wrapped min max draw

end

def bound (value min max : I256) (draws : List Draw) : Option (Option I256) :=
  boundWith (max.slt min ∨ value.slt min ∨ max.slt value ∨ min = max) (candidate min max) value
    draws

end I256

variable {outside : Bool} {draws : List Draw}

theorem boundWith_eq_some {candidate : Draw → U256}
    (returned : boundWith outside candidate value draws = some (some result)) :
    outside = false ∧ result ≠ value ∧ ∃ draw, candidate draw = result := by
  unfold boundWith at returned
  split at returned
  · cases returned
  rename_i inside
  obtain ⟨_, found, same⟩ := Option.map_eq_some_iff.mp returned
  cases same
  obtain ⟨draw, _, same⟩ := List.mem_map.mp (List.mem_of_find?_eq_some found)
  exact ⟨by simpa using inside, by simpa using List.find?_some found, draw, same⟩

theorem boundWith_eq_none {candidate : Draw → U256} :
    boundWith outside candidate value draws = some none ↔ outside = true := by
  unfold boundWith
  split <;> simp [*]

theorem candidate_eq_of_boundWith {candidate : Draw → U256}
    (goesOn : boundWith outside candidate value draws = none) :
    ∀ draw ∈ draws, candidate draw = value := by
  unfold boundWith at goesOn
  split at goesOn
  · cases goesOn
  · simpa using goesOn

theorem U256.candidate_bounds {min max : U256} (ordered : min < max) (draw : Draw) :
    min.uaddOverflow (draw.masked % (max - min).saturatingAdd 1) = false ∧
      min ≤ candidate min max draw ∧ candidate min max draw ≤ max := by
  have difference := toNat_sub_of_le (BitVec.le_of_lt ordered)
  have one : (1 : U256).toNat = 1 := rfl
  rw [lt_def] at ordered
  have narrow : 0 < ((max - min).saturatingAdd 1).toNat ∧
      ((max - min).saturatingAdd 1).toNat ≤ max.toNat - min.toNat + 1 := by
    unfold SwissledgerFoundry.U256.saturatingAdd
    split
    · rw [toNat_add_of_not_uaddOverflow, difference]
      · omega
      · simp only [uaddOverflow, decide_eq_true_eq]
        omega
    · rw [toNat_allOnes]
      omega
  have small := Nat.mod_lt draw.masked.toNat narrow.1
  rw [← toNat_umod] at small
  have fits : ¬min.uaddOverflow (draw.masked % (max - min).saturatingAdd 1) := by
    simp only [uaddOverflow, decide_eq_true_eq]
    omega
  rw [le_def, le_def, candidate, toNat_add_of_not_uaddOverflow fits]
  exact ⟨by simpa using fits, by omega, by omega⟩

namespace I256

theorem toInt_saturate {exact : ℤ} :
    (saturate exact).toInt = max (-2 ^ 255) (min exact (2 ^ 255 - 1)) := by
  rw [saturate, toInt_ofInt, Int.bmod_def]
  omega

variable {min max : I256}

theorem range_bounds (ordered : min.toInt < max.toInt) :
    0 < (range min max).toNat ∧ (range min max).toNat < 2 ^ 255 ∧
      (range min max).toNat ≤ max.toInt - min.toInt + 1 := by
  have value : (saturate ((saturate (max.toInt - min.toInt)).toInt + 1)).toInt =
      Min.min (max.toInt - min.toInt + 1) (2 ^ 255 - 1) := by
    rw [toInt_saturate, toInt_saturate]
    omega
  unfold range
  generalize saturate ((saturate (max.toInt - min.toInt)).toInt + 1) = width at value ⊢
  have positive : width.msb = false := by
    rw [msb_eq_toInt, decide_eq_false_iff_not]
    omega
  rw [toInt_eq_toNat_of_msb positive] at value
  simp only [unsignedAbs, positive, Bool.false_eq_true, if_false]
  omega

/-- A random word has 128 bits, so only a small power of two is subtracted. -/
theorem signedCandidate_bounds (draw : Draw) (least : 8 ≤ draw.1) (greatest : draw.1 ≤ 255) :
    ((1 : U256) <<< (draw.1 - 1) ≤ draw.masked →
      draw.masked.ssubOverflow ((1 : U256) <<< draw.1) = false) ∧
    (signedCandidate draw).negOverflow = false := by
  have word : draw.masked.toNat < 2 ^ 128 := by
    rw [Draw.masked, toNat_and]
    apply Nat.lt_of_le_of_lt Nat.and_le_left
    rw [toNat_setWidth_of_le (by decide)]
    exact draw.2.isLt
  have signed : draw.masked.toInt = draw.masked.toNat := by
    rw [toInt_eq_toNat_cond, if_pos (by omega)]
  have fits : (1 : U256) <<< (draw.1 - 1) ≤ draw.masked →
      ¬draw.masked.ssubOverflow ((1 : U256) <<< draw.1) ∧
        -2 ^ 128 ≤ (draw.masked - (1 : U256) <<< draw.1).toInt := by
    intro upper
    rw [le_def, toNat_shift (by omega)] at upper
    have few : draw.1 - 1 < 128 :=
      (Nat.pow_lt_pow_iff_right (by decide)).mp (Nat.lt_of_le_of_lt upper word)
    have small : 2 ^ draw.1 ≤ 2 ^ 128 := Nat.pow_le_pow_right (by decide) (by omega)
    have power : ((1 : U256) <<< draw.1).toInt = (2 ^ draw.1 : ℕ) := by
      rw [toInt_eq_toNat_cond, toNat_shift (by omega), if_pos (by omega)]
    have positive := Int.natCast_nonneg (2 ^ draw.1)
    have fits : ¬draw.masked.ssubOverflow ((1 : U256) <<< draw.1) := by
      simp only [ssubOverflow, Bool.or_eq_true, decide_eq_true_eq]
      omega
    rw [toInt_sub_of_not_ssubOverflow fits]
    exact ⟨fits, by omega⟩
  constructor
  · intro upper
    simpa using (fits upper).1
  simp only [negOverflow, beq_eq_false_iff_ne, signedCandidate]
  split
  · omega
  rename_i lower
  have large := (fits (BitVec.not_lt.mp lower)).2
  omega

theorem candidate_bounds (ordered : min.toInt < max.toInt) (draw : Draw) :
    (if (signedCandidate draw).msb then max.ssubOverflow (wrapped min max draw)
      else min.saddOverflow (wrapped min max draw)) = false ∧
      min.toInt ≤ (candidate min max draw).toInt ∧ (candidate min max draw).toInt ≤ max.toInt := by
  obtain ⟨positive, small, narrow⟩ := range_bounds ordered
  have least := min.le_toInt
  have greatest := max.toInt_lt
  have wraps := Nat.mod_lt (unsignedAbs (signedCandidate draw)).toNat positive
  rw [← toNat_umod] at wraps
  change (wrapped min max draw).toNat < _ at wraps
  have signed : (wrapped min max draw).toInt = (wrapped min max draw).toNat := by
    rw [toInt_eq_toNat_cond, if_pos (by omega)]
  unfold candidate
  split
  · have fits : ¬max.ssubOverflow (wrapped min max draw) := by
      simp only [ssubOverflow, Bool.or_eq_true, decide_eq_true_eq]
      omega
    rw [toInt_sub_of_not_ssubOverflow fits]
    exact ⟨by simpa using fits, by omega, by omega⟩
  have fits : ¬min.saddOverflow (wrapped min max draw) := by
    simp only [saddOverflow, Bool.or_eq_true, decide_eq_true_eq]
    omega
  rw [toInt_add_of_not_saddOverflow fits]
  exact ⟨by simpa using fits, by omega, by omega⟩

end I256

/-- `bound` gives up exactly on an empty range and on a value outside of it,
and goes on only as long as all candidates are the value.  What it returns is
another value of the range, and no operation overflows but the subtraction in
the mask of all 256 bits. -/
theorem bound_within (value min max : U256) (draws : List Draw) :
    (U256.bound value min max draws = some none ↔ max ≤ min ∨ value < min ∨ max < value) ∧
    (I256.bound value min max draws = some none ↔
      max.toInt ≤ min.toInt ∨ value.toInt < min.toInt ∨ max.toInt < value.toInt) ∧
    (U256.bound value min max draws = none → ∀ draw ∈ draws, U256.candidate min max draw = value) ∧
    (I256.bound value min max draws = none → ∀ draw ∈ draws, I256.candidate min max draw = value) ∧
    (∀ result, U256.bound value min max draws = some (some result) →
      (min ≤ result ∧ result ≤ max) ∧ result ≠ value) ∧
    (∀ result, I256.bound value min max draws = some (some result) →
      (min.toInt ≤ result.toInt ∧ result.toInt ≤ max.toInt) ∧ result ≠ value) ∧
    (∀ draw : Draw, draw.1 ≤ 256 → min < max →
      ((1 : U256) <<< draw.1).usubOverflow 1 = decide (draw.1 = 256) ∧
      max.usubOverflow min = false ∧
      min.uaddOverflow (draw.masked % (max - min).saturatingAdd 1) = false) ∧
    (∀ draw : Draw, 8 ≤ draw.1 → draw.1 ≤ 255 → min.toInt < max.toInt →
      ((1 : U256) <<< draw.1).usubOverflow 1 = false ∧
      ((1 : U256) <<< (draw.1 - 1) ≤ draw.masked →
        draw.masked.ssubOverflow ((1 : U256) <<< draw.1) = false) ∧
      (I256.signedCandidate draw).negOverflow = false ∧
      (if (I256.signedCandidate draw).msb then max.ssubOverflow (I256.wrapped min max draw)
        else min.saddOverflow (I256.wrapped min max draw)) = false) := by
  refine ⟨?_, ?_, candidate_eq_of_boundWith, candidate_eq_of_boundWith, ?_, ?_, ?_, ?_⟩
  · rw [U256.bound, boundWith_eq_none, decide_eq_true_eq]
    bv_omega
  · rw [I256.bound, boundWith_eq_none, decide_eq_true_eq]
    simp only [slt_iff_toInt_lt, ← toInt_inj]
    omega
  · intro result returned
    obtain ⟨inside, changed, draw, rfl⟩ := boundWith_eq_some returned
    have ordered : min < max := by
      rw [decide_eq_false_iff_not] at inside
      bv_omega
    exact ⟨(U256.candidate_bounds ordered draw).2, changed⟩
  · intro result returned
    obtain ⟨inside, changed, draw, rfl⟩ := boundWith_eq_some returned
    have ordered : min.toInt < max.toInt := by
      simp only [decide_eq_false_iff_not, slt_iff_toInt_lt, ← toInt_inj] at inside
      omega
    exact ⟨(I256.candidate_bounds ordered draw).2, changed⟩
  · intro draw few ordered
    refine ⟨usubOverflow_shift few, ?_, (U256.candidate_bounds ordered draw).1⟩
    simpa [usubOverflow] using Nat.le_of_lt ordered
  intro draw least greatest ordered
  obtain ⟨fits, magnitude⟩ := I256.signedCandidate_bounds draw least greatest
  refine ⟨?_, fits, magnitude, (I256.candidate_bounds ordered draw).1⟩
  rw [usubOverflow_shift (by omega), decide_eq_false_iff_not]
  omega

theorem bound_within_signed :
    I256.bound 3 (-5) 10 [(8, 0xff)] = some (some 9) ∧ (9 : I256).toInt ≤ (10 : I256).toInt :=
  ⟨by decide, ((bound_within 3 (-5) 10 [(8, 0xff)]).2.2.2.2.2.1 9 (by decide)).1.2⟩

/-- The mask of all bits is the result of a subtraction that wraps. -/
theorem mask_wraps : ((1 : U256) <<< 256).usubOverflow 1 = true ∧ mask 256 = allOnes 256 := by
  decide

end SwissledgerFoundry.Fuzz
