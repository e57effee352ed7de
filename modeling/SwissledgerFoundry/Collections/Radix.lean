import Mathlib.Algebra.Order.Ring.Nat
import Mathlib.Data.List.Basic

/-!
# Numerals

The value of a string of digits, most significant first, and a reader that
stops at the first value that is too large.  A string that is built from parts
with a separator between them determines its parts if none holds the separator.
-/

variable {number : ℕ}

namespace Nat

open List

/-- Induction over the digits of a number, most significant first. -/
theorem toDigits_induction {base : ℕ} (atLeast : 1 < base) {motive : ℕ → List Char → Prop}
    (digit : ∀ number < base, motive number [number.digitChar])
    (more : ∀ number, base ≤ number → motive (number / base) (Nat.toDigits base (number / base)) →
      motive number (Nat.toDigits base (number / base) ++ [(number % base).digitChar])) :
    motive number (Nat.toDigits base number) := by
  induction number using Nat.strong_induction_on with
  | h number ih =>
    rw [Nat.toDigits_eq_if atLeast]
    split
    · next small => exact digit number small
    · rename_i large
      exact more number (by omega) (ih _ (Nat.div_lt_self (by omega) atLeast))

theorem notMem_toDigits {base : ℕ} (atLeast : 1 < base) {char : Char}
    (noDigit : ∀ digit : ℕ, digit.digitChar ≠ char) :
    char ∉ Nat.toDigits base number := by
  apply toDigits_induction (motive := fun _ digits => char ∉ digits) atLeast
  · intro number _ member
    exact noDigit number (mem_singleton.mp member).symm
  intro number _ absent member
  rcases mem_append.mp member with front | last
  · exact absent front
  · exact noDigit _ (mem_singleton.mp last).symm

end Nat

namespace List

variable {Elem : Type*}

/-- A list is determined by what stands around its last separator. -/
theorem append_cons_inj_of_notMem_right {separator : Elem} {front front' back back' : List Elem}
    (free : separator ∉ back) (free' : separator ∉ back')
    (same : front ++ separator :: back = front' ++ separator :: back') :
    front = front' ∧ back = back' := by
  rcases append_eq_append_iff.mp same with ⟨middle, rfl, rest⟩ | ⟨middle, rfl, rest⟩
  · cases middle with
    | nil => exact ⟨(append_nil front).symm, (cons.inj rest).2⟩
    | cons first middle =>
      rw [cons_append, cons.injEq] at rest
      exact absurd (rest.2 ▸ mem_append_right _ mem_cons_self) free
  cases middle with
  | nil => exact ⟨append_nil front', (cons.inj rest).2.symm⟩
  | cons first middle =>
    rw [cons_append, cons.injEq] at rest
    exact absurd (rest.2 ▸ mem_append_right _ mem_cons_self) free'

theorem intercalate_cons_eq_flatMap {separator : Elem} {rest : List (List Elem)}
    (first : List Elem) :
    [separator].intercalate (first :: rest) = first ++ rest.flatMap (separator :: ·) := by
  induction rest generalizing first with
  | nil => simp [intercalate]
  | cons next rest ih =>
    have shorter := ih next
    simp only [intercalate, intersperse_cons_cons, flatten_cons, flatMap_cons] at shorter ⊢
    simp [shorter]

/-- Parts without the separator are determined by their joined string. -/
theorem append_flatMap_inj {first : List Elem} {separator : Elem} {first' : List Elem}
    [DecidableEq Elem] {rest rest' : List (List Elem)}
    (free : ∀ part ∈ first :: rest, separator ∉ part)
    (free' : ∀ part ∈ first' :: rest', separator ∉ part)
    (same : first ++ rest.flatMap (separator :: ·) = first' ++ rest'.flatMap (separator :: ·)) :
    first = first' ∧ rest = rest' := by
  rw [← intercalate_cons_eq_flatMap, ← intercalate_cons_eq_flatMap] at same
  have parts := congrArg (splitOn separator) same
  rw [splitOn_intercalate separator free (cons_ne_nil _ _),
    splitOn_intercalate separator free' (cons_ne_nil _ _)] at parts
  exact cons.inj parts

end List

namespace Radix

/-- The value of a digit or letter, which may be too large for the base. -/
def digitValue (char : Char) : Option ℕ :=
  if '0' ≤ char ∧ char ≤ '9' then some (char.toNat - '0'.toNat)
  else if 'a' ≤ char ∧ char ≤ 'z' then some (char.toNat - 'a'.toNat + 10)
  else if 'A' ≤ char ∧ char ≤ 'Z' then some (char.toNat - 'A'.toNat + 10)
  else none

def digit (base : ℕ) (char : Char) : Option ℕ := (digitValue char).filter (· < base)

/-- All characters are digits of the base. -/
def Valid (base : ℕ) (chars : List Char) : Prop := ∀ char ∈ chars, (digit base char).isSome

instance (base : ℕ) (chars : List Char) : Decidable (Valid base chars) := List.decidableBAll _ _

/-- The value after more digits. -/
def valueFrom (base start : ℕ) (chars : List Char) : ℕ :=
  chars.foldl (fun value char => value * base + (digit base char).getD 0) start

def value (base : ℕ) (chars : List Char) : ℕ := valueFrom base 0 chars

inductive ReadError where
  | empty
  | invalidDigit
  | overflow
deriving DecidableEq

/-- Reads digits as long as the value stays below the limit. -/
def readFrom (limit base : ℕ) : ℕ → List Char → Except ReadError ℕ
  | value, [] => .ok value
  | value, char :: chars =>
    match digit base char with
    | none => .error .invalidDigit
    | some next =>
      if value * base + next < limit then
        readFrom limit base (value * base + next) chars
      else .error .overflow

variable {base : ℕ}

theorem le_valueFrom (positive : 0 < base) (start : ℕ)
    (chars : List Char) : start ≤ valueFrom base start chars := by
  induction chars generalizing start with
  | nil => exact le_rfl
  | cons char chars ih =>
    have here : start ≤ start * base + (digit base char).getD 0 :=
      (Nat.le_mul_of_pos_right start positive).trans (Nat.le_add_right _ _)
    exact here.trans (ih _)

theorem valueFrom_strictMono (positive : 0 < base) (chars : List Char) :
    StrictMono fun start => valueFrom base start chars := by
  induction chars with
  | nil => exact strictMono_id
  | cons char chars ih =>
    intro start larger less
    exact ih (Nat.add_lt_add_right (Nat.mul_lt_mul_of_pos_right less positive) _)

/-- Valid digits are read exactly, or the value is too large. -/
theorem readFrom_valid {chars : List Char} {start limit : ℕ} (positive : 0 < base)
    (valid : Valid base chars) (small : start < limit) :
    readFrom limit base start chars =
      if valueFrom base start chars < limit then
        .ok (valueFrom base start chars)
      else .error .overflow := by
  induction chars generalizing start with
  | nil => exact (if_pos small).symm
  | cons char chars ih =>
    obtain ⟨next, found⟩ := Option.isSome_iff_exists.mp (valid char List.mem_cons_self)
    have rest : Valid base chars := fun other member =>
      valid other (List.mem_cons_of_mem char member)
    have value : valueFrom base start (char :: chars) =
        valueFrom base (start * base + next) chars := by
      simp [valueFrom, found]
    rw [value]
    simp only [readFrom, found]
    split
    · next fits => exact ih rest fits
    rename_i large
    have grows := le_valueFrom positive (start * base + next) chars
    rw [if_neg (by omega)]

theorem value_append_singleton {chars : List Char} {char : Char} :
    value base (chars ++ [char]) = value base chars * base + (digit base char).getD 0 := by
  simp [value, valueFrom, List.foldl_append]

theorem digit_digitChar {base number : ℕ} (atMost : base ≤ 16)
    (small : number < base) : digit base number.digitChar = some number := by
  have all : ∀ number < 16, digitValue number.digitChar = some number := by decide
  rw [digit, all number (by omega), Option.filter_some, decide_eq_true small, if_pos rfl]

variable {base : ℕ} (atLeast : 1 < base) (atMost : base ≤ 16)

include atLeast atMost

theorem value_toDigits (number : ℕ) : value base (Nat.toDigits base number) = number := by
  apply Nat.toDigits_induction (motive := fun number digits => value base digits = number) atLeast
  · intro number small
    simp [value, valueFrom, digit_digitChar atMost small]
  intro number _ front
  rw [value_append_singleton, front, digit_digitChar atMost (Nat.mod_lt number (by omega)),
    Option.getD_some, Nat.div_add_mod']

theorem toDigits_injective : Function.Injective (Nat.toDigits base) :=
  Function.LeftInverse.injective (value_toDigits atLeast atMost)

theorem valid_toDigits (number : ℕ) : Valid base (Nat.toDigits base number) := by
  apply Nat.toDigits_induction (motive := fun _ digits => Valid base digits) atLeast
  · intro number small char member
    simp [List.mem_singleton.mp member, digit_digitChar atMost small]
  intro number _ valid char member
  rcases List.mem_append.mp member with front | last
  · exact valid char front
  · simp [List.mem_singleton.mp last, digit_digitChar atMost (Nat.mod_lt number (by omega))]

theorem head?_toDigits_ne_zero (positive : 0 < number) :
    (Nat.toDigits base number).head? ≠ some '0' := by
  revert positive
  apply Nat.toDigits_induction (motive := fun number digits =>
    0 < number → digits.head? ≠ some '0') atLeast
  · intro number small positive same
    have zero : number.digitChar = Nat.digitChar 0 := Option.some.inj same
    have digits := digit_digitChar atMost small
    rw [zero, digit_digitChar atMost (by omega)] at digits
    exact positive.ne (Option.some.inj digits)
  intro number large front _
  rw [List.head?_append_of_ne_nil _ Nat.toDigits_ne_nil]
  exact front (Nat.div_pos large (by omega))

end Radix
