import SwissledgerFoundry.Cast.Base

/-!
# What `cast` parses

A numeral prints as the integer it denotes in its base, with two exceptions.
Hexadecimal digits that begin with `0b` lose these two; and a negative number
below the smallest one is stored as its remainder.
-/

namespace SwissledgerFoundry.Cast

open List Radix NumberWithBase BitVec Option Base

/-- A sign, the marker of the base, and digits. -/
structure Numeral where
  sign : Option Sign
  marked : Bool
  digits : List Char

namespace Numeral

def signChars : Option Sign → List Char
  | none => []
  | some .positive => ['+']
  | some .negative => ['-']

section

variable (numeral : Numeral) (base : Base)

def chars : List Char :=
  signChars numeral.sign ++ ((if numeral.marked then base.prefixChars else []) ++ numeral.digits)

def denotes : ℤ :=
  if numeral.sign = some .negative then
    -(value base.radix numeral.digits : ℤ)
  else value base.radix numeral.digits

end

structure WellFormed (numeral : Numeral) (base : Base) : Prop where
  nonempty : numeral.digits ≠ []
  valid : Radix.Valid base.radix numeral.digits

/-- Hexadecimal digits without a marker that begin like a binary number. -/
def Mistaken (numeral : Numeral) (base : Base) (rest : List Char) : Prop :=
  base = .hexadecimal ∧ numeral.marked = false ∧
    (numeral.digits = '0' :: 'b' :: rest ∨ numeral.digits = '0' :: 'B' :: rest)

/-- The two exceptions do not apply, or the number is too large even so. -/
structure Readable (numeral : Numeral) (base : Base) : Prop where
  unmistakable : ∀ rest, numeral.Mistaken base rest → 2 ^ 256 ≤ value base.radix rest
  magnitude : numeral.sign = some .negative → value base.radix numeral.digits ≤ 2 ^ 255 ∨
      2 ^ 256 ≤ value base.radix numeral.digits

/-- The numeral of the digits that are left when the marker is stripped. -/
def taken (numeral : Numeral) (base : Base) : Numeral :=
  { numeral with
    digits := stripMarker ((if numeral.marked then base.prefixChars else []) ++ numeral.digits) }

def InRange (value : ℤ) : Prop := -2 ^ 255 ≤ value ∧ value < 2 ^ 256

end Numeral

theorem Base.radix_bounds (base : Base) : 1 < base.radix ∧ base.radix ≤ 16 := by
  cases base <;> decide

section Digits

variable {base : Base} {digits : List Char}

/-- A digit is no sign, no underscore and no letter of another marker. -/
theorem digit_ne {char other : Char} (valid : (digit base.radix
    char).isSome) (noDigit : digit 16 other = none) : char ≠ other := by
  rintro rfl
  simp only [digit, isSome_iff_exists, filter_eq_some_iff,
    filter_eq_none_iff, decide_eq_true_eq] at valid noDigit
  obtain ⟨value, found, small⟩ := valid
  have := noDigit value found
  have := base.radix_bounds.2
  omega

section

variable (valid : Radix.Valid base.radix digits)

include valid

theorem U256.fromStrRadix_valid : U256.fromStrRadix digits base.radix =
      if value base.radix digits < 2 ^ 256 then
        .ok (BitVec.ofNat 256 (value base.radix digits))
      else .error .overflow := by
  have kept : digits.filter (· ≠ '_') = digits := by
    rw [filter_eq_self]
    intro char member
    exact decide_eq_true (digit_ne (valid char member) (by decide))
  have positive : 0 < base.radix := by
    have := base.radix_bounds.1
    omega
  rw [U256.fromStrRadix, kept, readFrom_valid positive valid (by decide), ← value]
  split <;> rfl

theorem detectPrefixed_valid (nonempty : digits ≠ []) (label : String) :
    base.detectPrefixed digits label = .ok base := by
  have positive : 0 < base.radix := by
    have := base.radix_bounds.1
    omega
  have read := readFrom_valid positive valid (by decide : 0 < 2 ^ 64)
  have parsed : U64.fromStrRadix digits base.radix = readFrom (2 ^ 64) base.radix 0 digits := by
    cases digits with
    | nil => exact absurd rfl nonempty
    | cons char rest =>
      have noPlus : char ≠ '+' := digit_ne (valid char mem_cons_self) (by decide)
      rw [U64.fromStrRadix.eq_4]
      · nofun
      · intro single
        exact noPlus (cons.inj single).1
      · intro other plus
        exact noPlus (cons.inj plus).1
  rw [detectPrefixed, parsed, read]
  split
  · rfl
  · rfl
  rename_i error differs failed
  split at failed
  · cases failed
  · cases failed
    exact absurd rfl differs

/-- Valid digits are taken as they are, but for hexadecimal ones that begin
like a binary number. -/
theorem stripMarker_digits : stripMarker digits = digits ∨ base = .hexadecimal ∧
    (digits = '0' :: 'b' :: stripMarker digits ∨ digits = '0' :: 'B' :: stripMarker digits) := by
  have clash : ∀ {char : Char} {rest : List Char},
      digits = '0' :: char :: rest → digit 16 char = none → False := by
    intro char rest same noDigit
    exact digit_ne (valid char (by simp [same])) noDigit rfl
  have binary : ∀ {char : Char} {rest : List Char},
      digits = '0' :: char :: rest → char = 'b' ∨ char = 'B' → base = .hexadecimal := by
    rintro char rest rfl letter
    have digitB := valid char (by simp)
    cases base with
    | hexadecimal => rfl
    | _ => rcases letter with rfl | rfl <;> exact absurd digitB (by decide)
  unfold stripMarker
  split
  · exact (clash rfl (by decide)).elim
  · exact (clash rfl (by decide)).elim
  · exact (clash rfl (by decide)).elim
  · exact (clash rfl (by decide)).elim
  · exact .inr ⟨binary rfl (.inl rfl), .inl rfl⟩
  · exact .inr ⟨binary rfl (.inr rfl), .inr rfl⟩
  · exact .inl rfl

end

theorem stripMarker_marked (marked : base ≠ .decimal) :
    stripMarker (base.prefixChars ++ digits) = digits := by
  cases base with
  | decimal => exact absurd rfl marked
  | _ => rfl

end Digits

variable (number : U256)

section Numerals

variable {base : Base} {numeral : Numeral}

theorem Numeral.taken_cases (wellFormed : numeral.WellFormed base) :
    numeral.taken base = numeral ∨ numeral.Mistaken base (numeral.taken base).digits := by
  have digits := stripMarker_digits wellFormed.valid
  cases marked : numeral.marked with
  | false =>
    have taken : (numeral.taken base).digits = stripMarker numeral.digits := by
      simp [Numeral.taken, marked]
    rw [← taken] at digits
    refine digits.imp (fun same => ?_) fun ⟨hex, digits⟩ => ⟨hex, marked, digits⟩
    exact congrArg (Numeral.mk numeral.sign numeral.marked) same
  | true =>
    refine .inl (congrArg (Numeral.mk numeral.sign numeral.marked) ?_)
    rw [if_pos marked]
    by_cases decimal : base = .decimal
    · subst decimal
      exact digits.resolve_right fun ⟨hex, _⟩ => by cases hex
    · exact stripMarker_marked decimal

theorem Numeral.Mistaken.taken_digits {rest : List Char} (mistaken : numeral.Mistaken base rest) :
    (numeral.taken base).digits = rest := by
  obtain ⟨-, marked, digits | digits⟩ := mistaken <;>
    simp [Numeral.taken, marked, digits, stripMarker]

/-- The digits that are taken for a marker count eleven times the others' unit. -/
theorem Numeral.Mistaken.value_lt {rest : List Char} (mistaken : numeral.Mistaken base rest) :
    value base.radix rest < value base.radix numeral.digits := by
  obtain ⟨rfl, -, digits | digits⟩ := mistaken <;> rw [digits]
  · exact valueFrom_strictMono (by decide) rest (by decide : 0 < 11)
  · exact valueFrom_strictMono (by decide) rest (by decide : 0 < 11)

theorem Numeral.valid_taken (wellFormed : numeral.WellFormed base) :
    Radix.Valid base.radix (numeral.taken base).digits := by
  obtain same | ⟨-, -, digits⟩ := Numeral.taken_cases wellFormed
  · rw [same]
    exact wellFormed.valid
  · intro char member
    refine wellFormed.valid char ?_
    obtain digits | digits := digits <;> exact digits ▸ mem_cons_of_mem _ (mem_cons_of_mem _ member)

theorem getSign_numeral (wellFormed : numeral.WellFormed base) : getSign (numeral.chars base) =
      ((if numeral.marked then base.prefixChars else []) ++ numeral.digits,
        numeral.sign.getD .positive) := by
  have unsigned : ∀ chars : List Char, (∀ char ∈ chars.head?, char ≠ '+' ∧ char ≠ '-') →
      getSign chars = (chars, .positive) := by
    intro chars free
    unfold getSign
    split
    · exact absurd rfl (free '+' rfl).1
    · exact absurd rfl (free '-' rfl).2
    · rfl
  have free : ∀ char ∈ ((if numeral.marked then base.prefixChars else []) ++
      numeral.digits).head?, char ≠ '+' ∧ char ≠ '-' := by
    intro char first
    have digit : char = '0' ∨ char ∈ numeral.digits := by
      split at first
      · cases base with
        | decimal => exact .inr (mem_of_mem_head? first)
        | _ => exact .inl (some.inj first).symm
      · exact .inr (mem_of_mem_head? first)
    rcases digit with rfl | member
    · decide
    · exact ⟨digit_ne (wellFormed.valid char member) (by decide),
        digit_ne (wellFormed.valid char member) (by decide)⟩
  unfold Numeral.chars
  cases numeral.sign with
  | none => exact unsigned _ free
  | some sign => cases sign <;> rfl

def Numeral.word (numeral : Numeral) (base : Base) : U256 :=
  let value := BitVec.ofNat 256 (value base.radix numeral.digits)
  if numeral.sign = some .negative then -value else value

theorem parseInt_numeral {name : Option String}
    (found : unwrapOrDetect name (numeral.chars base) = .ok base)
    (wellFormed : numeral.WellFormed base) :
    parseInt (numeral.chars base) name =
      if value base.radix (numeral.taken base).digits < 2 ^ 256 then
        .ok { number := (numeral.taken base).word base
              isNonnegative := numeral.sign ≠ some .negative
              base := base }
      else .error (.notParsed .overflow) := by
  have read : parseUintIn ((if numeral.marked then base.prefixChars else []) ++ numeral.digits)
      base =
        if value base.radix (numeral.taken base).digits < 2 ^ 256 then
          .ok (BitVec.ofNat 256 (value base.radix (numeral.taken base).digits))
        else .error (.notParsed .overflow) := by
    have digits := U256.fromStrRadix_valid (Numeral.valid_taken wellFormed)
    change Except.mapError _ (U256.fromStrRadix (numeral.taken base).digits base.radix) = _
    rw [digits]
    split <;> rfl
  simp only [parseInt, found, parseIntIn, getSign_numeral wellFormed, read, bind, Except.bind]
  by_cases fits : value base.radix (numeral.taken base).digits < 2 ^ 256
  · rw [if_pos fits, if_pos fits]
    unfold Numeral.word
    have sign : (numeral.taken base).sign = numeral.sign := rfl
    rw [sign]
    cases numeral.sign with
    | none => rfl
    | some sign =>
      cases sign with
      | positive => rfl
      | negative =>
        simp only [getD_some, pure, Except.pure, if_true,
          neg_eq_not_add, ne_eq, not_true, decide_false]
        rfl
  · rw [if_neg fits, if_neg fits]

theorem format_digits {base : ℕ} (atLeast : 1 < base) (atMost : base ≤ 16)
    {number : ℕ} (positive : 0 < number) :
    (if (Nat.toDigits base number).head? = some '0' then
        (Nat.toDigits base number).dropWhile (· = '0')
      else Nat.toDigits base number) = Nat.toDigits base number :=
  if_neg (head?_toDigits_ne_zero atLeast atMost positive)

theorem toString_int (value : ℤ) : toString value = String.ofList
      ((if value < 0 then ['-'] else []) ++ Nat.toDigits 10 value.natAbs) := by
  cases value with
  | ofNat value => exact Nat.toString_eq_ofList_toDigits
  | negSucc value =>
    rw [if_pos (Int.negSucc_lt_zero value)]
    change "-" ++ Nat.repr (value + 1) = _
    rw [String.ofList_append]
    rfl

/-- The sign counts for nothing. -/
theorem value_toString (number : ℤ) : value 10 (toString number).toList = number.natAbs := by
  rw [toString_int, String.toList_ofList]
  split <;> exact value_toDigits (by decide) (by decide) _

theorem format_nonneg {number : U256} (nonzero : number ≠ 0) (base : Base) :
    format ⟨number, true, base⟩ = Nat.toDigits base.radix number.toNat := by
  have positive : 0 < number.toNat := by exact toNat_pos_of_ne_zero nonzero
  have digits := format_digits base.radix_bounds.1 base.radix_bounds.2 positive
  cases base <;> exact digits

theorem debug_nonneg (base : Base) (alternate : Bool) : debug ⟨number, true, base⟩ alternate =
      (if alternate then base.prefixChars else []) ++ Nat.toDigits base.radix number.toNat := by
  by_cases zero : number = 0
  · subst zero
    cases base <;> rfl
  · rw [debug, if_neg zero, format_nonneg zero]
    cases base <;> rfl

theorem debug_decimal_neg {number : U256} (negative : number.toInt < 0) :
    debug ⟨number, false, .decimal⟩ false = '-' :: Nat.toDigits 10 number.toInt.natAbs := by
  have nonzero : number ≠ 0 := by
    rintro rfl
    exact absurd negative (by decide)
  simp only [debug, if_neg nonzero, padIntegral,
    NumberWithBase.format, I256.toChars, if_pos negative, if_false,
    Bool.false_eq_true, append_nil, singleton_append]
  rw [format_digits (by decide) (by decide) (by omega)]

theorem toInt_neg_ofNat {value : ℕ} (positive : 0 < value) (bounded : value ≤ 2 ^ 255) :
    (-(BitVec.ofNat 256 value)).toInt = -(value : ℤ) := by
  rw [toInt_eq_toNat_cond, toNat_neg, toNat_ofNat]
  omega

theorem debug_word (fits : value base.radix numeral.digits < 2 ^ 256)
    (bounded : numeral.sign = some .negative → value base.radix numeral.digits ≤ 2 ^ 255) :
    String.ofList (debug ⟨numeral.word base, numeral.sign ≠ some .negative, .decimal⟩ false) =
      toString (numeral.denotes base) := by
  have small := Nat.mod_eq_of_lt fits
  rw [toString_int, Numeral.word, Numeral.denotes]
  by_cases negative : numeral.sign = some .negative
  · rw [if_pos negative, if_pos negative, decide_eq_false (by simpa using negative)]
    by_cases zero : value base.radix numeral.digits = 0
    · rw [zero]
      rfl
    have value := toInt_neg_ofNat (Nat.pos_of_ne_zero zero) (bounded negative)
    rw [debug_decimal_neg (by omega), value, if_pos (by omega)]
    rfl
  have nonnegative : ¬ (value base.radix numeral.digits : ℤ) < 0 := by omega
  rw [if_neg negative, if_neg negative, decide_eq_true negative, debug_nonneg, toNat_ofNat, small]
  rfl

end Numerals

theorem detect_decimal {digits : List Char} (valid : Valid 10 digits)
    (fits : value 10 digits < 2 ^ 256) :
    detect digits = .ok .decimal := by
  have inBase : Valid decimal.radix digits := valid
  have read : U256.fromStrRadix digits 10 = .ok _ :=
    (U256.fromStrRadix_valid inBase).trans (if_pos fits)
  have clash : ∀ {char : Char}, char ∈ digits → digit 10 char = none → False := by
    intro char member noDigit
    have digit := valid char member
    simp [noDigit] at digit
  rw [detect.eq_def]
  split
  · exact (clash mem_cons_self (by decide)).elim
  · exact (clash mem_cons_self (by decide)).elim
  · exact (clash (mem_cons_of_mem _ mem_cons_self) (by decide)).elim
  · exact (clash (mem_cons_of_mem _ mem_cons_self) (by decide)).elim
  · exact (clash (mem_cons_of_mem _ mem_cons_self) (by decide)).elim
  · rw [read]

theorem detect_toBase (base : Base) :
    detect (base.prefixChars ++ Nat.toDigits base.radix number.toNat) = .ok base := by
  have valid := valid_toDigits base.radix_bounds.1 base.radix_bounds.2 number.toNat
  cases base with
  | decimal =>
    apply detect_decimal valid
    rw [radix, value_toDigits (by decide) (by decide)]
    exact number.isLt
  | _ => exact detectPrefixed_valid valid Nat.toDigits_ne_nil _

/-- The text of a word is a numeral with the marker of the base. -/
theorem parseInt_toBase (base : Base) : ∃ parsed, parseInt (U256.toBase number base true) none =
        .ok parsed ∧ parsed.number = number := by
  let numeral : Numeral := ⟨none, true, Nat.toDigits base.radix number.toNat⟩
  have text : U256.toBase number base true = numeral.chars base := debug_nonneg number base true
  have value : value base.radix numeral.digits = number.toNat :=
    value_toDigits base.radix_bounds.1 base.radix_bounds.2 _
  have wellFormed : numeral.WellFormed base :=
    ⟨Nat.toDigits_ne_nil, valid_toDigits base.radix_bounds.1 base.radix_bounds.2 _⟩
  have taken : numeral.taken base = numeral := (Numeral.taken_cases wellFormed).resolve_right nofun
  have found : unwrapOrDetect none (numeral.chars base) = .ok base := detect_toBase number base
  rw [text, parseInt_numeral found wellFormed, taken, value, if_pos number.isLt]
  refine ⟨_, rfl, ?_⟩
  change BitVec.ofNat 256 (Radix.value base.radix numeral.digits) = number
  rw [value]
  simp

/-- The numerals outside of the range have too large a magnitude. -/
theorem Numeral.inRange_iff (numeral : Numeral) (base : Base) :
    Numeral.InRange (numeral.denotes base) ↔ value base.radix numeral.digits < 2 ^ 256 ∧
      (numeral.sign = some .negative → value base.radix numeral.digits ≤ 2 ^ 255) := by
  unfold InRange denotes
  by_cases negative : numeral.sign = some .negative
  · rw [if_pos negative]
    simp only [negative, true_imp_iff]
    omega
  · rw [if_neg negative]
    simp only [negative, false_imp_iff, and_true]
    omega

theorem Numeral.natAbs_denotes (numeral : Numeral) (base : Base) :
    (numeral.denotes base).natAbs = value base.radix numeral.digits := by
  unfold denotes
  split <;> simp

/-- A numeral in the range is parsed and prints as the integer it denotes, one
outside of the range is refused, and the text of every word is parsed as this
word: all this exactly for the readable numerals. -/
theorem parseInt_exact_iff {base : Base} {numeral : Numeral} {name : String}
    (named : fromStr name = .ok base) (wellFormed : numeral.WellFormed base) :
    ((Numeral.InRange (numeral.denotes base) →
      ∃ parsed, parseInt (numeral.chars base) (some name) = .ok parsed ∧
        String.ofList ((parsed.withBase .decimal).debug false) = toString (numeral.denotes base)) ∧
      (¬ Numeral.InRange (numeral.denotes base) →
        ∃ error, parseInt (numeral.chars base) (some name) = .error error) ∧
      ∀ (number : U256) (other : Base), ∃ parsed, parseInt (U256.toBase number other true) none =
            .ok parsed ∧ parsed.number = number) ↔ numeral.Readable base := by
  have found : unwrapOrDetect (some name) (numeral.chars base) = .ok base := named
  have parsed := parseInt_numeral found wellFormed
  constructor
  · rintro ⟨exactly, refuses, -⟩
    -- What is parsed is in the range.
    have inRange : value base.radix (numeral.taken base).digits < 2 ^ 256 →
        Numeral.InRange (numeral.denotes base) := by
      intro fits
      by_contra outside
      obtain ⟨error, refused⟩ := refuses outside
      rw [parsed, if_pos fits] at refused
      cases refused
    constructor
    · intro rest mistaken
      by_contra! fits
      have less := mistaken.value_lt
      rw [← mistaken.taken_digits] at fits less
      have within := inRange fits
      obtain ⟨result, ok, prints⟩ := exactly within
      rw [parsed, if_pos fits] at ok
      obtain rfl := Except.ok.inj ok
      have bounded := ((Numeral.inRange_iff numeral base).mp within).2
      have taken : String.ofList _ = toString ((numeral.taken base).denotes base) :=
        debug_word fits fun negative => (less.trans_le (bounded negative)).le
      have same := congrArg (value 10 ·.toList) (taken.symm.trans prints)
      simp only [value_toString, Numeral.natAbs_denotes] at same
      exact less.ne same
    · intro negative
      by_contra! between
      obtain same | mistaken := Numeral.taken_cases wellFormed
      · have within := inRange (same.symm ▸ between.2)
        exact between.1.not_ge (((Numeral.inRange_iff numeral base).mp within).2 negative)
      · have within := inRange (mistaken.value_lt.trans between.2)
        exact between.1.not_ge (((Numeral.inRange_iff numeral base).mp within).2 negative)
  intro readable
  rw [Numeral.inRange_iff]
  refine ⟨?_, ?_, parseInt_toBase⟩
  · rintro ⟨fits, bounded⟩
    obtain same | mistaken := Numeral.taken_cases wellFormed
    · rw [same, if_pos fits] at parsed
      exact ⟨_, parsed, debug_word fits bounded⟩
    · have := readable.unmistakable _ mistaken
      have := mistaken.value_lt
      omega
  intro outside
  have large : ¬ value base.radix (numeral.taken base).digits < 2 ^ 256 := by
    obtain same | mistaken := Numeral.taken_cases wellFormed
    · rw [same]
      intro fits
      refine outside ⟨fits, fun negative => (readable.magnitude negative).resolve_right ?_⟩
      exact fits.not_ge
    · exact (readable.unmistakable _ mistaken).not_gt
  rw [if_neg large] at parsed
  exact ⟨_, parsed⟩

/-- A negative number with a marker. -/
theorem parseInt_exact_iff_negative :
    ∃ parsed, parseInt ['-', '0', 'x', 'F', 'f'] (some "hex") = .ok parsed ∧
      String.ofList ((parsed.withBase .decimal).debug false) = toString (-255 : ℤ) := by
  have named : fromStr "hex" = .ok .hexadecimal := by decide +kernel
  have wellFormed : Numeral.WellFormed ⟨some .negative, true, ['F', 'f']⟩ .hexadecimal := by
    constructor <;> decide
  have readable : Numeral.Readable ⟨some .negative, true, ['F', 'f']⟩ .hexadecimal := by
    constructor
    · nofun
    · intro _
      exact .inl (by decide)
  have inRange : Numeral.InRange (-255) := by constructor <;> decide
  exact ((parseInt_exact_iff named wellFormed).mpr readable).1 inRange

/-- The first digits of a hexadecimal number are taken for a marker, and a
number below the smallest one is printed as another one. -/
theorem parseInt_mistakes : (Numeral.denotes ⟨none, false, ['0', 'b', '1']⟩ .hexadecimal = 177 ∧
        ∃ parsed, parseInt (Numeral.chars ⟨none, false, ['0', 'b', '1']⟩ .hexadecimal)
            (some "16") = .ok parsed ∧
          (parsed.withBase .decimal).debug false = ['1']) ∧
      Numeral.denotes ⟨some .negative, true, List.replicate 64 'f'⟩ .hexadecimal = -(2 ^ 256 - 1) ∧
        ∃ parsed, parseInt (Numeral.chars ⟨some .negative, true, List.replicate 64 'f'⟩
              .hexadecimal) (some "16") = .ok parsed ∧
          (parsed.withBase .decimal).debug false = ['-', '1'] := by
  refine ⟨⟨by decide +kernel, ⟨1, true, .hexadecimal⟩, ?_, ?_⟩,
    by decide +kernel, ⟨1, false, .hexadecimal⟩, ?_, ?_⟩
  · decide +kernel
  · decide +kernel
  · decide +kernel
  · decide +kernel

end SwissledgerFoundry.Cast
