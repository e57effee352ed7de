import Mathlib.Data.List.DropRight
import Mathlib.Data.List.Infix
import SwissledgerFoundry.Json.Parser

/-!
# Words between quotes

A word stands between two quotes of a text exactly if it is one of the pieces
that the quotes cut the text into.
-/

namespace Json

open List

/-- The word with a quote on each side is a part of the text. -/
def Quotes (word text : List Char) : Prop := '"' :: (word ++ ['"']) <:+: text

instance (word text : List Char) : Decidable (Quotes word text) :=
  inferInstanceAs (Decidable (_ <:+: _))

variable {piece : List Char}

/-- The first piece ends at the first quote. -/
theorem takeWhile_piece {text : List Char} (noQuote : '"' ∉ piece) :
    (piece ++ '"' :: text).takeWhile (· ≠ '"') = piece := by
  have kept : ∀ char ∈ piece, decide (char ≠ '"') = true := by
    intro char member
    rw [decide_eq_true_iff]
    rintro rfl
    exact noQuote member
  rw [takeWhile_append_of_pos kept, takeWhile_cons_of_neg (by simp), append_nil]

variable {word : List Char}

/-- What stands before the first quote does not matter. -/
theorem quotes_append_iff {text : List Char} (noQuote : '"' ∉ piece) :
    Quotes word (piece ++ text) ↔ Quotes word text := by
  induction piece with
  | nil => rfl
  | cons char piece ih =>
    rw [mem_cons, not_or] at noQuote
    rw [cons_append, Quotes, infix_cons_iff]
    constructor
    · rintro (first | later)
      · rw [cons_prefix_cons] at first
        exact absurd first.1 noQuote.1
      · exact (ih noQuote.2).mp later
    · intro found
      exact .inr ((ih noQuote.2).mpr found)

/-- Behind a quote, the word is the piece up to the next quote or comes
later. -/
theorem quotes_cons_iff (plain : '"' ∉ word) (noQuote : '"' ∉ piece) (text : List Char) :
    Quotes word ('"' :: (piece ++ '"' :: text)) ↔ piece = word ∨ Quotes word ('"' :: text) := by
  rw [Quotes, infix_cons_iff, cons_prefix_cons]
  apply or_congr
  · constructor
    · rintro ⟨_, after, same⟩
      rw [append_assoc, singleton_append] at same
      rw [← takeWhile_piece noQuote, ← same, takeWhile_piece plain]
    · rintro rfl
      refine ⟨rfl, text, ?_⟩
      rw [append_assoc, singleton_append]
  · exact quotes_append_iff noQuote

/-- An escaped character is itself or begins with a backslash, and only a
quote has a quote. -/
theorem escape_cases {char : Char} :
    (escape char = [char] ∧ char ≠ '"') ∨ (char = '"' ∧ escape char = ['\\', '"']) ∨
      ('"' ∉ escape char ∧ '\\' ∈ escape char) := by
  have digits : ∀ digit < 16, '"' ≠ digit.digitChar := by decide
  unfold escape
  split
  · next quote => exact .inr (.inl ⟨quote, rfl⟩)
  rename_i other
  split_ifs with slash back tab line page feed control
  iterate 6 exact .inr (.inr (by decide))
  · have high := digits (char.toNat / 16) (by omega)
    have low := digits (char.toNat % 16) (by omega)
    refine .inr (.inr ?_)
    simp [high, low]
  · exact .inl ⟨rfl, other⟩

theorem quote_not_mem_escape {char : Char} (other : char ≠ '"') : '"' ∉ escape char := by
  obtain ⟨same, _⟩ | ⟨quote, _⟩ | ⟨noQuote, _⟩ := escape_cases
  · rw [same, mem_singleton]
    exact other.symm
  · exact absurd quote other
  · exact noQuote

/-- Only a plain string is escaped to a word without backslashes. -/
theorem flatMap_escape_eq_iff {chars word : List Char}
    (noEscape : '\\' ∉ word) (plain : word.flatMap escape = word) :
    chars.flatMap escape = word ↔ chars = word := by
  constructor
  · intro escaped
    rw [← escaped] at noEscape
    have same : chars.flatMap escape = chars := by
      clear escaped
      induction chars with
      | nil => rfl
      | cons char chars ih =>
        rw [flatMap_cons, mem_append, not_or] at noEscape
        rw [flatMap_cons, ih noEscape.2]
        obtain ⟨same, _⟩ | ⟨_, quote⟩ | ⟨_, escaped⟩ := escape_cases
        · rw [same]
          rfl
        · rw [quote] at noEscape
          exact absurd mem_cons_self noEscape.1
        · exact absurd escaped noEscape.1
    rw [← same, escaped]
  · rintro rfl
    exact plain

/-- Up to an escaped quote no word is quoted: the piece before it ends with a
backslash. -/
theorem quotes_escaped_iff (plain : '"' ∉ word) (noEscape : '\\' ∉ word)
    (piece chars text : List Char) (noQuote : '"' ∉ piece) :
    Quotes word ('"' :: (piece ++ (chars.flatMap escape ++ '\\' :: '"' :: text))) ↔
      Quotes word ('"' :: text) := by
  have ends (front rest : List Char) (noQuote : '"' ∉ front) :
      Quotes word ('"' :: (front ++ '\\' :: '"' :: rest)) ↔ Quotes word ('"' :: rest) := by
    have whole : '"' ∉ front ++ ['\\'] := by simpa using noQuote
    have other : front ++ ['\\'] ≠ word := by
      rintro rfl
      exact noEscape (by simp)
    have cut := quotes_cons_iff plain whole rest
    simpa [other] using cut
  induction chars generalizing piece with
  | nil => exact ends piece text noQuote
  | cons char chars ih =>
    by_cases quote : char = '"'
    · subst quote
      have escaped := ends piece (chars.flatMap escape ++ '\\' :: '"' :: text) noQuote
      exact escaped.trans (ih [] not_mem_nil)
    have longer : '"' ∉ piece ++ escape char := by
      rw [mem_append, not_or]
      exact ⟨noQuote, quote_not_mem_escape quote⟩
    have rest := ih _ longer
    simpa only [flatMap_cons, append_assoc] using rest

/-- What follows the last quote. -/
def lastPiece (chars : List Char) : List Char := chars.rtakeWhile (· ≠ '"')

/-- A plain word is quoted in an escaped string if it is what follows the last
quote of the string. -/
theorem quotes_string_iff (plain : '"' ∉ word) (noEscape : '\\' ∉ word)
    (unescaped : word.flatMap escape = word) (chars text : List Char) :
    Quotes word ('"' :: (chars.flatMap escape ++ '"' :: text)) ↔
      lastPiece chars = word ∨ Quotes word ('"' :: text) := by
  have noQuote : '"' ∉ (lastPiece chars).flatMap escape := by
    intro member
    obtain ⟨char, inPiece, found⟩ := mem_flatMap.mp member
    have other : char ≠ '"' := by simpa using mem_rtakeWhile_imp inPiece
    exact quote_not_mem_escape other found
  have last : Quotes word ('"' :: ((lastPiece chars).flatMap escape ++ '"' :: text)) ↔
      lastPiece chars = word ∨ Quotes word ('"' :: text) := by
    rw [quotes_cons_iff plain noQuote, flatMap_escape_eq_iff noEscape unescaped]
  have parts : chars.rdropWhile (· ≠ '"') ++ lastPiece chars = chars := rdropWhile_append_rtakeWhile
  by_cases empty : chars.rdropWhile (· ≠ '"') = []
  · rw [empty, nil_append] at parts
    rw [parts] at last
    rwa [parts]
  -- The front ends with a quote.
  have quote : (chars.rdropWhile (· ≠ '"')).getLast empty = '"' := by
    simpa using rdropWhile_last_not _ chars empty
  have front := dropLast_append_getLast empty
  rw [quote] at front
  have before := quotes_escaped_iff plain noEscape [] (chars.rdropWhile (· ≠ '"')).dropLast
    ((lastPiece chars).flatMap escape ++ '"' :: text) not_mem_nil
  have whole : chars.flatMap escape = (chars.rdropWhile (· ≠ '"')).dropLast.flatMap escape ++
        '\\' :: '"' :: (lastPiece chars).flatMap escape := by
    conv_lhs => rw [← parts, ← front]
    rw [flatMap_append, flatMap_append, append_assoc]
    rfl
  rw [whole, append_assoc]
  exact before.trans last

end Json
