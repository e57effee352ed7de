import SwissledgerFoundry.Fmt.Cells

/-!
# What printing a token does to the page

One lemma for each print function says which fields it changes.
-/

namespace SwissledgerFoundry.Fmt

open Option

def PrintFrame.isBroken : PrintFrame → Bool
  | .fits _ => false
  | .broken _ _ => true

namespace Page

variable {page : Page}

variable {after : Page}

theorem printIndent_eq (printed : page.printIndent = some after) :
    ∃ out, after = { page with out, pendingIndentation := 0 } := by
  unfold printIndent at printed
  split at printed
  next => cases printed
  next =>
    cases printed
    exact ⟨_, rfl⟩
  next =>
    cases printed
    exact ⟨_, rfl⟩

theorem printString_eq {string : String} (printed : page.printString string = some after) :
    ∃ out, after =
      { page with
        out
        pendingIndentation := 0
        space := page.space - string.utf8ByteSize } := by
  obtain ⟨indented, printed, same⟩ := bind_eq_some_iff.mp printed
  obtain ⟨out, rfl⟩ := printIndent_eq printed
  injection same with same
  exact ⟨_, same.symm⟩

theorem printAround_eq {text : Option String} (printed : page.printAround text = some after) :
    ∃ out pendingIndentation, after = { page with out, pendingIndentation } := by
  cases text with
  | none =>
    cases printed
    exact ⟨_, _, rfl⟩
  | some text =>
    obtain ⟨indented, printed, same⟩ := bind_eq_some_iff.mp printed
    obtain ⟨out, rfl⟩ := printIndent_eq printed
    injection same with same
    exact ⟨_, _, same.symm⟩

variable {size : ℤ}

theorem printBegin_eq {token : BeginToken} (printed : page.printBegin token size = some after) :
    ∃ frame indent, after = { page with printStack := frame :: page.printStack, indent } ∧
      frame.isBroken = decide (page.space < size) := by
  unfold printBegin at printed
  split at printed
  next exceeds =>
    split at printed
    next =>
      split at printed
      next => cases printed
      next =>
        cases printed
        exact ⟨_, _, rfl, (decide_eq_true exceeds).symm⟩
    next =>
      cases printed
      exact ⟨_, _, rfl, (decide_eq_true exceeds).symm⟩
  rename_i fits
  cases printed
  exact ⟨_, _, rfl, (decide_eq_false fits).symm⟩

theorem printEnd_eq (printed : page.printEnd = some after) :
    ∃ frame rest indent, page.printStack = frame :: rest ∧
      after = { page with printStack := rest, indent } := by
  unfold printEnd at printed
  split at printed
  next => cases printed
  next indent breaks rest stack =>
    cases printed
    exact ⟨_, rest, _, stack, rfl⟩
  rename_i breaks rest stack
  cases printed
  exact ⟨_, rest, _, stack, rfl⟩

theorem printBreak_eq {token : BreakToken} (printed : page.printBreak token size = some after) :
    ∃ out pendingIndentation space, after =
        { page with
          out
          pendingIndentation
          space
          printedBreaks := page.printedBreaks ++ [(token, !page.breakFits token size)] } ∧
      (space ≤ page.space ∨ space ≤ max page.margin minSpace) := by
  unfold printBreak at printed
  dsimp only at printed
  split at printed
  next fits =>
    cases printed
    refine ⟨_, _, _, rfl, .inl ?_⟩
    omega
  rename_i exceeds
  obtain ⟨before, around, printed⟩ := bind_eq_some_iff.mp printed
  obtain ⟨out, pendingIndentation, rfl⟩ := printAround_eq around
  dsimp only at printed
  split at printed
  next => cases printed
  rename_i nonneg
  obtain ⟨behind, around, printed⟩ := bind_eq_some_iff.mp printed
  obtain ⟨out, pendingIndentation, rfl⟩ := printAround_eq around
  cases printed
  refine ⟨_, _, _, rfl, .inr ?_⟩
  dsimp only
  omega

/-- A line never has as much space as an infinite token takes. -/
structure Bounded (page : Page) : Prop where
  space_le : page.space ≤ page.margin
  minSpace_le : minSpace ≤ page.margin
  margin_lt : page.margin < sizeInfinity

theorem bounded_new (margin : ℕ) (useTabWithSize : Option ℕ) :
    (Page.new margin useTabWithSize).Bounded where
  space_le := Int.le_refl _
  minSpace_le := Int.le_max_left _ _
  margin_lt := by
    simp only [Page.new, minSpace, sizeInfinity]
    omega

theorem Bounded.space_lt (bounded : page.Bounded) : page.space < sizeInfinity :=
  Int.lt_of_le_of_lt bounded.space_le bounded.margin_lt

theorem Bounded.printToken {token : Token} (bounded : page.Bounded)
    (printed : page.printToken token size = some after) : after.Bounded := by
  cases token with
  | string text =>
    obtain ⟨out, rfl⟩ := printString_eq printed
    refine ⟨?_, bounded.minSpace_le, bounded.margin_lt⟩
    have space := bounded.space_le
    dsimp only
    omega
  | breakToken token =>
    obtain ⟨out, pendingIndentation, space, rfl, less⟩ := printBreak_eq printed
    refine ⟨?_, bounded.minSpace_le, bounded.margin_lt⟩
    have before := bounded.space_le
    have least := bounded.minSpace_le
    dsimp only
    omega
  | beginToken token =>
    obtain ⟨frame, indent, rfl, _⟩ := printBegin_eq printed
    exact ⟨bounded.space_le, bounded.minSpace_le, bounded.margin_lt⟩
  | endToken =>
    obtain ⟨frame, rest, indent, _, rfl⟩ := printEnd_eq printed
    exact ⟨bounded.space_le, bounded.minSpace_le, bounded.margin_lt⟩

end Page

end SwissledgerFoundry.Fmt
